import Glider.Lib.Assoc
import Glider.Lib.DepthFirst
import Glider.Lib.Json

namespace Glider.ConfigParsers

open Glider.Lib
open Bytes (ascii)

structure RepoInfo where
  url : Bytes
  branch : Bytes

inductive Arch where
  | arm
  | arm64
  | x86
  | x86_64

inductive KernelType where
  | zImage
  | zImageDtb
  | image
  | imageGz
  | imageGzDtb

inductive ClangSupport where
  | none
  | clang
  | fullLLVM
  | fullLLVMWithIAS

structure AnyKernel where
  enabled : Bool
  relativeDirectory : Bytes

structure Defconfig where
  scheme : Bytes
  devices : List Bytes

structure Fragments where
  name : Bytes
  scheme : Bytes
  depends : List Bytes
  description : Bytes
  defaultEnabled : Bool

structure KernelConfig where
  name : Bytes
  underscoredName : Bytes
  repoInfo : RepoInfo
  shallowClone : Bool
  arch : Arch
  type : KernelType
  clang : ClangSupport
  anyKernel : AnyKernel
  defconfig : Defconfig
  fragments : Assoc Bytes Fragments
  envMap : Assoc Bytes Bytes

-- What the members are before the first parse.
def KernelConfig.initial : KernelConfig where
  name := []
  underscoredName := []
  repoInfo := ⟨[], []⟩
  shallowClone := false
  arch := .arm
  type := .zImage
  clang := .none
  anyKernel := ⟨false, []⟩
  defconfig := ⟨[], []⟩
  fragments := .empty
  envMap := .empty

-- What is written before an exception stays written.
abbrev Loader := ExceptT Bytes (StateM KernelConfig)

-- `none` is a missing field.
def get {α : Type} (node : Json) (key : Bytes) (read : Json → Except Bytes α) :
    Except Bytes (Option α) :=
  match node.find key with
  | some value => (read value).map some
  | none => .ok none

def getIn {α : Type} (node : Json) (tree key : Bytes) (read : Json → Except Bytes α) :
    Except Bytes (Option α) :=
  match node.find tree with
  | some sub => get sub key read
  | none => .ok none

-- The entries of a vector up to the first that is not a text, and the exception it throws.
def takeStrings : List Json → List Bytes × Except Bytes Unit
  | [] => ([], .ok ())
  | entry :: rest =>
    match entry.getString with
    | .error e => ([], .error e)
    | .ok s => (s :: (takeStrings rest).1, (takeStrings rest).2)

def underscored (name : Bytes) : Bytes :=
  name.map fun b => if b = 32 ∨ b = 45 ∨ b = 46 then 95 else b

def parseName (node : Json) : Loader Bool := do
  let found ← get node (ascii "name") Json.getString
  modify fun c => { c with name := found.getD c.name }
  modify fun c => { c with underscoredName := underscored c.name }
  return found.isSome

def parseRepoInfo (node : Json) : Loader Bool := do
  let url ← getIn node (ascii "repo") (ascii "url") Json.getString
  let branch ← getIn node (ascii "repo") (ascii "branch") Json.getString
  let shallow ← getIn node (ascii "repo") (ascii "shallow") Json.getBool
  modify fun c => { c with shallowClone := shallow.getD c.shallowClone }
  modify fun c => { c with repoInfo := ⟨url.getD [], branch.getD []⟩ }
  return url.isSome && branch.isSome

def Arch.ofText (s : Bytes) : Option Arch :=
  if s.equalsIgnoreCase (ascii "arm") then some .arm
  else if s.equalsIgnoreCase (ascii "arm64") then some .arm64
  else if s.equalsIgnoreCase (ascii "x86") then some .x86
  else if s.equalsIgnoreCase (ascii "x86_64") then some .x86_64
  else none

def KernelType.ofText (s : Bytes) : Option KernelType :=
  if s = ascii "Image" then some .image
  else if s = ascii "Image.gz" then some .imageGz
  else if s = ascii "Image.gz-dtb" then some .imageGzDtb
  else if s = ascii "zImage" then some .zImage
  else if s = ascii "zImage-dtb" then some .zImageDtb
  else none

-- A missing field is the empty text, which no name of the table is.
def parseArch (node : Json) : Loader Bool := do
  let archStr ← get node (ascii "arch") Json.getString
  match Arch.ofText (archStr.getD []) with
  | some arch => do
      modify fun c => { c with arch := arch }
      return archStr.isSome
  | none => return false

def parseType (node : Json) : Loader Bool := do
  let typeStr ← get node (ascii "type") Json.getString
  match KernelType.ofText (typeStr.getD []) with
  | some type => do
      modify fun c => { c with type := type }
      return typeStr.isSome
  | none => return false

-- The flag that is read keeps its value when a field is missing; the second part of the answer is
-- whether all fields were found.
def readClang (node : Json) : Except Bytes (ClangSupport × Bool) := do
  let clang ← getIn node (ascii "toolchains") (ascii "clang") Json.getBool
  if clang.getD false then
    let binutils ← getIn node (ascii "toolchains") (ascii "llvm_binutils") Json.getBool
    if binutils.getD true then
      let ias ← getIn node (ascii "toolchains") (ascii "llvm_ias") Json.getBool
      return (if ias.getD true then .fullLLVMWithIAS else .fullLLVM, binutils.isSome && ias.isSome)
    else return (.clang, binutils.isSome)
  else return (.none, clang.isSome)

def parseClangSupport (node : Json) : Loader Bool := do
  let support ← readClang node
  modify fun c => { c with clang := support.1 }
  return support.2

def parseAnyKernel (node : Json) : Loader Bool := do
  if !node.contains (ascii "anykernel") then return true
  let enabled ← getIn node (ascii "anykernel") (ascii "enabled") Json.getBool
  modify fun c => { c with anyKernel.enabled := enabled.getD c.anyKernel.enabled }
  if (← MonadState.get).anyKernel.enabled then
    let location ← getIn node (ascii "anykernel") (ascii "location") Json.getString
    modify fun c =>
      { c with anyKernel.relativeDirectory := location.getD c.anyKernel.relativeDirectory }
    return enabled.isSome && location.isSome
  else return enabled.isSome

def parseDefconfig (node : Json) : Loader Bool := do
  let scheme ← getIn node (ascii "defconfig") (ascii "scheme") Json.getString
  modify fun c => { c with defconfig.scheme := scheme.getD c.defconfig.scheme }
  match (node.find (ascii "defconfig")).bind (·.find (ascii "devices")) with
  | none => return false
  | some value => do
      let taken := takeStrings value.items
      modify fun c => { c with defconfig.devices := c.defconfig.devices ++ taken.1 }
      taken.2
      return scheme.isSome

-- The local vector starts empty, and is lost if an entry throws.
def getVector (node : Json) (key : Bytes) : Except Bytes (Option (List Bytes)) :=
  get node key fun value => (takeStrings value.items).2.map fun _ => (takeStrings value.items).1

def readFragment (fragment : Json) : Except Bytes (Option (Bytes × Fragments)) := do
  let name ← get fragment (ascii "name") Json.getString
  let scheme ← get fragment (ascii "scheme") Json.getString
  let depends ← getVector fragment (ascii "depends")
  let defaultEnabled ← get fragment (ascii "default_enabled") Json.getBool
  let description ← get fragment (ascii "description") Json.getString
  return do
    let frag : Fragments := ⟨← name, ← scheme, ← depends, ← description, ← defaultEnabled⟩
    return (frag.name, frag)

def readEnv (env : Json) : Except Bytes (Option (Bytes × Bytes)) := do
  let key ← get env (ascii "name") Json.getString
  let value ← get env (ascii "value") Json.getString
  return do return (← key, ← value)

-- Each entry of a member that may be missing is stored under its key, up to the first that fails.
def parseEach {α : Type} (read : Json → Except Bytes (Option (Bytes × α)))
    (store : Bytes → α → KernelConfig → KernelConfig) : List Json → Loader Bool
  | [] => return true
  | entry :: rest => do
      match ← read entry with
      | none => return false
      | some (key, a) => do
          modify (store key a)
          parseEach read store rest

def parseFragments (node : Json) : Loader Bool :=
  match node.find (ascii "fragments") with
  | none => return true
  | some value => parseEach readFragment
      (fun name frag c => { c with fragments := c.fragments.insert name frag }) value.items

def parseEnvMap (node : Json) : Loader Bool :=
  match node.find (ascii "env") with
  | none => return true
  | some value => parseEach readEnv
      (fun key value c => { c with envMap := c.envMap.insert key value }) value.items

-- `DependencyChecker`. A name that is no fragment depends on nothing.
def depends (fragments : Assoc Bytes Fragments) (name : Bytes) : List Bytes :=
  ((fragments.find? name).map Fragments.depends).getD []

def hasDependencyLoop (fragments : Assoc Bytes Fragments) : Bool :=
  DepthFirst.hasLoop (depends fragments) (fragments.members.length + 1) fragments.keys ⟨[], []⟩ =
    some true

def parts : List (Json → Loader Bool) :=
  [parseName, parseRepoInfo, parseArch, parseType, parseClangSupport, parseAnyKernel,
    parseDefconfig, parseFragments, parseEnvMap]

-- Every part is run, also after one that failed.
def runParts (node : Json) : List (Json → Loader Bool) → Loader Bool
  | [] => return true
  | part :: rest => do
      let good ← part node
      let others ← runParts node rest
      return good && others

def parse (node : Json) : Loader Bool := do
  if ← runParts node parts then
    return !hasDependencyLoop (← MonadState.get).fragments
  else return false

-- The object and its file as it knows it.
structure Loaded where
  config : KernelConfig
  fileContentCache : Bytes
  lastModified : ℕ

-- `json::parse`, with the text of its exception.
structure Source where
  filename : Bytes
  parseText : Bytes → Except Bytes Json

variable (source : Source)

def Source.failed : Bytes := ascii "Failed to parse JSON file: " ++ source.filename

def parseFile (content : Bytes) (object : Loaded) : Except Bytes Unit × Loaded :=
  let object := { object with fileContentCache := content }
  match source.parseText content with
  | .error what => (.error (source.failed ++ ascii ": " ++ what), object)
  | .ok root =>
    match parse root object.config with
    | (.error what, config) => (.error what, { object with config })
    | (.ok false, config) => (.error source.failed, { object with config })
    | (.ok true, config) => (.ok (), { object with config })

-- The constructor.
def construct (mtime : ℕ) (content : Bytes) : Except Bytes Loaded :=
  match parseFile source content ⟨.initial, [], mtime⟩ with
  | (.error what, _) => .error what
  | (.ok (), object) => .ok object

open Relation

-- A fragment has an edge to every name in its list, of a fragment or not.
def DependsOn (fragments : Assoc Bytes Fragments) (name dep : Bytes) : Prop :=
  ∃ frag, fragments.find? name = some frag ∧ dep ∈ frag.depends

section Loops

variable {fragments fragments' : Assoc Bytes Fragments}

theorem edge_depends {name dep : Bytes} :
    DepthFirst.Edge (depends fragments) name dep ↔ DependsOn fragments name dep := by
  unfold DepthFirst.Edge depends DependsOn
  cases fragments.find? name with
  | none | some frag => simp

theorem key_of_depends {name : Bytes} (h : depends fragments name ≠ []) :
    name ∈ fragments.keys := by
  cases hfind : fragments.find? name with
  | none => exact absurd (by rw [depends, hfind]; rfl) h
  | some frag => exact Assoc.mem_keys.mpr ⟨frag, hfind⟩

-- With more calls than fragments allowed the search has an answer.
theorem exists_answer (fragments : Assoc Bytes Fragments) (more : ℕ) :
    ∃ answer, DepthFirst.hasLoop (depends fragments) (fragments.members.length + 1 + more)
        fragments.keys ⟨[], []⟩ = some answer ∧
      (answer = true ↔ ¬Acyclic (DepthFirst.Edge (depends fragments))) := by
  apply DepthFirst.hasLoop_iff fun _ => key_of_depends
  rw [Assoc.keys, List.length_map]
  omega

theorem hasDependencyLoop_iff :
    hasDependencyLoop fragments = true ↔ ¬Acyclic (DepthFirst.Edge (depends fragments)) := by
  obtain ⟨answer, hanswer, hiff⟩ := exists_answer fragments 0
  rw [hasDependencyLoop, hanswer, decide_eq_true_iff, Option.some_inj]
  exact hiff

-- Fragments that are in a map without a loop have none.
theorem hasDependencyLoop_mono (h : hasDependencyLoop fragments' = false)
    (hsub : ∀ name frag, fragments.find? name = some frag → fragments'.find? name = some frag) :
    hasDependencyLoop fragments = false := by
  apply eq_false_of_ne_true
  intro hloop
  have hacyclic : Acyclic (DepthFirst.Edge (depends fragments')) :=
    not_not.mp (mt hasDependencyLoop_iff.mpr (ne_true_of_eq_false h))
  refine hasDependencyLoop_iff.mp hloop (hacyclic.anti fun x y hedge => ?_)
  unfold DepthFirst.Edge depends at hedge ⊢
  cases hfind : fragments.find? x with
  | none => rw [hfind] at hedge; cases hedge
  | some frag =>
    rw [hfind] at hedge
    rwa [hsub x frag hfind]

-- Only a fragment depends on anything, so that a loop goes through fragments.
theorem acyclic_depends_iff : Acyclic (DepthFirst.Edge (depends fragments)) ↔
    ¬∃ name ∈ fragments.keys, TransGen (DependsOn fragments) name name := by
  have hedge : DepthFirst.Edge (depends fragments) = DependsOn fragments :=
    funext₂ fun _ _ => propext edge_depends
  rw [hedge]
  constructor
  · rintro hacyclic ⟨name, -, hloop⟩
    exact hacyclic name hloop
  · intro hnone name hloop
    obtain ⟨dep, ⟨frag, hfind, -⟩, -⟩ := TransGen.head'_iff.mp hloop
    exact hnone ⟨name, Assoc.mem_keys.mpr ⟨frag, hfind⟩, hloop⟩

-- However much deeper the search may go, it answers, and finds a loop just when there is one.
theorem loop_found_iff (fragments : Assoc Bytes Fragments) (more : ℕ) :
    ∃ answer, DepthFirst.hasLoop (depends fragments) (fragments.members.length + 1 + more)
        fragments.keys ⟨[], []⟩ = some answer ∧
      hasDependencyLoop fragments = answer ∧
      (answer = true ↔ ∃ name ∈ fragments.keys, TransGen (DependsOn fragments) name name) := by
  obtain ⟨answer, hanswer, hiff⟩ := exists_answer fragments more
  refine ⟨answer, hanswer, ?_, ?_⟩
  · rw [Bool.eq_iff_iff, hasDependencyLoop_iff, hiff]
  · rw [hiff, acyclic_depends_iff, not_not]

end Loops

end Glider.ConfigParsers

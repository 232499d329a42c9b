import Glider.ConfigParsers.Parser

namespace Glider.ConfigParsers

open Glider.Lib
open Bytes (ascii)

inductive AnyKernelTold where
  | absent
  | disabled
  | enabled (location : Bytes)

def AnyKernelTold.onto (told : AnyKernelTold) (a : AnyKernel) : AnyKernel :=
  match told with
  | .absent => a
  | .disabled => { a with enabled := false }
  | .enabled location => ⟨true, location⟩

-- What a document with nothing missing and nothing wrong tells.
structure Content where
  name : Bytes
  repo : RepoInfo × Option Bool
  arch : Arch
  type : KernelType
  clangSupport : ClangSupport
  anyKernel : AnyKernelTold
  defconfig : Defconfig
  fragments : List (Bytes × Fragments)
  env : List (Bytes × Bytes)

section Readings

variable (node : Json)

def readName : Except Bytes (Option Bytes) := get node (ascii "name") Json.getString

def readRepo : Except Bytes (Option Bytes × Option Bytes × Option Bool) := do
  let url ← getIn node (ascii "repo") (ascii "url") Json.getString
  let branch ← getIn node (ascii "repo") (ascii "branch") Json.getString
  let shallow ← getIn node (ascii "repo") (ascii "shallow") Json.getBool
  return (url, branch, shallow)

def readArch : Except Bytes (Option Arch) :=
  (get node (ascii "arch") Json.getString).map fun s => Arch.ofText (s.getD [])

def readType : Except Bytes (Option KernelType) :=
  (get node (ascii "type") Json.getString).map fun s => KernelType.ofText (s.getD [])

def readEnabled : Except Bytes (Option Bool) :=
  getIn node (ascii "anykernel") (ascii "enabled") Json.getBool

def readLocation : Except Bytes (Option Bytes) :=
  getIn node (ascii "anykernel") (ascii "location") Json.getString

def readScheme : Except Bytes (Option Bytes) :=
  getIn node (ascii "defconfig") (ascii "scheme") Json.getString

-- The devices up to the first that is not a text, and whether there was one.
def takeDevices : List Bytes × Except Bytes Unit :=
  takeStrings ((((node.find (ascii "defconfig")).bind (·.find (ascii "devices"))).map
    Json.items).getD [])

def hasDevices : Bool := ((node.find (ascii "defconfig")).bind (·.find (ascii "devices"))).isSome

end Readings

-- The entries up to the first that fails, and how it fails.
def takeEach {α : Type} (read : Json → Except Bytes (Option (Bytes × α))) :
    List Json → List (Bytes × α) × Except Bytes Bool
  | [] => ([], .ok true)
  | entry :: rest =>
    match read entry with
    | .error e => ([], .error e)
    | .ok none => ([], .ok false)
    | .ok (some a) => (a :: (takeEach read rest).1, (takeEach read rest).2)

-- A member that may be missing has no entries then.
def entriesOf (node : Json) (key : Bytes) : List Json := ((node.find key).map Json.items).getD []

def takeFragments (node : Json) : List (Bytes × Fragments) × Except Bytes Bool :=
  takeEach readFragment (entriesOf node (ascii "fragments"))

def takeEnv (node : Json) : List (Bytes × Bytes) × Except Bytes Bool :=
  takeEach readEnv (entriesOf node (ascii "env"))

namespace Told

def repo : Option Bytes × Option Bytes × Option Bool → Option (RepoInfo × Option Bool)
  | (some url, some branch, shallow) => some (⟨url, branch⟩, shallow)
  | _ => none

def clang : ClangSupport × Bool → Option ClangSupport
  | (support, true) => some support
  | _ => none

def anyKernel (node : Json) : Option AnyKernelTold :=
  if node.contains (ascii "anykernel") then
    match readEnabled node with
    | .ok (some false) => some .disabled
    | .ok (some true) =>
      match readLocation node with
      | .ok (some location) => some (.enabled location)
      | _ => none
    | _ => none
  else some .absent

def defconfig (node : Json) : Option Defconfig :=
  match readScheme node, hasDevices node, takeDevices node with
  | .ok (some scheme), true, (devices, .ok ()) => some ⟨scheme, devices⟩
  | _, _, _ => none

def entries {α : Type} : List α × Except Bytes Bool → Option (List α)
  | (l, .ok true) => some l
  | _ => none

end Told

-- What a reading that does not throw tells.
def tell {α β : Type} (told : α → Option β) : Except Bytes α → Option β
  | .ok a => told a
  | .error _ => none

def contentOf (node : Json) : Option Content := do
  let name ← tell id (readName node)
  let repo ← tell Told.repo (readRepo node)
  let arch ← tell id (readArch node)
  let type ← tell id (readType node)
  let support ← tell Told.clang (readClang node)
  let anyKernel ← Told.anyKernel node
  let defconfig ← Told.defconfig node
  let fragments ← Told.entries (takeFragments node)
  let env ← Told.entries (takeEnv node)
  return ⟨name, repo, arch, type, support, anyKernel, defconfig, fragments, env⟩

-- What a part that succeeds writes.
namespace Load

def name (s : Bytes) (c : KernelConfig) : KernelConfig :=
  { c with name := s, underscoredName := underscored s }

def repo (told : RepoInfo × Option Bool) (c : KernelConfig) : KernelConfig :=
  { c with repoInfo := told.1, shallowClone := told.2.getD c.shallowClone }

def arch (a : Arch) (c : KernelConfig) : KernelConfig := { c with arch := a }

def type (t : KernelType) (c : KernelConfig) : KernelConfig := { c with type := t }

def clang (support : ClangSupport) (c : KernelConfig) : KernelConfig := { c with clang := support }

def anyKernel (told : AnyKernelTold) (c : KernelConfig) : KernelConfig :=
  { c with anyKernel := told.onto c.anyKernel }

def defconfig (d : Defconfig) (c : KernelConfig) : KernelConfig :=
  { c with defconfig := ⟨d.scheme, c.defconfig.devices ++ d.devices⟩ }

def fragments (l : List (Bytes × Fragments)) (c : KernelConfig) : KernelConfig :=
  { c with fragments := c.fragments.insertAll l }

def env (l : List (Bytes × Bytes)) (c : KernelConfig) : KernelConfig :=
  { c with envMap := c.envMap.insertAll l }

end Load

def Content.load (content : Content) (c : KernelConfig) : KernelConfig :=
  Load.env content.env <| Load.fragments content.fragments <| Load.defconfig content.defconfig <|
    Load.anyKernel content.anyKernel <| Load.clang content.clangSupport <|
    Load.type content.type <| Load.arch content.arch <| Load.repo content.repo <|
    Load.name content.name c

-- A part that reads all it needs before it writes.
def readThenWrite {α : Type} (read : Except Bytes α) (good : α → Bool)
    (write : α → KernelConfig → KernelConfig) (c : KernelConfig) : Except Bytes Bool × KernelConfig :=
  match read with
  | .error e => (.error e, c)
  | .ok a => (.ok (good a), write a c)

section Runs

variable {node : Json} {c : KernelConfig}

theorem bind_ok {α β : Type} (a : α) (load : α → Loader β) (c : KernelConfig) :
    ((Except.ok a : Except Bytes α) >>= load : Loader β) c = load a c :=
  rfl

theorem parseName_run : parseName node c =
    readThenWrite (readName node) Option.isSome (fun s c => Load.name (s.getD c.name) c) c := by
  unfold parseName readName
  cases get node (ascii "name") Json.getString with
  | error e | ok s => rfl

theorem parseRepoInfo_run : parseRepoInfo node c =
    readThenWrite (readRepo node) (fun a => a.1.isSome && a.2.1.isSome)
      (fun a => Load.repo (⟨a.1.getD [], a.2.1.getD []⟩, a.2.2)) c := by
  unfold parseRepoInfo readRepo
  cases getIn node (ascii "repo") (ascii "url") Json.getString with
  | error e => rfl
  | ok url =>
    cases getIn node (ascii "repo") (ascii "branch") Json.getString with
    | error e => rfl
    | ok branch =>
      cases getIn node (ascii "repo") (ascii "shallow") Json.getBool with
      | error e | ok shallow => rfl

theorem Arch.ofText_nil : Arch.ofText [] = none := by decide

theorem KernelType.ofText_nil : KernelType.ofText [] = none := by decide

theorem parseArch_run : parseArch node c =
    readThenWrite (readArch node) Option.isSome (fun a c => Load.arch (a.getD c.arch) c) c := by
  unfold parseArch readArch
  cases get node (ascii "arch") Json.getString with
  | error e => rfl
  | ok s =>
    rw [bind_ok]
    cases hs : Arch.ofText (s.getD []) with
    | none => simp only [Except.map, hs]; rfl
    | some a =>
      cases s with
      | none => cases Arch.ofText_nil.symm.trans hs
      | some s => simp only [Except.map, hs]; rfl

theorem parseType_run : parseType node c =
    readThenWrite (readType node) Option.isSome (fun t c => Load.type (t.getD c.type) c) c := by
  unfold parseType readType
  cases get node (ascii "type") Json.getString with
  | error e => rfl
  | ok s =>
    rw [bind_ok]
    cases hs : KernelType.ofText (s.getD []) with
    | none => simp only [Except.map, hs]; rfl
    | some t =>
      cases s with
      | none => cases KernelType.ofText_nil.symm.trans hs
      | some s => simp only [Except.map, hs]; rfl

theorem parseClangSupport_run : parseClangSupport node c =
    readThenWrite (readClang node) Prod.snd (fun a => Load.clang a.1) c := by
  unfold parseClangSupport
  cases readClang node with
  | error e | ok support => rfl

-- A flag that is missing keeps the value that the object has.
theorem parseAnyKernel_run : parseAnyKernel node c =
    if node.contains (ascii "anykernel") then
      match readEnabled node with
      | .error e => (.error e, c)
      | .ok enabled =>
        if enabled.getD c.anyKernel.enabled then
          match readLocation node with
          | .error e => (.error e, { c with anyKernel.enabled := true })
          | .ok location => (.ok (enabled.isSome && location.isSome),
              { c with anyKernel := ⟨true, location.getD c.anyKernel.relativeDirectory⟩ })
        else (.ok enabled.isSome, { c with anyKernel.enabled := false })
    else (.ok true, c) := by
  unfold parseAnyKernel
  cases node.contains (ascii "anykernel") with
  | false => rfl
  | true =>
    unfold readEnabled readLocation
    cases getIn node (ascii "anykernel") (ascii "enabled") Json.getBool with
    | error e => rfl
    | ok enabled =>
      show (if enabled.getD c.anyKernel.enabled = true then _ else _ : Loader Bool)
        { c with anyKernel.enabled := enabled.getD c.anyKernel.enabled } = _
      cases henabled : enabled.getD c.anyKernel.enabled with
      | false => simp [henabled]; rfl
      | true =>
        simp only [henabled, if_true]
        cases getIn node (ascii "anykernel") (ascii "location") Json.getString with
        | error e | ok location => rfl

theorem parseDefconfig_run : parseDefconfig node c = match readScheme node with
    | .error e => (.error e, c)
    | .ok scheme =>
      ((takeDevices node).2.map fun _ => scheme.isSome && hasDevices node,
        Load.defconfig ⟨scheme.getD c.defconfig.scheme, (takeDevices node).1⟩ c) := by
  unfold parseDefconfig readScheme takeDevices hasDevices
  cases getIn node (ascii "defconfig") (ascii "scheme") Json.getString with
  | error e => rfl
  | ok scheme =>
    cases (node.find (ascii "defconfig")).bind (·.find (ascii "devices")) with
    | none => simp [Load.defconfig, takeStrings, Except.map]; rfl
    | some value =>
      cases hlast : (takeStrings value.items).2 with
      | error e | ok u => simp [Load.defconfig, Except.map, hlast]; rfl

theorem parseEach_run {α : Type} {read : Json → Except Bytes (Option (Bytes × α))}
    {store : Bytes → α → KernelConfig → KernelConfig} (l : List Json) (c : KernelConfig) :
    parseEach read store l c =
      ((takeEach read l).2, (takeEach read l).1.foldl (fun c p => store p.1 p.2 c) c) := by
  induction l generalizing c with
  | nil => rfl
  | cons entry rest ih =>
    unfold parseEach takeEach
    cases read entry with
    | error e => rfl
    | ok o =>
      cases o with
      | none => rfl
      | some a => exact ih (store a.1 a.2 c)

theorem foldl_fragments (l : List (Bytes × Fragments)) (c : KernelConfig) :
    l.foldl (fun c p => { c with fragments := c.fragments.insert p.1 p.2 }) c =
      Load.fragments l c := by
  induction l generalizing c with
  | nil => rfl
  | cons p rest ih => exact ih _

theorem foldl_env (l : List (Bytes × Bytes)) (c : KernelConfig) :
    l.foldl (fun c p => { c with envMap := c.envMap.insert p.1 p.2 }) c = Load.env l c := by
  induction l generalizing c with
  | nil => rfl
  | cons p rest ih => exact ih _

theorem parseFragments_run : parseFragments node c =
    ((takeFragments node).2, Load.fragments (takeFragments node).1 c) := by
  unfold parseFragments takeFragments entriesOf
  cases node.find (ascii "fragments") with
  | none => rfl
  | some value => exact (parseEach_run _ c).trans (congrArg _ (foldl_fragments _ c))

theorem parseEnvMap_run : parseEnvMap node c = ((takeEnv node).2, Load.env (takeEnv node).1 c) := by
  unfold parseEnvMap takeEnv entriesOf
  cases node.find (ascii "env") with
  | none => rfl
  | some value => exact (parseEach_run _ c).trans (congrArg _ (foldl_env _ c))

end Runs

-- A part succeeds when it is told all it needs, and then writes what it is told.
structure Understood {α : Type} (part : Json → Loader Bool) (told : Json → Option α)
    (load : α → KernelConfig → KernelConfig) : Prop where
  loads : ∀ node a c, told node = some a → part node c = (.ok true, load a c)
  tells : ∀ node c, (part node c).1 = .ok true → ∃ a, told node = some a

section Understood

theorem tell_eq_some {α β : Type} {told : α → Option β} {x : Except Bytes α} {b : β} :
    tell told x = some b ↔ ∃ a, x = .ok a ∧ told a = some b := by
  cases x with
  | error e | ok a => simp [tell]

theorem understood_of_run {α β : Type} {part : Json → Loader Bool} {read : Json → Except Bytes α}
    {told : α → Option β} {good : α → Bool} {write : α → KernelConfig → KernelConfig}
    {load : β → KernelConfig → KernelConfig}
    (hrun : ∀ node c, part node c = readThenWrite (read node) good write c)
    (hgood : ∀ a, good a = true ↔ ∃ b, told a = some b)
    (hload : ∀ a b, told a = some b → write a = load b) :
    Understood part (fun node => tell told (read node)) load where
  loads := by
    intro node b c h
    obtain ⟨a, hread, htold⟩ := tell_eq_some.mp h
    rw [hrun, hread, ← hload a b htold]
    exact Prod.ext (congrArg Except.ok ((hgood a).mpr ⟨b, htold⟩)) rfl
  tells := by
    intro node c h
    rw [hrun] at h
    cases hread : read node with
    | error e => rw [hread] at h; cases h
    | ok a =>
      rw [hread] at h
      obtain ⟨b, htold⟩ := (hgood a).mp (Except.ok.inj h)
      exact ⟨b, htold⟩

theorem understood_name : Understood parseName (fun node => tell id (readName node)) Load.name :=
  understood_of_run (fun _ _ => parseName_run) (fun _ => Option.isSome_iff_exists) fun s b h => by
      obtain rfl : s = some b := h
      rfl

theorem understood_repo :
    Understood parseRepoInfo (fun node => tell Told.repo (readRepo node)) Load.repo :=
  understood_of_run (fun _ _ => parseRepoInfo_run)
    (fun ⟨url, branch, shallow⟩ => by cases url <;> cases branch <;> simp [Told.repo])
    fun ⟨url, branch, shallow⟩ b h => by
      cases url with
      | none => cases h
      | some url =>
        cases branch with
        | none => cases h
        | some branch =>
          obtain rfl := Option.some.inj h
          rfl

theorem understood_arch : Understood parseArch (fun node => tell id (readArch node)) Load.arch :=
  understood_of_run (fun _ _ => parseArch_run) (fun _ => Option.isSome_iff_exists) fun a b h => by
      obtain rfl : a = some b := h
      rfl

theorem understood_type : Understood parseType (fun node => tell id (readType node)) Load.type :=
  understood_of_run (fun _ _ => parseType_run) (fun _ => Option.isSome_iff_exists) fun t b h => by
      obtain rfl : t = some b := h
      rfl

theorem understood_clang :
    Understood parseClangSupport (fun node => tell Told.clang (readClang node)) Load.clang :=
  understood_of_run (fun _ _ => parseClangSupport_run)
    (fun ⟨support, good⟩ => by cases good <;> simp [Told.clang])
    fun ⟨support, good⟩ b h => by
      cases good with
      | false => cases h
      | true =>
        obtain rfl := Option.some.inj h
        rfl

theorem understood_anyKernel : Understood parseAnyKernel Told.anyKernel Load.anyKernel where
  loads := by
    intro node told c h
    rw [parseAnyKernel_run]
    unfold Told.anyKernel at h
    split at h
    · next hcontains =>
      rw [if_pos hcontains]
      split at h
      · next henabled =>
        obtain rfl := Option.some.inj h
        rw [henabled]
        rfl
      · next henabled =>
        rw [henabled]
        split at h
        · next location hlocation =>
          obtain rfl := Option.some.inj h
          rw [hlocation]
          rfl
        · cases h
      · cases h
    · next hcontains =>
      obtain rfl := Option.some.inj h
      rw [if_neg hcontains]
      rfl
  tells := by
    intro node c h
    rw [parseAnyKernel_run] at h
    unfold Told.anyKernel
    by_cases hcontains : node.contains (ascii "anykernel") = true
    · rw [if_pos hcontains] at h ⊢
      cases henabled : readEnabled node with
      | error e => rw [henabled] at h; cases h
      | ok enabled =>
        rw [henabled] at h
        cases enabled with
        | none =>
          simp only at h
          split at h
          · cases hlocation : readLocation node with
            | error e | ok location => rw [hlocation] at h; cases h
          · cases h
        | some enabled =>
          cases enabled with
          | false => exact ⟨_, rfl⟩
          | true =>
            cases hlocation : readLocation node with
            | error e => rw [hlocation] at h; cases h
            | ok location =>
              rw [hlocation] at h
              cases location with
              | none => cases h
              | some location => exact ⟨_, rfl⟩
    · rw [if_neg hcontains]
      exact ⟨_, rfl⟩

theorem understood_defconfig : Understood parseDefconfig Told.defconfig Load.defconfig where
  loads := by
    intro node d c h
    rw [parseDefconfig_run]
    unfold Told.defconfig at h
    split at h
    · next scheme devices hscheme hdevices htaken =>
      obtain rfl := Option.some.inj h
      rw [hscheme, hdevices, htaken]
      rfl
    · cases h
  tells := by
    intro node c h
    rw [parseDefconfig_run] at h
    unfold Told.defconfig
    cases hscheme : readScheme node with
    | error e => rw [hscheme] at h; cases h
    | ok scheme =>
      rw [hscheme] at h
      rcases htaken : takeDevices node with ⟨devices, last⟩
      cases last with
      | error e => simp [htaken, Except.map] at h
      | ok u =>
        simp only [htaken, Except.map, Except.ok.injEq, Bool.and_eq_true] at h
        obtain ⟨scheme, rfl⟩ := Option.isSome_iff_exists.mp h.1
        rw [h.2]
        exact ⟨_, rfl⟩

theorem entries_eq_some {α : Type} {taken : List α × Except Bytes Bool} {l : List α} :
    Told.entries taken = some l ↔ taken = (l, .ok true) := by
  obtain ⟨l', last⟩ := taken
  cases last with
  | error e => simp [Told.entries]
  | ok good => cases good <;> simp [Told.entries]

-- For a part that stores one entry after the other.
theorem understood_of_taken {α : Type} {part : Json → Loader Bool}
    {take : Json → List α × Except Bytes Bool} {load : List α → KernelConfig → KernelConfig}
    (hrun : ∀ node c, part node c = ((take node).2, load (take node).1 c)) :
    Understood part (fun node => Told.entries (take node)) load where
  loads := by
    intro node l c h
    rw [hrun, entries_eq_some.mp h]
  tells := by
    intro node c h
    rw [hrun] at h
    exact ⟨_, entries_eq_some.mpr (Prod.ext rfl h)⟩

theorem understood_fragments :
    Understood parseFragments (fun node => Told.entries (takeFragments node)) Load.fragments :=
  understood_of_taken fun _ _ => parseFragments_run

theorem understood_env : Understood parseEnvMap (fun node => Told.entries (takeEnv node)) Load.env :=
  understood_of_taken fun _ _ => parseEnvMap_run

end Understood

theorem bind_run {α β : Type} {x : Loader α} {f : α → Loader β} {c : KernelConfig} :
    (x >>= f) c = match x c with
      | (.error e, c') => (.error e, c')
      | (.ok a, c') => f a c' := by
  show ExceptT.bindCont f (x c).1 (x c).2 = _
  rcases x c with ⟨answer, c'⟩
  cases answer with
  | error e | ok a => rfl

section RunParts

variable {node : Json} {part : Json → Loader Bool} {rest : List (Json → Loader Bool)}
  {c c' : KernelConfig}

theorem runParts_error {e : Bytes} (h : part node c = (.error e, c')) :
    runParts node (part :: rest) c = (.error e, c') := by
  rw [runParts, bind_run, h]

theorem runParts_ok {good : Bool} (h : part node c = (.ok good, c')) :
    runParts node (part :: rest) c =
      ((runParts node rest c').1.map (good && ·), (runParts node rest c').2) := by
  rw [runParts, bind_run, h]
  show (runParts node rest >>= _ : Loader Bool) c' = _
  rw [bind_run]
  rcases runParts node rest c' with ⟨answer, c''⟩
  cases answer with
  | error e | ok others => rfl

theorem runParts_true (h : part node c = (.ok true, c')) :
    runParts node (part :: rest) c = runParts node rest c' := by
  rw [runParts_ok h]
  rcases runParts node rest c' with ⟨answer, c''⟩
  cases answer with
  | error e | ok others => rfl

theorem of_runParts (h : (runParts node (part :: rest) c).1 = .ok true) :
    (part node c).1 = .ok true ∧ ∃ c', (runParts node rest c').1 = .ok true := by
  rcases hpart : part node c with ⟨answer, c'⟩
  cases answer with
  | error e =>
    rw [runParts_error hpart] at h
    cases h
  | ok good =>
    rw [runParts_ok hpart] at h
    cases hrest : (runParts node rest c').1 with
    | error e =>
      rw [hrest] at h
      cases h
    | ok others =>
      rw [hrest] at h
      obtain ⟨rfl, rfl⟩ := Bool.and_eq_true_iff.mp (Except.ok.inj h)
      exact ⟨rfl, c', hrest⟩

end RunParts

-- All parts succeed just when there is a content, and they load it into any object.
theorem runParts_of_contentOf {node : Json} {content : Content} (h : contentOf node = some content)
    (c : KernelConfig) : runParts node parts c = (.ok true, content.load c) := by
  simp only [contentOf, bind, Option.bind_eq_some_iff] at h
  obtain ⟨name, hname, repo, hrepo, arch, harch, type, htype, support, hsupport, anyKernel,
    hanyKernel, defconfig, hdefconfig, fragments, hfragments, env, henv, h⟩ := h
  obtain rfl := Option.some.inj h
  rw [parts, runParts_true (understood_name.loads _ _ _ hname),
    runParts_true (understood_repo.loads _ _ _ hrepo),
    runParts_true (understood_arch.loads _ _ _ harch),
    runParts_true (understood_type.loads _ _ _ htype),
    runParts_true (understood_clang.loads _ _ _ hsupport),
    runParts_true (understood_anyKernel.loads _ _ _ hanyKernel),
    runParts_true (understood_defconfig.loads _ _ _ hdefconfig),
    runParts_true (understood_fragments.loads _ _ _ hfragments),
    runParts_true (understood_env.loads _ _ _ henv)]
  rfl

theorem contentOf_of_runParts {node : Json} {c : KernelConfig}
    (h : (runParts node parts c).1 = .ok true) : ∃ content, contentOf node = some content := by
  rw [parts] at h
  obtain ⟨hname, _, h⟩ := of_runParts h
  obtain ⟨hrepo, _, h⟩ := of_runParts h
  obtain ⟨harch, _, h⟩ := of_runParts h
  obtain ⟨htype, _, h⟩ := of_runParts h
  obtain ⟨hsupport, _, h⟩ := of_runParts h
  obtain ⟨hanyKernel, _, h⟩ := of_runParts h
  obtain ⟨hdefconfig, _, h⟩ := of_runParts h
  obtain ⟨hfragments, _, h⟩ := of_runParts h
  obtain ⟨henv, -⟩ := of_runParts h
  obtain ⟨name, hname⟩ := understood_name.tells _ _ hname
  obtain ⟨repo, hrepo⟩ := understood_repo.tells _ _ hrepo
  obtain ⟨arch, harch⟩ := understood_arch.tells _ _ harch
  obtain ⟨type, htype⟩ := understood_type.tells _ _ htype
  obtain ⟨support, hsupport⟩ := understood_clang.tells _ _ hsupport
  obtain ⟨anyKernel, hanyKernel⟩ := understood_anyKernel.tells _ _ hanyKernel
  obtain ⟨defconfig, hdefconfig⟩ := understood_defconfig.tells _ _ hdefconfig
  obtain ⟨fragments, hfragments⟩ := understood_fragments.tells _ _ hfragments
  obtain ⟨env, henv⟩ := understood_env.tells _ _ henv
  simp only [contentOf, bind, hname, hrepo, harch, htype, hsupport, hanyKernel, hdefconfig,
    hfragments, henv, Option.bind_some]
  exact ⟨_, rfl⟩

theorem parse_run {node : Json} {c : KernelConfig} : parse node c =
    match runParts node parts c with
    | (.ok true, c') => (.ok !hasDependencyLoop c'.fragments, c')
    | (answer, c') => (answer, c') := by
  rw [parse, bind_run]
  rcases runParts node parts c with ⟨answer, c'⟩
  cases answer with
  | error e => rfl
  | ok good =>
    cases good with
    | false | true => rfl

theorem parse_of_contentOf {node : Json} {content : Content} (h : contentOf node = some content)
    (c : KernelConfig) :
    parse node c = (.ok !hasDependencyLoop (content.load c).fragments, content.load c) := by
  rw [parse_run, runParts_of_contentOf h]

theorem contentOf_of_parse {node : Json} {c : KernelConfig} (h : (parse node c).1 = .ok true) :
    ∃ content, contentOf node = some content := by
  rw [parse_run] at h
  split at h
  · next hparts => exact contentOf_of_runParts (congrArg Prod.fst hparts)
  · next answer c' hnot hparts =>
    obtain rfl : answer = .ok true := h
    exact (hnot rfl).elim

end Glider.ConfigParsers

import Glider.ConfigParsers.Content

namespace Glider.ConfigParsers

open Glider.Lib
open Bytes (ascii)

-- Two objects whose members are equal; a map is what it holds, in any order.
structure Same (c c' : KernelConfig) : Prop where
  name : c.name = c'.name
  underscoredName : c.underscoredName = c'.underscoredName
  repoInfo : c.repoInfo = c'.repoInfo
  shallowClone : c.shallowClone = c'.shallowClone
  arch : c.arch = c'.arch
  type : c.type = c'.type
  clang : c.clang = c'.clang
  anyKernel : c.anyKernel = c'.anyKernel
  defconfig : c.defconfig = c'.defconfig
  fragments : ∀ name, c.fragments.find? name = c'.fragments.find? name
  envMap : ∀ key, c.envMap.find? key = c'.envMap.find? key

theorem Same.refl (c : KernelConfig) : Same c c :=
  ⟨rfl, rfl, rfl, rfl, rfl, rfl, rfl, rfl, rfl, fun _ => rfl, fun _ => rfl⟩

-- What the object must be for an accepted content to give what it gives to a fresh one.
structure Takes (content : Content) (c : KernelConfig) : Prop where
  shallow : content.repo.2 = none → c.shallowClone = false
  anyKernel : match content.anyKernel with
    | .absent => c.anyKernel = ⟨false, []⟩
    | .disabled => c.anyKernel.relativeDirectory = []
    | .enabled _ => True
  devices : c.defconfig.devices = []
  fragments : ∀ name ∈ c.fragments.keys, name ∈ content.fragments.map Prod.fst
  env : ∀ key ∈ c.envMap.keys, key ∈ content.env.map Prod.fst

theorem find?_insertAll_of_keys {α : Type} {m : Assoc Bytes α} {l : List (Bytes × α)}
    (h : ∀ k ∈ m.keys, k ∈ l.map Prod.fst) (k : Bytes) :
    (m.insertAll l).find? k = ((Assoc.empty : Assoc Bytes α).insertAll l).find? k := by
  rw [Assoc.find?_insertAll, Assoc.find?_insertAll, Assoc.find?_empty]
  cases hlast : Assoc.last? l k with
  | some a => rfl
  | none =>
    cases hfind : m.find? k with
    | none => rfl
    | some a =>
      obtain ⟨a', ha'⟩ := Assoc.exists_last? (h k (Assoc.mem_keys.mpr ⟨a, hfind⟩))
      rw [hlast] at ha'
      cases ha'

theorem Takes.same_load {content : Content} {c : KernelConfig} (h : Takes content c) :
    Same (content.load c) (content.load .initial) where
  name := rfl
  underscoredName := rfl
  repoInfo := rfl
  shallowClone := by
    show content.repo.2.getD c.shallowClone = content.repo.2.getD false
    cases hshallow : content.repo.2 with
    | none => exact h.shallow hshallow
    | some shallow => rfl
  arch := rfl
  type := rfl
  clang := rfl
  anyKernel := by
    show content.anyKernel.onto c.anyKernel = content.anyKernel.onto ⟨false, []⟩
    have h := h.anyKernel
    cases hanyKernel : content.anyKernel with
    | absent => rwa [hanyKernel] at h
    | disabled =>
      rw [hanyKernel] at h
      exact congrArg (AnyKernel.mk false) h
    | enabled location => rfl
  defconfig := by
    show Defconfig.mk content.defconfig.scheme (c.defconfig.devices ++ _) = ⟨_, [] ++ _⟩
    rw [h.devices]
  fragments := find?_insertAll_of_keys h.fragments
  envMap := find?_insertAll_of_keys h.env

-- What one part of the parser reads, against what the object has: whether it changes nothing, and
-- whether it throws.
structure Reading where
  keeps : KernelConfig → Prop
  stops : KernelConfig → Prop

def Throws {α : Type} (x : Except Bytes α) : Prop := ∃ e, x = .error e

def Holds {α : Type} (m : Assoc Bytes α) (l : List (Bytes × α)) : Prop :=
  ∀ key a, Assoc.last? l key = some a → m.find? key = some a

namespace Reading

variable (node : Json)

def name : Reading where
  keeps c := ∀ s, readName node = .ok (some s) → c.name = s
  stops _ := Throws (readName node)

-- A missing text is written as an empty one.
def repo : Reading where
  keeps c := ∀ url branch shallow, readRepo node = .ok (url, branch, shallow) →
    c.repoInfo = ⟨url.getD [], branch.getD []⟩ ∧ ∀ b, shallow = some b → c.shallowClone = b
  stops _ := Throws (readRepo node)

def arch : Reading where
  keeps c := ∀ a, readArch node = .ok (some a) → c.arch = a
  stops _ := Throws (readArch node)

def type : Reading where
  keeps c := ∀ t, readType node = .ok (some t) → c.type = t
  stops _ := Throws (readType node)

def clang : Reading where
  keeps c := ∀ support, readClang node = .ok support → c.clang = support.1
  stops _ := Throws (readClang node)

def anyKernel : Reading where
  keeps c := (∀ b, readEnabled node = .ok (some b) → c.anyKernel.enabled = b) ∧
    (¬Throws (readEnabled node) → c.anyKernel.enabled = true →
      ∀ location, readLocation node = .ok (some location) →
        c.anyKernel.relativeDirectory = location)
  stops c := node.contains (ascii "anykernel") = true ∧ (Throws (readEnabled node) ∨
    c.anyKernel.enabled = true ∧ Throws (readLocation node))

-- Any device that is read is one more.
def defconfig : Reading where
  keeps c := (∀ s, readScheme node = .ok (some s) → c.defconfig.scheme = s) ∧
    (¬Throws (readScheme node) → (takeDevices node).1 = [])
  stops _ := Throws (readScheme node) ∨ Throws (takeDevices node).2

def fragments : Reading where
  keeps c := Holds c.fragments (takeFragments node).1
  stops _ := Throws (takeFragments node).2

def env : Reading where
  keeps c := Holds c.envMap (takeEnv node).1
  stops _ := Throws (takeEnv node).2

def all : List Reading :=
  [name node, repo node, arch node, type node, clang node, anyKernel node, defconfig node,
    fragments node, env node]

end Reading

-- Up to the part that throws, everything that is read is what the object has.
def Keeps (c : KernelConfig) : List Reading → Prop
  | [] => True
  | reading :: rest => reading.keeps c ∧ (¬reading.stops c → Keeps c rest)

-- A part that keeps an object leaves it alone, and throws just when its reading stops.
structure Explains (node : Json) (part : Json → Loader Bool) (reading : Reading) : Prop where
  keeps : ∀ c, c.underscoredName = underscored c.name → reading.keeps c → (part node c).2 = c
  stops : ∀ c, reading.keeps c → (reading.stops c ↔ Throws (part node c).1)

section Explains

variable {node : Json}

theorem explains_of_run {α : Type} {part : Json → Loader Bool} {read : Except Bytes α}
    {good : α → Bool} {write : α → KernelConfig → KernelConfig} {reading : Reading}
    (hrun : ∀ c, part node c = readThenWrite read good write c)
    (hkeeps : ∀ a c, c.underscoredName = underscored c.name → read = .ok a → reading.keeps c →
      write a c = c)
    (hstops : ∀ c, reading.stops c ↔ Throws read) : Explains node part reading where
  keeps := by
    intro c hname hkeep
    rw [hrun]
    cases hread : read with
    | error e => rfl
    | ok a => exact hkeeps a c hname hread hkeep
  stops := by
    intro c _
    rw [hrun, hstops]
    cases read with
    | error e => exact ⟨fun _ => ⟨e, rfl⟩, fun _ => ⟨e, rfl⟩⟩
    | ok a => exact ⟨fun ⟨_, h⟩ => (nomatch h), fun ⟨_, h⟩ => (nomatch h)⟩

theorem name_self {c : KernelConfig} (h : c.underscoredName = underscored c.name) :
    Load.name c.name c = c := by
  rw [Load.name, ← h]

theorem explains_name : Explains node parseName (.name node) :=
  explains_of_run (fun _ => parseName_run)
    (fun s c hname hread hkeep => by
      cases s with
      | none => exact name_self hname
      | some s =>
        obtain rfl := hkeep s hread
        exact name_self hname)
    fun _ => Iff.rfl

theorem explains_repo : Explains node parseRepoInfo (.repo node) :=
  explains_of_run (fun _ => parseRepoInfo_run)
    (fun ⟨url, branch, shallow⟩ c _ hread hkeep => by
      obtain ⟨hrepo, hshallow⟩ := hkeep url branch shallow hread
      show Load.repo (⟨url.getD [], branch.getD []⟩, shallow) c = c
      rw [← hrepo]
      cases shallow with
      | none => rfl
      | some b => rw [Load.repo, Option.getD_some, ← hshallow b rfl])
    fun _ => Iff.rfl

theorem explains_arch : Explains node parseArch (.arch node) :=
  explains_of_run (fun _ => parseArch_run)
    (fun a c _ hread hkeep => by
      cases a with
      | none => rfl
      | some a =>
        obtain rfl := hkeep a hread
        rfl)
    fun _ => Iff.rfl

theorem explains_type : Explains node parseType (.type node) :=
  explains_of_run (fun _ => parseType_run)
    (fun t c _ hread hkeep => by
      cases t with
      | none => rfl
      | some t =>
        obtain rfl := hkeep t hread
        rfl)
    fun _ => Iff.rfl

theorem explains_clang : Explains node parseClangSupport (.clang node) :=
  explains_of_run (fun _ => parseClangSupport_run)
    (fun support c _ hread hkeep => by
      show Load.clang support.1 c = c
      rw [← hkeep support hread]
      rfl)
    fun _ => Iff.rfl

theorem not_throws_ok {α : Type} {a : α} : ¬Throws (.ok a : Except Bytes α) :=
  fun ⟨_, h⟩ => nomatch h

theorem throws_error {α : Type} {e : Bytes} : Throws (.error e : Except Bytes α) := ⟨e, rfl⟩

theorem explains_anyKernel : Explains node parseAnyKernel (.anyKernel node) where
  keeps := by
    rintro c - ⟨henabled, hlocation⟩
    rw [parseAnyKernel_run]
    split
    · cases hread : readEnabled node with
      | error e => rfl
      | ok enabled =>
        have hsame : enabled.getD c.anyKernel.enabled = c.anyKernel.enabled := by
          cases enabled with
          | none => rfl
          | some b => exact (henabled b hread).symm
        show Prod.snd (α := Except Bytes Bool)
          (if enabled.getD c.anyKernel.enabled = true then _ else _) = c
        rw [hsame]
        split
        · next hon =>
          cases hplace : readLocation node with
          | error e => show { c with anyKernel := ⟨true, _⟩ } = c; rw [← hon]
          | ok location =>
            have hdir : location.getD c.anyKernel.relativeDirectory =
                c.anyKernel.relativeDirectory := by
              cases location with
              | none => rfl
              | some dir => exact (hlocation (hread ▸ not_throws_ok) hon dir hplace).symm
            show { c with anyKernel := ⟨true, _⟩ } = c
            rw [hdir, ← hon]
        · next hoff =>
          show { c with anyKernel := ⟨false, _⟩ } = c
          rw [← eq_false_of_ne_true hoff]
    · rfl
  stops := by
    rintro c ⟨henabled, hlocation⟩
    rw [parseAnyKernel_run]
    show _ ∧ (Throws (readEnabled node) ∨ _ ∧ Throws (readLocation node)) ↔ _
    by_cases hcontains : node.contains (ascii "anykernel") = true
    · rw [if_pos hcontains]
      cases hread : readEnabled node with
      | error e => exact ⟨fun _ => throws_error, fun _ => ⟨hcontains, .inl throws_error⟩⟩
      | ok enabled =>
        have hsame : enabled.getD c.anyKernel.enabled = c.anyKernel.enabled := by
          cases enabled with
          | none => rfl
          | some b => exact (henabled b hread).symm
        show _ ↔ Throws (Prod.fst (β := KernelConfig)
          (if enabled.getD c.anyKernel.enabled = true then _ else _))
        rw [hsame]
        cases hon : c.anyKernel.enabled with
        | false => simp [not_throws_ok]
        | true =>
          cases readLocation node with
          | error e => simp [hcontains, throws_error]
          | ok location => simp [not_throws_ok]
    · simp [hcontains, not_throws_ok]

theorem explains_defconfig : Explains node parseDefconfig (.defconfig node) where
  keeps := by
    rintro c - ⟨hscheme, hdevices⟩
    rw [parseDefconfig_run]
    cases hread : readScheme node with
    | error e => rfl
    | ok scheme =>
      have hsame : scheme.getD c.defconfig.scheme = c.defconfig.scheme := by
        cases scheme with
        | none => rfl
        | some s => exact (hscheme s hread).symm
      show Load.defconfig ⟨_, _⟩ c = c
      rw [hsame, hdevices (hread ▸ not_throws_ok), Load.defconfig, List.append_nil]
  stops := by
    intro c _
    rw [parseDefconfig_run]
    show Throws (readScheme node) ∨ Throws (takeDevices node).2 ↔ _
    cases readScheme node with
    | error e => exact ⟨fun _ => throws_error, fun _ => .inl throws_error⟩
    | ok scheme =>
      show _ ↔ Throws ((takeDevices node).2.map _)
      cases (takeDevices node).2 with
      | error e => exact ⟨fun _ => throws_error, fun _ => .inr throws_error⟩
      | ok u => simp [not_throws_ok, Except.map]

theorem explains_fragments : Explains node parseFragments (.fragments node) where
  keeps := by
    intro c _ hkeep
    rw [parseFragments_run]
    show Load.fragments _ c = c
    rw [Load.fragments, Assoc.insertAll_eq_self hkeep]
  stops := by
    intro c _
    rw [parseFragments_run]
    exact Iff.rfl

theorem explains_env : Explains node parseEnvMap (.env node) where
  keeps := by
    intro c _ hkeep
    rw [parseEnvMap_run]
    show Load.env _ c = c
    rw [Load.env, Assoc.insertAll_eq_self hkeep]
  stops := by
    intro c _
    rw [parseEnvMap_run]
    exact Iff.rfl

theorem explains_parts (node : Json) : List.Forall₂ (Explains node) parts (Reading.all node) :=
  .cons explains_name <| .cons explains_repo <| .cons explains_arch <| .cons explains_type <|
    .cons explains_clang <| .cons explains_anyKernel <| .cons explains_defconfig <|
    .cons explains_fragments <| .cons explains_env .nil

theorem runParts_keeps {l : List (Json → Loader Bool)} {readings : List Reading}
    (h : List.Forall₂ (Explains node) l readings) {c : KernelConfig}
    (hname : c.underscoredName = underscored c.name) (hkeeps : Keeps c readings) :
    (runParts node l c).2 = c := by
  induction h with
  | nil => rfl
  | @cons part reading l readings hpart _ ih =>
    have hself := hpart.keeps c hname hkeeps.1
    rcases hrun : part node c with ⟨answer, c'⟩
    obtain rfl : c' = c := by rw [← hself, hrun]
    cases answer with
    | error e => rw [runParts_error hrun]
    | ok good =>
      rw [runParts_ok hrun]
      refine ih (hkeeps.2 fun hstops => ?_)
      have hthrows := (hpart.stops c' hkeeps.1).mp hstops
      rw [hrun] at hthrows
      exact not_throws_ok hthrows

theorem parse_keeps {c : KernelConfig} (hname : c.underscoredName = underscored c.name)
    (hkeeps : Keeps c (Reading.all node)) : (parse node c).2 = c := by
  have hparts := runParts_keeps (explains_parts node) hname hkeeps
  rw [parse_run]
  split
  · next hrun => rwa [hrun] at hparts
  · next hrun => rwa [hrun] at hparts

end Explains

end Glider.ConfigParsers

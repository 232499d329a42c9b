import Glider.Lib.Lookup
import Glider.RomBuild.Domain

namespace Glider.RomConfig

open Glider.Lib
open Glider.RomBuild (RomArtifactMatcher CloneMapping)

-- What `regex::Regex::new` and the constructor of `std::regex` make of an expression.
abbrev Regex := String → Except String Pattern

-- `V` is the type of the Android versions.
variable {V : Type}

structure ROMArtifactEntry where
  matcher : RomArtifactMatcher
  data : String

structure ROMBranchEntry (V : Type) where
  androidVersion : V
  branch : String

structure ROMEntry (V : Type) where
  name : String
  link : String
  target : String
  artifact : ROMArtifactEntry
  branches : List (ROMBranchEntry V)

structure TargetsEntry where
  name : String
  codename : String
  manufacturer : String

structure ManifestBranchesEntry (V : Type) where
  name : String
  targetRom : String
  androidVersion : V
  device : String
  useRegex : Bool

structure ManifestEntry (V : Type) where
  name : String
  url : String
  branches : List (ManifestBranchesEntry V)

structure RecoveryManifestEntry (V : Type) where
  name : String
  cloneMappings : List CloneMapping
  androidVersion : V
  targetRecovery : String
  device : String
  useRegex : Bool

structure ROMBuildConfig (V : Type) where
  roms : List (ROMEntry V)
  recoveries : List (ROMEntry V)
  targets : List TargetsEntry
  manifests : List (ManifestEntry V)
  recoveryManifests : List (RecoveryManifestEntry V)

-- The message of `ConfigError::Validation`.
abbrev Validation := Except String

def ensureUnique (values : List String) (label : String) : Validation Unit :=
  match firstRepeat [] values with
  | some value => throw s!"duplicate {label}: '{value}'"
  | none => pure ()

-- `unique_named`: the second match decides.
def uniqueNamed (entries : List (ROMEntry V)) (name : String) : Option (ROMEntry V) :=
  match entries.filter (·.name == name) with
  | [entry] => some entry
  | _ => none

section Check

variable [BEq V] [ToString V] (regex : Regex)

-- The checks of a branch and of a recovery manifest, which differ in their texts.
def checkReference (entries : List (ROMEntry V)) (targets : List TargetsEntry) (target : String)
    (androidVersion : V) (device : String) (useRegex : Bool)
    (unknownEntry noBranch unknownTarget : String) (invalidRegex : String → String) :
    Validation Unit :=
  match uniqueNamed entries target with
  | none => throw unknownEntry
  | some entry => do
      if !entry.branches.any (·.androidVersion == androidVersion) then throw noBranch
      if !useRegex && !targets.any (·.codename == device) then throw unknownTarget
      if useRegex then
        match regex device with
        | .ok _ => pure ()
        | .error e => throw (invalidRegex e)

def checkBranch (config : ROMBuildConfig V) (manifest : ManifestEntry V)
    (branch : ManifestBranchesEntry V) : Validation Unit :=
  checkReference regex config.roms config.targets branch.targetRom branch.androidVersion
    branch.device branch.useRegex
    s!"manifest '{manifest.name}' references unknown or duplicate ROM '{branch.targetRom}'"
    (s!"manifest '{manifest.name}' references Android {branch.androidVersion} for ROM " ++
      s!"'{branch.targetRom}', but no matching ROM branch exists")
    s!"manifest '{manifest.name}' references unknown target '{branch.device}'"
    fun e => s!"manifest '{manifest.name}' has invalid device regex '{branch.device}': {e}"

def checkRecovery (config : ROMBuildConfig V) (manifest : RecoveryManifestEntry V) :
    Validation Unit :=
  checkReference regex config.recoveries config.targets manifest.targetRecovery
    manifest.androidVersion manifest.device manifest.useRegex
    (s!"recovery manifest '{manifest.name}' references unknown or duplicate recovery " ++
      s!"'{manifest.targetRecovery}'")
    (s!"recovery manifest '{manifest.name}' references Android {manifest.androidVersion}, but " ++
      s!"recovery '{manifest.targetRecovery}' has no matching branch")
    s!"recovery manifest '{manifest.name}' references unknown target '{manifest.device}'"
    fun e =>
      s!"recovery manifest '{manifest.name}' has invalid device regex '{manifest.device}': {e}"

def validate (config : ROMBuildConfig V) : Validation Unit := do
  if config.targets.isEmpty then throw "targets.json must contain at least one target"
  if config.roms.isEmpty then throw "roms.json must contain at least one ROM"
  ensureUnique (config.targets.map (·.codename)) "target codename"
  ensureUnique (config.roms.map (·.name)) "ROM name"
  ensureUnique (config.recoveries.map (·.name)) "recovery name"
  ensureUnique (config.manifests.map (·.name) ++ config.recoveryManifests.map (·.name))
    "configuration name"
  config.manifests.forM fun manifest => manifest.branches.forM (checkBranch regex config manifest)
  config.recoveryManifests.forM (checkRecovery regex config)

end Check

section Accepted

theorem ensureUnique_eq_ok {values : List String} {label : String} :
    ensureUnique values label = .ok () ↔ values.Nodup := by
  unfold ensureUnique
  split
  · next value hrepeat =>
    refine iff_of_false nofun fun hnodup => ?_
    have hnone : firstRepeat [] values = none := firstRepeat_eq_none.mpr ⟨hnodup, by simp⟩
    cases hrepeat.symm.trans hnone
  · next hnone => exact iff_of_true rfl (firstRepeat_eq_none.mp hnone).1

theorem uniqueNamed_eq_some {entries : List (ROMEntry V)} {name : String} {entry : ROMEntry V} :
    uniqueNamed entries name = some entry ↔ entries.filter (·.name == name) = [entry] := by
  unfold uniqueNamed
  split
  · next other hother => simp [hother]
  · next hnone =>
    refine iff_of_false nofun fun hone => hnone entry hone

variable [BEq V] {regex : Regex}

-- A reference that passes names one entry, which has a branch of the version.
structure Refers (regex : Regex) (entries : List (ROMEntry V)) (targets : List TargetsEntry)
    (target : String) (androidVersion : V) (device : String) (useRegex : Bool) : Prop where
  entry : ∃ entry, entries.filter (·.name == target) = [entry] ∧
    entry.branches.any (·.androidVersion == androidVersion) = true
  known : useRegex = false → ∃ d ∈ targets, d.codename = device
  compiles : useRegex = true → ∃ pattern, regex device = .ok pattern

theorem throw_unless {c : Bool} {text : String} {x : Validation Unit} :
    (do if c then throw text
        x) = .ok () ↔ c = false ∧ x = .ok () := by
  cases c with
  | false => exact ⟨fun h => ⟨rfl, h⟩, fun h => h.2⟩
  | true => exact iff_of_false nofun nofun

theorem checkReference_eq_ok {entries : List (ROMEntry V)} {targets : List TargetsEntry}
    {target : String} {androidVersion : V} {device : String} {useRegex : Bool}
    {unknownEntry noBranch unknownTarget : String} {invalidRegex : String → String} :
    checkReference regex entries targets target androidVersion device useRegex unknownEntry noBranch
        unknownTarget invalidRegex = .ok () ↔
      Refers regex entries targets target androidVersion device useRegex := by
  have hregex : (match regex device with
      | .ok _ => pure ()
      | .error e => throw (invalidRegex e) : Validation Unit) = .ok () ↔
      ∃ pattern, regex device = .ok pattern := by
    cases regex device with
    | ok pattern => simp [pure, Except.pure]
    | error e => simp [throw, throwThe, MonadExceptOf.throw]
  unfold checkReference
  split
  · next hnone =>
    refine iff_of_false nofun fun ⟨⟨entry, hentry, _⟩, _, _⟩ => ?_
    rw [uniqueNamed_eq_some.mpr hentry] at hnone
    cases hnone
  · next entry hentry =>
    rw [uniqueNamed_eq_some] at hentry
    rw [throw_unless, throw_unless]
    constructor
    · rintro ⟨hbranch, htarget, hexpression⟩
      refine ⟨⟨entry, hentry, by simpa using hbranch⟩, fun hplain => ?_, fun huse => ?_⟩
      · simpa [hplain] using htarget
      · rw [if_pos huse] at hexpression
        exact hregex.mp hexpression
    · rintro ⟨⟨other, hother, hbranch⟩, htarget, hexpression⟩
      obtain rfl : entry = other := by simpa [hentry] using hother
      refine ⟨by simpa using hbranch, ?_, ?_⟩
      · cases useRegex with
        | true => rfl
        | false => simpa using htarget rfl
      · split
        · next huse => exact hregex.mpr (hexpression huse)
        · rfl

-- What is known of a configuration that `validate` accepts.
structure Valid (regex : Regex) (config : ROMBuildConfig V) : Prop where
  targets : (config.targets.map (·.codename)).Nodup
  roms : (config.roms.map (·.name)).Nodup
  recoveries : (config.recoveries.map (·.name)).Nodup
  names : (config.manifests.map (·.name) ++ config.recoveryManifests.map (·.name)).Nodup
  branches : ∀ manifest ∈ config.manifests, ∀ branch ∈ manifest.branches,
    Refers regex config.roms config.targets branch.targetRom branch.androidVersion branch.device
      branch.useRegex
  recoveryManifests : ∀ manifest ∈ config.recoveryManifests,
    Refers regex config.recoveries config.targets manifest.targetRecovery manifest.androidVersion
      manifest.device manifest.useRegex

theorem valid_of_validate [ToString V] {config : ROMBuildConfig V}
    (h : validate regex config = .ok ()) : Valid regex config := by
  unfold validate at h
  obtain ⟨-, h⟩ := throw_unless.mp h
  obtain ⟨-, h⟩ := throw_unless.mp h
  obtain ⟨_, htargets, h⟩ := bind_eq_ok.mp h
  obtain ⟨_, hroms, h⟩ := bind_eq_ok.mp h
  obtain ⟨_, hrecoveries, h⟩ := bind_eq_ok.mp h
  obtain ⟨_, hnames, h⟩ := bind_eq_ok.mp h
  obtain ⟨_, hbranches, h⟩ := bind_eq_ok.mp h
  refine ⟨ensureUnique_eq_ok.mp htargets, ensureUnique_eq_ok.mp hroms,
    ensureUnique_eq_ok.mp hrecoveries, ensureUnique_eq_ok.mp hnames, ?_, ?_⟩
  · intro manifest hmanifest branch hbranch
    have hchecked := forM_eq_ok.mp hbranches manifest hmanifest
    exact checkReference_eq_ok.mp (forM_eq_ok.mp hchecked branch hbranch)
  · intro manifest hmanifest
    exact checkReference_eq_ok.mp (forM_eq_ok.mp h manifest hmanifest)

end Accepted

end Glider.RomConfig

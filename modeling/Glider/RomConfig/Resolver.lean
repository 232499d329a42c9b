import Glider.RomConfig.Config

namespace Glider.RomConfig

open Glider.Lib

variable {V : Type}

inductive ConfigType (V : Type) where
  | standard (entry : ManifestEntry V)
  | recovery (entry : RecoveryManifestEntry V)

structure ResolveRomConfigRequest (V : Type) where
  configName : String
  targetDevice : String
  romName : String
  romAndroidVersion : V

structure ResolvedRomConfig (V : Type) where
  configEntry : ConfigType V
  deviceEntry : TargetsEntry
  branchEntry : ManifestBranchesEntry V
  romEntry : ROMEntry V
  romBranchEntry : ROMBranchEntry V

inductive BuildError where
  | configNotFound (message : String)
  | invalidRequest (message : String)

-- The test of a branch for a device: an expression that does not compile matches nothing.
def admits (regex : Regex) (device : String) (useRegex : Bool) (codename : String) : Bool :=
  device == codename || (useRegex && (regex device).toOption.any (·.search codename))

namespace ROMBuildConfig

variable [BEq V] (regex : Regex) (config : ROMBuildConfig V)

def manifestsNamed (name : String) : List (ManifestEntry V) :=
  config.manifests.filter (·.name == name)

def recoveryManifestsNamed (name : String) : List (RecoveryManifestEntry V) :=
  config.recoveryManifests.filter (·.name == name)

-- A manifest that is alone among the manifests goes before every recovery manifest.
def findConfig (request : ResolveRomConfigRequest V) : Except BuildError (ConfigType V) :=
  match config.manifestsNamed request.configName,
    config.recoveryManifestsNamed request.configName with
  | [entry], _ => .ok (.standard entry)
  | _, [entry] => .ok (.recovery entry)
  | entries, _ => .error (.configNotFound (s!"No unique configuration found with name: " ++
      s!"{request.configName} (Got {entries.length} entries)"))

def findDevice (request : ResolveRomConfigRequest V) : Except BuildError TargetsEntry :=
  only (config.targets.filter (·.codename == request.targetDevice)) fun count =>
    .invalidRequest (s!"No unique device found with codename: {request.targetDevice} " ++
      s!"(Got {count} entries)")

def branchesFor (manifest : ManifestEntry V) (request : ResolveRomConfigRequest V) :
    List (ManifestBranchesEntry V) :=
  manifest.branches.filter fun entry =>
    entry.targetRom == request.romName && entry.androidVersion == request.romAndroidVersion &&
      admits regex entry.device entry.useRegex request.targetDevice

def ofVersion (entry : ROMEntry V) (androidVersion : V) : List (ROMBranchEntry V) :=
  entry.branches.filter (·.androidVersion == androidVersion)

def resolveStandard (manifest : ManifestEntry V) (request : ResolveRomConfigRequest V) :
    Except BuildError (ManifestBranchesEntry V × ROMEntry V × ROMBranchEntry V) := do
  let branchEntry ← only (branchesFor regex manifest request) fun count =>
    .invalidRequest (s!"No unique branch found for target device: {request.targetDevice} " ++
      s!"(Got {count} entries)")
  let romEntry ← only (config.roms.filter (·.name == branchEntry.targetRom)) fun count =>
    .configNotFound (s!"No unique ROM found with name: {branchEntry.targetRom} " ++
      s!"(Got {count} entries)")
  let romBranchEntry ← only (ofVersion romEntry branchEntry.androidVersion) fun count =>
    .configNotFound (s!"No unique ROM branch found with name: {branchEntry.name} " ++
      s!"(Got {count} entries)")
  return (branchEntry, romEntry, romBranchEntry)

-- The device is not looked at.
def resolveRecovery (manifest : RecoveryManifestEntry V) :
    Except BuildError (ManifestBranchesEntry V × ROMEntry V × ROMBranchEntry V) := do
  let recovery ← only (config.recoveries.filter (·.name == manifest.targetRecovery)) fun count =>
    .configNotFound (s!"No unique recovery branch found with name: {manifest.targetRecovery} " ++
      s!"(Got {count} entries)")
  let romBranchEntry ← only (ofVersion recovery manifest.androidVersion) fun count =>
    .configNotFound (s!"No unique branch found for recovery: {manifest.targetRecovery} " ++
      s!"(Got {count} entries)")
  let branchEntry : ManifestBranchesEntry V := {
    name := ""
    targetRom := manifest.targetRecovery
    androidVersion := romBranchEntry.androidVersion
    device := manifest.device
    useRegex := manifest.useRegex }
  return (branchEntry, recovery, romBranchEntry)

def resolveEntry (request : ResolveRomConfigRequest V) : ConfigType V →
    Except BuildError (ManifestBranchesEntry V × ROMEntry V × ROMBranchEntry V)
  | .standard manifest => config.resolveStandard regex manifest request
  | .recovery manifest => config.resolveRecovery manifest

def resolve (request : ResolveRomConfigRequest V) :
    Except BuildError (ResolvedRomConfig V) := do
  let configEntry ← config.findConfig request
  let deviceEntry ← config.findDevice request
  let (branchEntry, romEntry, romBranchEntry) ← config.resolveEntry regex request configEntry
  return ⟨configEntry, deviceEntry, branchEntry, romEntry, romBranchEntry⟩

end ROMBuildConfig

section Results

variable {regex : Regex} {config : ROMBuildConfig V} {request : ResolveRomConfigRequest V}

theorem findConfig_eq_standard {manifest : ManifestEntry V} :
    config.findConfig request = .ok (.standard manifest) ↔
      config.manifestsNamed request.configName = [manifest] := by
  unfold ROMBuildConfig.findConfig
  split
  · next entry hentry =>
    rw [hentry]
    simp
  · next hother => exact iff_of_false nofun fun h => hother manifest h
  · next hone _ => exact iff_of_false nofun fun h => hone manifest h

theorem findConfig_eq_recovery {manifest : RecoveryManifestEntry V} :
    config.findConfig request = .ok (.recovery manifest) ↔
      (∀ other, config.manifestsNamed request.configName ≠ [other]) ∧
        config.recoveryManifestsNamed request.configName = [manifest] := by
  unfold ROMBuildConfig.findConfig
  split
  · next entry hentry => exact iff_of_false nofun fun h => h.1 entry hentry
  · next entry hentry hother =>
    rw [hentry]
    simpa using fun _ => hother
  · next hone hrecovery => exact iff_of_false nofun fun h => hrecovery manifest h.2

variable [BEq V]

theorem resolveStandard_eq_ok {manifest : ManifestEntry V} {branch : ManifestBranchesEntry V}
    {rom : ROMEntry V} {romBranch : ROMBranchEntry V} :
    config.resolveStandard regex manifest request = .ok (branch, rom, romBranch) ↔
      ROMBuildConfig.branchesFor regex manifest request = [branch] ∧
        config.roms.filter (·.name == branch.targetRom) = [rom] ∧
        ROMBuildConfig.ofVersion rom branch.androidVersion = [romBranch] := by
  unfold ROMBuildConfig.resolveStandard
  simp only [bind_eq_ok, only_eq_ok]
  constructor
  · rintro ⟨b, hb, r, hr, rb, hrb, h⟩
    cases h
    exact ⟨hb, hr, hrb⟩
  · rintro ⟨hb, hr, hrb⟩
    exact ⟨_, hb, _, hr, _, hrb, rfl⟩

theorem resolveRecovery_eq_ok {manifest : RecoveryManifestEntry V}
    {branch : ManifestBranchesEntry V} {recovery : ROMEntry V} {romBranch : ROMBranchEntry V} :
    config.resolveRecovery manifest = .ok (branch, recovery, romBranch) ↔
      config.recoveries.filter (·.name == manifest.targetRecovery) = [recovery] ∧
        ROMBuildConfig.ofVersion recovery manifest.androidVersion = [romBranch] ∧
        branch = ⟨"", manifest.targetRecovery, romBranch.androidVersion, manifest.device,
          manifest.useRegex⟩ := by
  unfold ROMBuildConfig.resolveRecovery
  simp only [bind_eq_ok, only_eq_ok]
  constructor
  · rintro ⟨r, hr, rb, hrb, h⟩
    cases h
    exact ⟨hr, hrb, rfl⟩
  · rintro ⟨hr, hrb, rfl⟩
    exact ⟨_, hr, _, hrb, rfl⟩

theorem resolve_eq_standard {manifest : ManifestEntry V} {device : TargetsEntry}
    {branch : ManifestBranchesEntry V} {rom : ROMEntry V} {romBranch : ROMBranchEntry V} :
    config.resolve regex request = .ok ⟨.standard manifest, device, branch, rom, romBranch⟩ ↔
      config.manifestsNamed request.configName = [manifest] ∧
        config.targets.filter (·.codename == request.targetDevice) = [device] ∧
        ROMBuildConfig.branchesFor regex manifest request = [branch] ∧
        config.roms.filter (·.name == branch.targetRom) = [rom] ∧
        ROMBuildConfig.ofVersion rom branch.androidVersion = [romBranch] := by
  unfold ROMBuildConfig.resolve
  simp only [bind_eq_ok, ROMBuildConfig.findDevice, only_eq_ok]
  rw [← findConfig_eq_standard, ← resolveStandard_eq_ok]
  constructor
  · rintro ⟨entry, hentry, d, hd, ⟨b, r, rb⟩, hfound, h⟩
    cases h
    exact ⟨hentry, hd, hfound⟩
  · rintro ⟨hentry, hd, hfound⟩
    exact ⟨_, hentry, _, hd, _, hfound, rfl⟩

theorem resolve_eq_recovery {manifest : RecoveryManifestEntry V} {device : TargetsEntry}
    {branch : ManifestBranchesEntry V} {rom : ROMEntry V} {romBranch : ROMBranchEntry V} :
    config.resolve regex request = .ok ⟨.recovery manifest, device, branch, rom, romBranch⟩ ↔
      ((∀ other, config.manifestsNamed request.configName ≠ [other]) ∧
        config.recoveryManifestsNamed request.configName = [manifest]) ∧
        config.targets.filter (·.codename == request.targetDevice) = [device] ∧
        config.recoveries.filter (·.name == manifest.targetRecovery) = [rom] ∧
        ROMBuildConfig.ofVersion rom manifest.androidVersion = [romBranch] ∧
        branch = ⟨"", manifest.targetRecovery, romBranch.androidVersion, manifest.device,
          manifest.useRegex⟩ := by
  unfold ROMBuildConfig.resolve
  simp only [bind_eq_ok, ROMBuildConfig.findDevice, only_eq_ok]
  rw [← findConfig_eq_recovery, ← resolveRecovery_eq_ok]
  constructor
  · rintro ⟨entry, hentry, d, hd, ⟨b, r, rb⟩, hfound, h⟩
    cases h
    exact ⟨hentry, hd, hfound⟩
  · rintro ⟨hentry, hd, hfound⟩
    exact ⟨_, hentry, _, hd, _, hfound, rfl⟩

end Results

def ROMBuildConfig.entriesFor (config : ROMBuildConfig V) : ConfigType V → List (ROMEntry V)
  | .standard _ => config.roms
  | .recovery _ => config.recoveries

-- What was resolved is what was asked for, and there was nothing else to choose from.
structure Fits [BEq V] (regex : Regex) (config : ROMBuildConfig V)
    (request : ResolveRomConfigRequest V) (resolved : ResolvedRomConfig V) : Prop where
  named : match resolved.configEntry with
    | .standard manifest => config.manifestsNamed request.configName = [manifest] ∧
        config.recoveryManifestsNamed request.configName = []
    | .recovery manifest => config.manifestsNamed request.configName = [] ∧
        config.recoveryManifestsNamed request.configName = [manifest]
  device : resolved.deviceEntry.codename = request.targetDevice
  admitted : admits regex resolved.branchEntry.device resolved.branchEntry.useRegex
    request.targetDevice = true
  requested : ∀ manifest, resolved.configEntry = .standard manifest →
    resolved.branchEntry.targetRom = request.romName ∧
      (resolved.branchEntry.androidVersion == request.romAndroidVersion) = true
  rom : (config.entriesFor resolved.configEntry).filter
    (·.name == resolved.branchEntry.targetRom) = [resolved.romEntry]
  romBranch : ROMBuildConfig.ofVersion resolved.romEntry resolved.branchEntry.androidVersion =
    [resolved.romBranchEntry]

-- One manifest or recovery manifest in all has the name.
def Unambiguous (config : ROMBuildConfig V) (name : String) : Prop :=
  (config.manifestsNamed name).length + (config.recoveryManifestsNamed name).length = 1

-- The recovery manifests of the name are for the device.
def Covered (regex : Regex) (config : ROMBuildConfig V) (name device : String) : Prop :=
  ∀ manifest ∈ config.recoveryManifestsNamed name,
    admits regex manifest.device manifest.useRegex device = true

section Fit

variable {regex : Regex} {config : ROMBuildConfig V} {request : ResolveRomConfigRequest V}

theorem codename_of_filter {device : TargetsEntry}
    (h : config.targets.filter (·.codename == request.targetDevice) = [device]) :
    device.codename = request.targetDevice := by
  have hmem : device ∈ config.targets.filter (·.codename == request.targetDevice) := by simp [h]
  simpa using (List.mem_filter.mp hmem).2

variable [BEq V]

theorem fits_standard_iff {manifest : ManifestEntry V} {device : TargetsEntry}
    {branch : ManifestBranchesEntry V} {rom : ROMEntry V} {romBranch : ROMBranchEntry V}
    (h : config.resolve regex request = .ok ⟨.standard manifest, device, branch, rom, romBranch⟩) :
    Fits regex config request ⟨.standard manifest, device, branch, rom, romBranch⟩ ↔
      Unambiguous config request.configName ∧ Covered regex config request.configName
        request.targetDevice := by
  obtain ⟨hmanifest, hdevice, hbranch, hrom, hromBranch⟩ := resolve_eq_standard.mp h
  constructor
  · intro hfits
    have hnone := hfits.named.2
    refine ⟨by simp [Unambiguous, hmanifest, hnone], ?_⟩
    rw [Covered, hnone]
    nofun
  · rintro ⟨hone, -⟩
    have hnone : config.recoveryManifestsNamed request.configName = [] := by
      rw [Unambiguous, hmanifest, List.length_singleton] at hone
      exact List.length_eq_zero_iff.mp (by omega)
    have hmem : branch ∈ ROMBuildConfig.branchesFor regex manifest request := by simp [hbranch]
    have htest := (List.mem_filter.mp hmem).2
    simp only [Bool.and_eq_true] at htest
    obtain ⟨⟨htarget, hversion⟩, hadmits⟩ := htest
    refine ⟨⟨hmanifest, hnone⟩, codename_of_filter hdevice, hadmits, fun _ _ => ?_, hrom, hromBranch⟩
    exact ⟨by simpa using htarget, hversion⟩

-- `==` need not be reflexive, but what equals the version of the manifest equals every other that
-- does.
theorem ofVersion_eq_self [PartialEquivBEq V] {rom : ROMEntry V} {androidVersion : V}
    {romBranch : ROMBranchEntry V}
    (h : ROMBuildConfig.ofVersion rom androidVersion = [romBranch]) :
    ROMBuildConfig.ofVersion rom romBranch.androidVersion = [romBranch] := by
  have hmem : romBranch ∈ ROMBuildConfig.ofVersion rom androidVersion := by simp [h]
  have hversion : (romBranch.androidVersion == androidVersion) = true := (List.mem_filter.mp hmem).2
  rw [← h]
  unfold ROMBuildConfig.ofVersion
  refine List.filter_congr fun entry _ => ?_
  rw [Bool.eq_iff_iff]
  exact ⟨fun he => BEq.trans he hversion, fun he => BEq.trans he (BEq.symm hversion)⟩

theorem fits_recovery_iff [PartialEquivBEq V] {manifest : RecoveryManifestEntry V}
    {device : TargetsEntry} {branch : ManifestBranchesEntry V} {rom : ROMEntry V}
    {romBranch : ROMBranchEntry V}
    (h : config.resolve regex request = .ok ⟨.recovery manifest, device, branch, rom, romBranch⟩) :
    Fits regex config request ⟨.recovery manifest, device, branch, rom, romBranch⟩ ↔
      Unambiguous config request.configName ∧ Covered regex config request.configName
        request.targetDevice := by
  obtain ⟨⟨hother, hmanifest⟩, hdevice, hrom, hromBranch, rfl⟩ := resolve_eq_recovery.mp h
  constructor
  · intro hfits
    refine ⟨by simp [Unambiguous, hmanifest, hfits.named.1], ?_⟩
    rw [Covered, hmanifest]
    intro other hmem
    obtain rfl := List.mem_singleton.mp hmem
    exact hfits.admitted
  · rintro ⟨hone, hcovered⟩
    have hnone : config.manifestsNamed request.configName = [] := by
      rw [Unambiguous, hmanifest, List.length_singleton] at hone
      exact List.length_eq_zero_iff.mp (by omega)
    refine ⟨⟨hnone, hmanifest⟩, codename_of_filter hdevice, hcovered manifest (by simp [hmanifest]),
      nofun, hrom, ofVersion_eq_self hromBranch⟩

-- What `resolve` returns fits the request exactly if the name is unambiguous and a recovery
-- manifest of that name is for the device.
theorem resolved_fits_iff [PartialEquivBEq V] {resolved : ResolvedRomConfig V}
    (h : config.resolve regex request = .ok resolved) :
    Fits regex config request resolved ↔
      Unambiguous config request.configName ∧ Covered regex config request.configName
        request.targetDevice := by
  obtain ⟨manifest | manifest, device, branch, rom, romBranch⟩ := resolved
  · exact fits_standard_iff h
  · exact fits_recovery_iff h

end Fit

namespace Sample

def regex : Regex := fun word => .ok (.literal word)

def raven : TargetsEntry := ⟨"Pixel 6 Pro", "raven", "Google"⟩

def oriole : TargetsEntry := ⟨"Pixel 6", "oriole", "Google"⟩

def lineage : ROMEntry ℕ :=
  ⟨"lineage", "https://example.com/manifest", "bacon", ⟨.zipFilePrefixer, "lineage-"⟩,
    [⟨15, "lineage-22.0"⟩]⟩

def twrp : ROMEntry ℕ :=
  ⟨"twrp", "https://example.com/twrp", "recoveryimage", ⟨.exactMatcher, "recovery.img"⟩,
    [⟨14, "android-14"⟩]⟩

def forRaven : ManifestEntry ℕ :=
  ⟨"default", "https://example.com/local-manifest", [⟨"raven-15", "lineage", 15, "raven", false⟩]⟩

def recoveryForRaven (name : String) : RecoveryManifestEntry ℕ := ⟨name, [], 14, "twrp", "raven", false⟩

def config : ROMBuildConfig ℕ :=
  ⟨[lineage], [twrp], [raven, oriole], [forRaven], [recoveryForRaven "recovery"]⟩

end Sample

open Sample in
theorem resolved_fits_raven :
    ∃ resolved, config.resolve Sample.regex ⟨"recovery", "raven", "twrp", 14⟩ = .ok resolved ∧
      Fits Sample.regex config ⟨"recovery", "raven", "twrp", 14⟩ resolved := by
  have h : config.resolve Sample.regex ⟨"recovery", "raven", "twrp", 14⟩ =
      .ok ⟨.recovery (recoveryForRaven "recovery"), raven, ⟨"", "twrp", 14, "raven", false⟩, twrp,
        ⟨14, "android-14"⟩⟩ := by
    rfl
  refine ⟨_, h, (resolved_fits_iff h).mpr ⟨rfl, ?_⟩⟩
  intro manifest hmem
  obtain rfl : manifest = recoveryForRaven "recovery" := by
    simpa [ROMBuildConfig.recoveryManifestsNamed, config, recoveryForRaven] using hmem
  rfl

open Sample in
-- The recovery of one device is resolved for another one, and a name that a manifest and a recovery
-- manifest have in common is resolved all the same.
theorem resolved_misfits :
    (∃ resolved, config.resolve Sample.regex ⟨"recovery", "oriole", "twrp", 14⟩ = .ok resolved ∧
      ¬Fits Sample.regex config ⟨"recovery", "oriole", "twrp", 14⟩ resolved) ∧
    ∃ twice : ROMBuildConfig ℕ, ∃ resolved,
      twice.resolve Sample.regex ⟨"default", "raven", "lineage", 15⟩ = .ok resolved ∧
        ¬Fits Sample.regex twice ⟨"default", "raven", "lineage", 15⟩ resolved := by
  constructor
  · refine ⟨⟨.recovery (recoveryForRaven "recovery"), oriole, ⟨"", "twrp", 14, "raven", false⟩,
      twrp, ⟨14, "android-14"⟩⟩, rfl, fun hfits => ?_⟩
    cases hfits.admitted
  · refine ⟨{ config with recoveryManifests := [recoveryForRaven "default"] },
      ⟨.standard forRaven, raven, ⟨"raven-15", "lineage", 15, "raven", false⟩, lineage,
        ⟨15, "lineage-22.0"⟩⟩, rfl, fun hfits => ?_⟩
    cases hfits.named.2

end Glider.RomConfig

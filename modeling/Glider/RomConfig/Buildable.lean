import Glider.RomConfig.Resolver

namespace Glider.RomConfig

open Glider.Lib

variable {V : Type} [BEq V]

-- The request for a branch of a manifest.
def requestFor (manifest : ManifestEntry V) (branch : ManifestBranchesEntry V)
    (device : TargetsEntry) : ResolveRomConfigRequest V :=
  ⟨manifest.name, device.codename, branch.targetRom, branch.androidVersion⟩

-- Every branch is resolved for every target it is for, and every recovery manifest too.
structure Buildable (regex : Regex) (config : ROMBuildConfig V) : Prop where
  branches : ∀ manifest ∈ config.manifests, ∀ branch ∈ manifest.branches,
    ∀ device ∈ config.targets,
      admits regex branch.device branch.useRegex device.codename = true →
        ∃ resolved, config.resolve regex (requestFor manifest branch device) = .ok resolved ∧
          resolved.branchEntry = branch
  recoveries : ∀ manifest ∈ config.recoveryManifests, ∀ device ∈ config.targets,
    admits regex manifest.device manifest.useRegex device.codename = true →
      ∀ romName androidVersion, ∃ resolved,
        config.resolve regex ⟨manifest.name, device.codename, romName, androidVersion⟩ =
          .ok resolved ∧ resolved.configEntry = .recovery manifest

-- No other branch of the manifest is for the same ROM, version and device, and the ROM or recovery
-- has the version once.
structure Distinct (regex : Regex) (config : ROMBuildConfig V) : Prop where
  branches : ∀ manifest ∈ config.manifests, ∀ branch ∈ manifest.branches,
    ∀ device ∈ config.targets,
      admits regex branch.device branch.useRegex device.codename = true →
        (ROMBuildConfig.branchesFor regex manifest
          (requestFor manifest branch device)).length = 1 ∧
        ∀ rom ∈ config.roms, rom.name = branch.targetRom →
          (ROMBuildConfig.ofVersion rom branch.androidVersion).length = 1
  recoveries : ∀ manifest ∈ config.recoveryManifests, ∀ device ∈ config.targets,
    admits regex manifest.device manifest.useRegex device.codename = true →
      ∀ recovery ∈ config.recoveries, recovery.name = manifest.targetRecovery →
        (ROMBuildConfig.ofVersion recovery manifest.androidVersion).length = 1

section Valid

variable {regex : Regex} {config : ROMBuildConfig V}

theorem filter_codename (hvalid : Valid regex config) {device : TargetsEntry}
    (h : device ∈ config.targets) :
    config.targets.filter (·.codename == device.codename) = [device] :=
  filter_eq_singleton hvalid.targets h

theorem manifestsNamed_eq (hvalid : Valid regex config) {manifest : ManifestEntry V}
    (h : manifest ∈ config.manifests) : config.manifestsNamed manifest.name = [manifest] :=
  filter_eq_singleton (List.Nodup.of_append_left hvalid.names) h

theorem recoveryManifestsNamed_eq (hvalid : Valid regex config)
    {manifest : RecoveryManifestEntry V} (h : manifest ∈ config.recoveryManifests) :
    config.recoveryManifestsNamed manifest.name = [manifest] :=
  filter_eq_singleton (List.Nodup.of_append_right hvalid.names) h

-- No manifest has the name of a recovery manifest.
theorem manifestsNamed_eq_nil (hvalid : Valid regex config) {manifest : RecoveryManifestEntry V}
    (h : manifest ∈ config.recoveryManifests) : config.manifestsNamed manifest.name = [] := by
  unfold ROMBuildConfig.manifestsNamed
  rw [List.filter_eq_nil_iff]
  intro other hother hname
  have hdisjoint := (List.nodup_append.mp hvalid.names).2.2
  exact hdisjoint other.name (List.mem_map_of_mem hother) manifest.name (List.mem_map_of_mem h)
    (by simpa using hname)

theorem branchesFor_eq_iff [ReflBEq V] {manifest : ManifestEntry V}
    {branch : ManifestBranchesEntry V} (hbranch : branch ∈ manifest.branches)
    {device : TargetsEntry}
    (hadmits : admits regex branch.device branch.useRegex device.codename = true) :
    ROMBuildConfig.branchesFor regex manifest (requestFor manifest branch device) = [branch] ↔
      (ROMBuildConfig.branchesFor regex manifest (requestFor manifest branch device)).length =
        1 := by
  have hmem : branch ∈ ROMBuildConfig.branchesFor regex manifest
      (requestFor manifest branch device) := by
    refine List.mem_filter.mpr ⟨hbranch, ?_⟩
    simp [requestFor, hadmits]
  constructor
  · intro h
    rw [h, List.length_singleton]
  · intro h
    obtain ⟨other, hother⟩ := List.length_eq_one_iff.mp h
    rw [hother] at hmem ⊢
    rw [List.mem_singleton.mp hmem]

omit [BEq V] in
theorem name_of_filter {entries : List (ROMEntry V)} {name : String} {entry : ROMEntry V}
    (h : entries.filter (·.name == name) = [entry]) : entry ∈ entries ∧ entry.name = name := by
  have hmem : entry ∈ entries.filter (·.name == name) := by simp [h]
  simpa using List.mem_filter.mp hmem

omit [BEq V] in
-- The entries of a name are the one that was found.
theorem forall_named_iff {entries : List (ROMEntry V)} {name : String} {entry : ROMEntry V}
    (h : entries.filter (·.name == name) = [entry]) {P : ROMEntry V → Prop} :
    (∀ other ∈ entries, other.name = name → P other) ↔ P entry := by
  obtain ⟨hmem, hname⟩ := name_of_filter h
  refine ⟨fun hall => hall entry hmem hname, fun hentry other hother hsame => ?_⟩
  have hother : other ∈ entries.filter (·.name == name) :=
    List.mem_filter.mpr ⟨hother, by simpa using hsame⟩
  rw [h] at hother
  exact List.mem_singleton.mp hother ▸ hentry

theorem resolves_branch_iff [ReflBEq V] (hvalid : Valid regex config) {manifest : ManifestEntry V}
    (hmanifest : manifest ∈ config.manifests) {branch : ManifestBranchesEntry V}
    (hbranch : branch ∈ manifest.branches) {device : TargetsEntry} (hdevice : device ∈ config.targets)
    (hadmits : admits regex branch.device branch.useRegex device.codename = true) :
    (∃ resolved, config.resolve regex (requestFor manifest branch device) = .ok resolved ∧
        resolved.branchEntry = branch) ↔
      (ROMBuildConfig.branchesFor regex manifest (requestFor manifest branch device)).length =
        1 ∧
      ∀ rom ∈ config.roms, rom.name = branch.targetRom →
        (ROMBuildConfig.ofVersion rom branch.androidVersion).length = 1 := by
  obtain ⟨rom, hrom, -⟩ := (hvalid.branches manifest hmanifest branch hbranch).entry
  have hnamed := manifestsNamed_eq hvalid hmanifest
  rw [forall_named_iff hrom, ← branchesFor_eq_iff hbranch hadmits]
  constructor
  · rintro ⟨⟨other | other, d, b, r, rb⟩, hresolved, rfl⟩
    · obtain ⟨hother, -, hbranches, hroms, hversion⟩ := resolve_eq_standard.mp hresolved
      obtain rfl : other = manifest := by simpa [hnamed] using hother.symm.trans hnamed
      obtain rfl : r = rom := by simpa using hroms.symm.trans hrom
      exact ⟨hbranches, by rw [hversion, List.length_singleton]⟩
    · obtain ⟨⟨hother, -⟩, -⟩ := resolve_eq_recovery.mp hresolved
      exact absurd hnamed (hother manifest)
  · rintro ⟨hbranches, hversion⟩
    obtain ⟨romBranch, hromBranch⟩ := List.length_eq_one_iff.mp hversion
    refine ⟨⟨.standard manifest, device, branch, rom, romBranch⟩, ?_, rfl⟩
    exact resolve_eq_standard.mpr
      ⟨hnamed, filter_codename hvalid hdevice, hbranches, hrom, hromBranch⟩

theorem resolves_recovery_iff (hvalid : Valid regex config) {manifest : RecoveryManifestEntry V}
    (hmanifest : manifest ∈ config.recoveryManifests) {device : TargetsEntry}
    (hdevice : device ∈ config.targets) (romName : String) (androidVersion : V) :
    (∃ resolved, config.resolve regex ⟨manifest.name, device.codename, romName, androidVersion⟩ =
        .ok resolved ∧ resolved.configEntry = .recovery manifest) ↔
      ∀ recovery ∈ config.recoveries, recovery.name = manifest.targetRecovery →
        (ROMBuildConfig.ofVersion recovery manifest.androidVersion).length = 1 := by
  obtain ⟨recovery, hrecovery, -⟩ := (hvalid.recoveryManifests manifest hmanifest).entry
  rw [forall_named_iff hrecovery]
  constructor
  · rintro ⟨⟨entry, d, b, r, rb⟩, hresolved, rfl⟩
    obtain ⟨-, -, hrecoveries, hversion, -⟩ := resolve_eq_recovery.mp hresolved
    obtain rfl : r = recovery := by simpa using hrecoveries.symm.trans hrecovery
    rw [hversion, List.length_singleton]
  · intro hversion
    obtain ⟨romBranch, hromBranch⟩ := List.length_eq_one_iff.mp hversion
    have hnone := manifestsNamed_eq_nil hvalid hmanifest
    have hother : ∀ other, config.manifestsNamed manifest.name ≠ [other] := by
      intro other hother
      cases hnone.symm.trans hother
    refine ⟨⟨.recovery manifest, device, ⟨"", manifest.targetRecovery, romBranch.androidVersion,
      manifest.device, manifest.useRegex⟩, recovery, romBranch⟩, ?_, rfl⟩
    exact resolve_eq_recovery.mpr ⟨⟨hother, recoveryManifestsNamed_eq hvalid hmanifest⟩,
      filter_codename hvalid hdevice, hrecovery, hromBranch, rfl⟩

-- A configuration that `validate` accepts is buildable exactly if the branches and versions that a
-- request has to choose from are distinct, which `validate` does not check.
theorem validated_buildable_iff [ReflBEq V] [ToString V]
    (h : validate regex config = .ok ()) : Buildable regex config ↔ Distinct regex config := by
  have hvalid := valid_of_validate h
  constructor
  · intro hbuildable
    refine ⟨fun manifest hmanifest branch hbranch device hdevice hadmits => ?_,
      fun manifest hmanifest device hdevice hadmits => ?_⟩
    · exact (resolves_branch_iff hvalid hmanifest hbranch hdevice hadmits).mp
        (hbuildable.branches manifest hmanifest branch hbranch device hdevice hadmits)
    · exact (resolves_recovery_iff hvalid hmanifest hdevice "" manifest.androidVersion).mp
        (hbuildable.recoveries manifest hmanifest device hdevice hadmits _ _)
  · intro hdistinct
    refine ⟨fun manifest hmanifest branch hbranch device hdevice hadmits => ?_,
      fun manifest hmanifest device hdevice hadmits romName androidVersion => ?_⟩
    · exact (resolves_branch_iff hvalid hmanifest hbranch hdevice hadmits).mpr
        (hdistinct.branches manifest hmanifest branch hbranch device hdevice hadmits)
    · exact (resolves_recovery_iff hvalid hmanifest hdevice romName androidVersion).mpr
        (hdistinct.recoveries manifest hmanifest device hdevice hadmits)

end Valid

open Sample in
theorem sample_buildable : validate Sample.regex config = .ok () ∧ Buildable Sample.regex config := by
  have hvalid : validate Sample.regex config = .ok () := by rfl
  refine ⟨hvalid, (validated_buildable_iff hvalid).mpr ⟨?_, ?_⟩⟩
  · intro manifest hmanifest branch hbranch device hdevice hadmits
    obtain rfl := List.mem_singleton.mp hmanifest
    obtain rfl := List.mem_singleton.mp hbranch
    have hraven : device = raven := by
      obtain rfl | hdevice := List.mem_cons.mp hdevice
      · rfl
      · obtain rfl := List.mem_singleton.mp hdevice
        cases hadmits
    subst hraven
    refine ⟨rfl, fun rom hrom _ => ?_⟩
    obtain rfl := List.mem_singleton.mp hrom
    rfl
  · intro manifest hmanifest device hdevice hadmits recovery hrecovery _
    obtain rfl := List.mem_singleton.mp hmanifest
    obtain rfl := List.mem_singleton.mp hrecovery
    rfl

namespace Sample

-- A branch for the device and one with an expression that matches it.
def overlapping : ROMBuildConfig ℕ :=
  { config with manifests := [⟨"default", "https://example.com/local-manifest",
      [⟨"raven-15", "lineage", 15, "raven", false⟩, ⟨"pixel-15", "lineage", 15, "raven", true⟩]⟩] }

-- A recovery that has a version twice.
def repeated : ROMBuildConfig ℕ :=
  { config with recoveries := [{ twrp with branches := [⟨14, "android-14"⟩, ⟨14, "main"⟩] }] }

end Sample

open Sample in
theorem validated_not_buildable :
    (validate Sample.regex overlapping = .ok () ∧ ¬Buildable Sample.regex overlapping) ∧
      validate Sample.regex repeated = .ok () ∧ ¬Buildable Sample.regex repeated := by
  refine ⟨⟨rfl, fun hbuildable => ?_⟩, rfl, fun hbuildable => ?_⟩
  · obtain ⟨resolved, hresolved, -⟩ := hbuildable.branches _ List.mem_cons_self _ List.mem_cons_self
      raven List.mem_cons_self rfl
    cases hresolved
  · obtain ⟨resolved, hresolved, -⟩ := hbuildable.recoveries _ List.mem_cons_self raven
      List.mem_cons_self rfl "twrp" 14
    cases hresolved

end Glider.RomConfig

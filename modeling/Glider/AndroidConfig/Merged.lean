import Glider.AndroidConfig.Files

namespace Glider.AndroidConfig

open Lib
open Bytes (ascii)

section Branches

variable {V : Type} [DecidableEq V] {floats : Floats V} {versions : Assoc V (AndroidVersion V)}

def romBranches (floats : Floats V) (versions : Assoc V (AndroidVersion V))
    (rom : ParseFiles.ROM V) : List (ROMBranch V) :=
  rom.branches.filterMap fun branch =>
    (versions.find? (floats.value branch.androidVersion)).map fun version =>
      ⟨branch.branch, version, romInfo rom⟩

def keyed (floats : Floats V) (branch : ROMBranch V) : Bytes × ROMBranch V :=
  (makeKey floats branch.romInfo.name branch.androidVersion.version, branch)

def Known (floats : Floats V) (versions : Assoc V (AndroidVersion V)) (rom : ParseFiles.ROM V) :
    Prop :=
  ∀ branch ∈ rom.branches, ∃ version, versions.find? (floats.value branch.androidVersion) =
    some version

theorem addBranches_eq_ok {rom : ParseFiles.ROM V} {branches : List (ParseFiles.ROM.Branches V)}
    {map map' : Assoc Bytes (ROMBranch V)} :
    addBranches floats versions rom branches map = .ok map' ↔
      Known floats versions { rom with branches } ∧
        map' = map.insertAll ((romBranches floats versions { rom with branches }).map
          (keyed floats)) := by
  induction branches generalizing map with
  | nil =>
    constructor
    · rintro ⟨⟩
      exact ⟨nofun, rfl⟩
    · rintro ⟨-, rfl⟩
      rfl
  | cons branch branches ih =>
    unfold addBranches
    split
    · next hnone =>
      constructor
      · nofun
      · rintro ⟨hknown, -⟩
        obtain ⟨version, hversion⟩ := hknown branch List.mem_cons_self
        cases hnone.symm.trans hversion
    · next version hversion =>
      rw [ih]
      have hcons : romBranches floats versions { rom with branches := branch :: branches } =
          ⟨branch.branch, version, romInfo rom⟩ ::
            romBranches floats versions { rom with branches } := by
        rw [romBranches, List.filterMap_cons, hversion]
        rfl
      rw [hcons]
      constructor
      · rintro ⟨hknown, rfl⟩
        refine ⟨fun other hother => ?_, rfl⟩
        rcases List.mem_cons.mp hother with rfl | hother
        · exact ⟨version, hversion⟩
        · exact hknown other hother
      · rintro ⟨hknown, rfl⟩
        exact ⟨fun other hother => hknown other (List.mem_cons_of_mem _ hother), rfl⟩

theorem addRoms_eq_ok {roms : List (ParseFiles.ROM V)} {map map' : Assoc Bytes (ROMBranch V)} :
    addRoms floats versions roms map = .ok map' ↔
      (∀ rom ∈ roms, Known floats versions rom) ∧
        map' = map.insertAll ((roms.flatMap (romBranches floats versions)).map (keyed floats)) := by
  induction roms generalizing map with
  | nil =>
    constructor
    · rintro ⟨⟩
      exact ⟨nofun, rfl⟩
    · rintro ⟨-, rfl⟩
      rfl
  | cons rom roms ih =>
    rw [List.forall_mem_cons, List.flatMap_cons, List.map_append, Assoc.insertAll,
      List.foldl_append]
    constructor
    · intro h
      rw [addRoms] at h
      cases hbranches : addBranches floats versions rom rom.branches map with
      | error e =>
        rw [hbranches] at h
        cases h
      | ok added =>
        rw [hbranches] at h
        obtain ⟨hknown, rfl⟩ := addBranches_eq_ok.mp hbranches
        obtain ⟨hroms, rfl⟩ := ih.mp h
        exact ⟨⟨hknown, hroms⟩, rfl⟩
    · rintro ⟨⟨hknown, hroms⟩, rfl⟩
      rw [addRoms, addBranches_eq_ok.mpr ⟨hknown, rfl⟩]
      exact ih.mpr ⟨hroms, rfl⟩

-- The branches of the recoveries go into the same map.
theorem addRoms_append (roms recoveries : List (ParseFiles.ROM V))
    (map : Assoc Bytes (ROMBranch V)) :
    addRoms floats versions (roms ++ recoveries) map =
      (addRoms floats versions roms map).bind (addRoms floats versions recoveries) := by
  induction roms generalizing map with
  | nil => rfl
  | cons rom roms ih =>
    rw [List.cons_append, addRoms, addRoms]
    cases addBranches floats versions rom rom.branches map with
    | error e => rfl
    | ok added => exact ih added

end Branches

section Scan

variable {V α : Type} {parse : Bytes → Except Thrown Json} {fromJson : Json → Except Bytes α}

-- No exception but that of the parsing comes out of the reading of a file.
def Readable (parse : Bytes → Except Thrown Json) (fromJson : Json → Except Bytes α)
    (entry : DirEntry) : Prop :=
  isJsonFile entry = true → ∀ text,
    ParseFiles.load parse fromJson entry.content ≠ .error (.other text)

def wellFormed (parse : Bytes → Except Thrown Json) (fromJson : Json → Except Bytes α)
    (entries : List DirEntry) : List α :=
  (entries.filter isJsonFile).filterMap fun entry =>
    (ParseFiles.load parse fromJson entry.content).toOption

theorem scan_eq_ok {build : α → List (LocalManifest V)} {entries : List DirEntry}
    {parsed out : List (LocalManifest V)} :
    scan parse fromJson build entries parsed = .ok out ↔
      (∀ entry ∈ entries, Readable parse fromJson entry) ∧
        out = parsed ++ (wellFormed parse fromJson entries).flatMap build := by
  induction entries generalizing parsed with
  | nil =>
    rw [scan, wellFormed, List.filter_nil, List.filterMap_nil, List.flatMap_nil, List.append_nil]
    constructor
    · rintro ⟨⟩
      exact ⟨nofun, rfl⟩
    · rintro ⟨-, rfl⟩
      rfl
  | cons entry entries ih =>
    rw [scan, List.forall_mem_cons]
    by_cases hjson : isJsonFile entry = true
    · rw [if_pos hjson]
      have hload : wellFormed parse fromJson (entry :: entries) =
          (ParseFiles.load parse fromJson entry.content).toOption.toList ++
            wellFormed parse fromJson entries := by
        rw [wellFormed, List.filter_cons_of_pos hjson, List.filterMap_cons]
        cases ParseFiles.load parse fromJson entry.content with
        | error e | ok a => rfl
      rw [hload]
      split
      · next a ha =>
        rw [ih, ha, List.append_assoc]
        have hreadable : Readable parse fromJson entry := fun _ text => by simp [ha]
        exact ⟨fun h => ⟨⟨hreadable, h.1⟩, h.2⟩, fun h => ⟨h.1.2, h.2⟩⟩
      · next text htext =>
        rw [ih, htext]
        have hreadable : Readable parse fromJson entry := fun _ text => by simp [htext]
        exact ⟨fun h => ⟨⟨hreadable, h.1⟩, h.2⟩, fun h => ⟨h.1.2, h.2⟩⟩
      · next e hparse he =>
        constructor
        · nofun
        · rintro ⟨⟨hreadable, -⟩, -⟩
          cases e with
          | parseError text => exact absurd rfl (hparse text)
          | other text => exact absurd he (hreadable hjson text)
    · rw [if_neg hjson, ih, wellFormed, wellFormed, List.filter_cons_of_neg hjson]
      have hreadable : Readable parse fromJson entry := fun h => absurd h hjson
      exact ⟨fun h => ⟨⟨hreadable, h.1⟩, h.2⟩, fun h => ⟨h.1.2, h.2⟩⟩

end Scan

section Meaning

variable {V : Type} [DecidableEq V] (floats : Floats V) (regexMatch : Bytes → Bytes → Option Bool)
  (parse : Bytes → Except Thrown Json)

-- What is in the files at the top of the directory.
structure Contents (V : Type) where
  targets : List ParseFiles.Device
  versions : List (ParseFiles.Version V)
  roms : List (ParseFiles.ROM V)
  recoveries : List (ParseFiles.ROM V)

structure HasShape (dir : ConfigDir) (contents : Contents V) : Prop where
  targets : loadAll parse ParseFiles.Device.fromJson dir.targets = .ok contents.targets
  versions : loadAll parse (ParseFiles.Version.fromJson floats) dir.versions =
    .ok contents.versions
  roms : loadAll parse (ParseFiles.ROM.fromJson floats) dir.roms = .ok contents.roms
  recoveries : loadAll parse (ParseFiles.ROM.fromJson floats) dir.recoveries =
    .ok contents.recoveries

def Contents.allRoms (contents : Contents V) : List (ParseFiles.ROM V) :=
  contents.roms ++ contents.recoveries

def ConfigDir.manifestFiles (dir : ConfigDir) : List DirEntry :=
  (dir.manifest.map ManifestDir.entries).getD []

def ConfigDir.recoveryFiles (dir : ConfigDir) : List DirEntry :=
  (dir.manifest.bind ManifestDir.recovery).getD []

def manifests (dir : ConfigDir) : List (ParseFiles.Manifest V) :=
  wellFormed parse (ParseFiles.Manifest.fromJson floats) dir.manifestFiles

def recoveryManifests (dir : ConfigDir) : List (ParseFiles.RecoveryManifest V) :=
  wellFormed parse (ParseFiles.RecoveryManifest.fromJson floats) dir.recoveryFiles

variable (contents : Contents V)

def Occurs (name : Bytes) (version : V) : Prop :=
  ∃ rom ∈ contents.allRoms, rom.name = name ∧
    ∃ branch ∈ rom.branches, floats.value branch.androidVersion = floats.value version

-- Every device that is selected is listed once, and no other one.
structure Lists (device : Bytes) (useRegex : Bool) (devices : List Device) : Prop where
  once : (devices.map Device.codename).Nodup
  known : ∀ listed ∈ devices, ∃ target ∈ contents.targets,
    listed = ⟨target.codename, target.name⟩
  selected : ∀ codename, codename ∈ devices.map Device.codename ↔
    codename ∈ contents.targets.map ParseFiles.Device.codename ∧
      selects regexMatch device useRegex codename = true

-- The version is the one that is written: two zeros compare equal, and their texts differ.
structure IsEntry (name targetRom : Bytes) (version : V) (entry : LocalManifest V) : Prop where
  name : entry.name = name
  rom : entry.rom.romInfo.name = targetRom
  version : entry.rom.androidVersion.version = version

structure Listed (dir : ConfigDir) (parsed : List (LocalManifest V)) : Prop where
  manifests : ∀ manifest ∈ manifests floats parse dir, ∀ branch ∈ manifest.branches,
    Occurs floats contents branch.targetRom branch.androidVersion → ∃ entry ∈ parsed,
      IsEntry manifest.name branch.targetRom branch.androidVersion entry ∧
        Lists regexMatch contents branch.device branch.useRegex entry.devices
  -- A recovery lists its devices in one entry each.
  recoveries : ∀ manifest ∈ recoveryManifests floats parse dir,
    Occurs floats contents manifest.targetRecovery manifest.androidVersion →
      ∀ target ∈ contents.targets,
        selects regexMatch manifest.device manifest.useRegex target.codename = true →
          ∃ entry ∈ parsed,
            IsEntry manifest.name manifest.targetRecovery manifest.androidVersion entry ∧
              entry.devices.map Device.codename = [target.codename]

def Merges (dir : ConfigDir) : Prop :=
  ∃ ok parsed, merge floats regexMatch parse dir = .ok (ok, parsed) ∧
    Listed floats regexMatch parse contents dir parsed

-- Of the versions that compare equal, the last one counts.
def Contents.versionOf (version : V) : Option V :=
  (contents.versions.reverse.find? fun known =>
    floats.value known.version = floats.value version).map ParseFiles.Version.version

def Contents.romVersions : List (Bytes × V) :=
  contents.allRoms.flatMap fun rom => rom.branches.filterMap fun branch =>
    (contents.versionOf floats branch.androidVersion).map fun version => (rom.name, version)

-- Of the branches whose keys are one text, the last one counts.
def ToldApart (name : Bytes) (version : V) : Prop :=
  ((contents.romVersions floats).reverse.find? fun known =>
    makeKey floats known.1 known.2 = makeKey floats name version) = some (name, version)

structure Consistent (dir : ConfigDir) : Prop where
  known : ∀ rom ∈ contents.allRoms, ∀ branch ∈ rom.branches, ∃ version ∈ contents.versions,
    floats.value version.version = floats.value branch.androidVersion
  readable : ∀ entry ∈ dir.manifestFiles,
    Readable parse (ParseFiles.Manifest.fromJson floats) entry
  readableRecovery : ∀ entry ∈ dir.recoveryFiles,
    Readable parse (ParseFiles.RecoveryManifest.fromJson floats) entry
  toldApart : ∀ manifest ∈ manifests floats parse dir, ∀ branch ∈ manifest.branches,
    Occurs floats contents branch.targetRom branch.androidVersion →
      ToldApart floats contents branch.targetRom branch.androidVersion
  toldApartRecovery : ∀ manifest ∈ recoveryManifests floats parse dir,
    Occurs floats contents manifest.targetRecovery manifest.androidVersion →
      (∃ target ∈ contents.targets,
        selects regexMatch manifest.device manifest.useRegex target.codename = true) →
        ToldApart floats contents manifest.targetRecovery manifest.androidVersion

end Meaning

section Maps

variable {V : Type} [DecidableEq V] {floats : Floats V} {regexMatch : Bytes → Bytes → Option Bool}
  {contents : Contents V}

def Contents.versionMap (floats : Floats V) (contents : Contents V) : Assoc V (AndroidVersion V) :=
  androidVersionMap floats contents.versions

def Contents.branches (floats : Floats V) (contents : Contents V) : List (ROMBranch V) :=
  contents.allRoms.flatMap (romBranches floats (contents.versionMap floats))

def Contents.branchMap (floats : Floats V) (contents : Contents V) : Assoc Bytes (ROMBranch V) :=
  Assoc.empty.insertAll ((contents.branches floats).map (keyed floats))

theorem find?_versionMap (version : V) :
    (contents.versionMap floats).find? (floats.value version) =
      (contents.versions.reverse.find? fun known =>
        floats.value known.version = floats.value version).map (androidVersion floats) := by
  rw [Contents.versionMap, androidVersionMap, Assoc.find?_insertAll, Assoc.last?_map,
    Assoc.find?_empty, Option.or_none]

theorem known_iff {rom : ParseFiles.ROM V} : Known floats (contents.versionMap floats) rom ↔
    ∀ branch ∈ rom.branches, ∃ version ∈ contents.versions,
      floats.value version.version = floats.value branch.androidVersion := by
  refine forall₂_congr fun branch _ => ?_
  rw [find?_versionMap, ← Option.isSome_iff_exists, Option.isSome_map, List.find?_isSome]
  simp only [List.mem_reverse, decide_eq_true_eq]

theorem find?_branchMap (key : Bytes) : (contents.branchMap floats).find? key =
    (contents.branches floats).reverse.find? fun branch =>
      makeKey floats branch.romInfo.name branch.androidVersion.version = key := by
  have hkeyed : keyed floats = fun branch =>
    (makeKey floats branch.romInfo.name branch.androidVersion.version, branch) := rfl
  rw [Contents.branchMap, Assoc.find?_insertAll, hkeyed, Assoc.last?_map, Assoc.find?_empty,
    Option.or_none, Option.map_id']

theorem romVersions_eq : contents.romVersions floats = (contents.branches floats).map
    fun branch => (branch.romInfo.name, branch.androidVersion.version) := by
  rw [Contents.romVersions, Contents.branches, List.map_flatMap]
  refine congrArg (contents.allRoms.flatMap ·) (funext fun rom => ?_)
  rw [romBranches, List.map_filterMap]
  refine congrArg (rom.branches.filterMap ·) (funext fun branch => ?_)
  rw [find?_versionMap, Contents.versionOf, Option.map_map, Option.map_map, Option.map_map]
  rfl

theorem toldApart_iff {name : Bytes} {version : V} : ToldApart floats contents name version ↔
    ∃ branch, (contents.branchMap floats).find? (makeKey floats name version) = some branch ∧
      branch.romInfo.name = name ∧ branch.androidVersion.version = version := by
  rw [ToldApart, romVersions_eq, ← List.map_reverse, List.find?_map, find?_branchMap,
    Option.map_eq_some_iff]
  simp only [Prod.mk.injEq]
  rfl

-- A branch is under the key that its ROM and version make.
theorem key_of_find?_branchMap {key : Bytes} {branch : ROMBranch V}
    (h : (contents.branchMap floats).find? key = some branch) :
    makeKey floats branch.romInfo.name branch.androidVersion.version = key := by
  rw [find?_branchMap] at h
  simpa using List.find?_some h

end Maps

section Devices

variable {V : Type} {regexMatch : Bytes → Bytes → Option Bool} {contents : Contents V}

theorem mem_deviceMap {codename : Bytes} {device : Device}
    (h : (codename, device) ∈ (deviceMap contents.targets).members) :
    ∃ target ∈ contents.targets,
      (codename, device) = (target.codename, ⟨target.codename, target.name⟩) := by
  have hfind := Assoc.find?_eq_some.mpr h
  rw [deviceMap, Assoc.find?_insertAll, Assoc.find?_empty, Option.or_none] at hfind
  obtain ⟨target, htarget, heq⟩ := List.mem_map.mp (Assoc.mem_of_last? hfind)
  exact ⟨target, htarget, heq.symm⟩

theorem exists_device {target : ParseFiles.Device} (h : target ∈ contents.targets) :
    ∃ device, (target.codename, device) ∈ (deviceMap contents.targets).members := by
  obtain ⟨device, hdevice⟩ : ∃ device, Assoc.last? (contents.targets.map fun target =>
      (target.codename, (⟨target.codename, target.name⟩ : Device))) target.codename =
        some device :=
    Assoc.exists_last? (by
      rw [List.map_map]
      exact List.mem_map_of_mem h)
  refine ⟨device, Assoc.find?_eq_some.mp ?_⟩
  rw [deviceMap, Assoc.find?_insertAll, hdevice]
  rfl

theorem lists_selectDevices (device : Bytes) (useRegex : Bool) :
    Lists regexMatch contents device useRegex
      (selectDevices regexMatch (deviceMap contents.targets) device useRegex) := by
  have hcodename : ∀ p ∈ (deviceMap contents.targets).members, p.2.codename = p.1 := by
    rintro ⟨codename, listed⟩ hp
    obtain ⟨target, -, heq⟩ := mem_deviceMap hp
    cases heq
    rfl
  have hmap : (selectDevices regexMatch (deviceMap contents.targets) device useRegex).map
      Device.codename = ((deviceMap contents.targets).members.filter fun p =>
        selects regexMatch device useRegex p.1).map Prod.fst := by
    rw [selectDevices, List.map_map]
    exact List.map_congr_left fun p hp => hcodename p (List.mem_filter.mp hp).1
  constructor
  · rw [hmap]
    exact (deviceMap contents.targets).nodup.sublist (List.filter_sublist.map _)
  · intro listed hlisted
    obtain ⟨⟨codename, device⟩, hp, rfl⟩ := List.mem_map.mp hlisted
    obtain ⟨target, htarget, heq⟩ := mem_deviceMap (List.mem_filter.mp hp).1
    exact ⟨target, htarget, (Prod.mk.inj heq).2⟩
  · intro codename
    rw [hmap]
    constructor
    · intro h
      obtain ⟨⟨codename', listed⟩, hp, rfl⟩ := List.mem_map.mp h
      obtain ⟨hmem, hselects⟩ := List.mem_filter.mp hp
      obtain ⟨target, htarget, heq⟩ := mem_deviceMap hmem
      cases heq
      exact ⟨List.mem_map_of_mem htarget, hselects⟩
    · rintro ⟨hmem, hselects⟩
      obtain ⟨target, htarget, rfl⟩ := List.mem_map.mp hmem
      obtain ⟨listed, hlisted⟩ := exists_device htarget
      exact List.mem_map.mpr ⟨_, List.mem_filter.mpr ⟨hlisted, hselects⟩, rfl⟩

end Devices

section Parsed

variable {V : Type} [DecidableEq V] {floats : Floats V} {regexMatch : Bytes → Bytes → Option Bool}
  {parse : Bytes → Except Thrown Json} {contents : Contents V} {dir : ConfigDir}

omit [DecidableEq V] in
theorem mem_parseManifest {devices : Assoc Bytes Device} {map : Assoc Bytes (ROMBranch V)}
    {manifest : ParseFiles.Manifest V} {entry : LocalManifest V} :
    entry ∈ parseManifest floats regexMatch devices map manifest ↔
      ∃ branch ∈ manifest.branches, ∃ rom,
        map.find? (makeKey floats branch.targetRom branch.androidVersion) = some rom ∧
          entry = ⟨manifest.name, rom,
            selectDevices regexMatch devices branch.device branch.useRegex⟩ := by
  simp only [parseManifest, List.mem_filterMap, Option.map_eq_some_iff, @eq_comm _ entry]

omit [DecidableEq V] in
theorem mem_parseRecoveryManifest {devices : Assoc Bytes Device}
    {map : Assoc Bytes (ROMBranch V)} {manifest : ParseFiles.RecoveryManifest V}
    {entry : LocalManifest V} :
    entry ∈ parseRecoveryManifest floats regexMatch devices map manifest ↔
      ∃ device ∈ selectDevices regexMatch devices manifest.device manifest.useRegex, ∃ rom,
        map.find? (makeKey floats manifest.targetRecovery manifest.androidVersion) = some rom ∧
          entry = ⟨manifest.name, rom, [device]⟩ := by
  simp only [parseRecoveryManifest, List.mem_filterMap, Option.map_eq_some_iff, @eq_comm _ entry]

def parsedManifests (floats : Floats V) (regexMatch : Bytes → Bytes → Option Bool)
    (parse : Bytes → Except Thrown Json) (contents : Contents V) (dir : ConfigDir) :
    List (LocalManifest V) :=
  (manifests floats parse dir).flatMap
      (parseManifest floats regexMatch (deviceMap contents.targets) (contents.branchMap floats)) ++
    (recoveryManifests floats parse dir).flatMap (parseRecoveryManifest floats regexMatch
      (deviceMap contents.targets) (contents.branchMap floats))

-- Everything in the result was found in the map by the key of its own ROM and version.
theorem find?_of_mem_parsed {entry : LocalManifest V}
    (h : entry ∈ parsedManifests floats regexMatch parse contents dir) :
    (contents.branchMap floats).find? (makeKey floats entry.rom.romInfo.name
      entry.rom.androidVersion.version) = some entry.rom := by
  obtain ⟨key, hkey⟩ : ∃ key, (contents.branchMap floats).find? key = some entry.rom := by
    rcases List.mem_append.mp h with h | h
    · obtain ⟨manifest, -, hentry⟩ := List.mem_flatMap.mp h
      obtain ⟨branch, -, rom, hfind, rfl⟩ := mem_parseManifest.mp hentry
      exact ⟨_, hfind⟩
    · obtain ⟨manifest, -, hentry⟩ := List.mem_flatMap.mp h
      obtain ⟨device, -, rom, hfind, rfl⟩ := mem_parseRecoveryManifest.mp hentry
      exact ⟨_, hfind⟩
  rw [key_of_find?_branchMap hkey]
  exact hkey

theorem toldApart_of_mem_parsed {entry : LocalManifest V} {name targetRom : Bytes} {version : V}
    (h : entry ∈ parsedManifests floats regexMatch parse contents dir)
    (hentry : IsEntry name targetRom version entry) :
    ToldApart floats contents targetRom version := by
  have hfind := find?_of_mem_parsed h
  rw [hentry.rom, hentry.version] at hfind
  exact toldApart_iff.mpr ⟨entry.rom, hfind, hentry.rom, hentry.version⟩

theorem exists_entry {manifest : ParseFiles.Manifest V} {branch : ParseFiles.Manifest.Branches V}
    (hmanifest : manifest ∈ manifests floats parse dir) (hbranch : branch ∈ manifest.branches)
    (h : ToldApart floats contents branch.targetRom branch.androidVersion) :
    ∃ entry ∈ parsedManifests floats regexMatch parse contents dir,
      IsEntry manifest.name branch.targetRom branch.androidVersion entry ∧
        Lists regexMatch contents branch.device branch.useRegex entry.devices := by
  obtain ⟨rom, hfind, hname, hversion⟩ := toldApart_iff.mp h
  refine ⟨_, List.mem_append_left _ (List.mem_flatMap.mpr ⟨manifest, hmanifest,
    mem_parseManifest.mpr ⟨branch, hbranch, rom, hfind, rfl⟩⟩), ⟨rfl, hname, hversion⟩, ?_⟩
  exact lists_selectDevices branch.device branch.useRegex

theorem exists_recovery_entry {manifest : ParseFiles.RecoveryManifest V}
    {target : ParseFiles.Device} (hmanifest : manifest ∈ recoveryManifests floats parse dir)
    (htarget : target ∈ contents.targets)
    (hselects : selects regexMatch manifest.device manifest.useRegex target.codename = true)
    (h : ToldApart floats contents manifest.targetRecovery manifest.androidVersion) :
    ∃ entry ∈ parsedManifests floats regexMatch parse contents dir,
      IsEntry manifest.name manifest.targetRecovery manifest.androidVersion entry ∧
        entry.devices.map Device.codename = [target.codename] := by
  obtain ⟨rom, hfind, hname, hversion⟩ := toldApart_iff.mp h
  have hlists : Lists regexMatch contents manifest.device manifest.useRegex _ :=
    lists_selectDevices manifest.device manifest.useRegex
  obtain ⟨device, hdevice, hcodename⟩ := List.mem_map.mp
    ((hlists.selected target.codename).mpr ⟨List.mem_map_of_mem htarget, hselects⟩)
  refine ⟨_, List.mem_append_right _ (List.mem_flatMap.mpr ⟨manifest, hmanifest,
    mem_parseRecoveryManifest.mpr ⟨device, hdevice, rom, hfind, rfl⟩⟩),
    ⟨rfl, hname, hversion⟩, ?_⟩
  exact congrArg (fun codename => [codename]) hcodename

end Parsed

section Merging

variable {V : Type} [DecidableEq V] {floats : Floats V} {regexMatch : Bytes → Bytes → Option Bool}
  {parse : Bytes → Except Thrown Json} {contents : Contents V} {dir : ConfigDir}

theorem bind_eq_ok {ε α β : Type} {x : Except ε α} {f : α → Except ε β} {b : β} :
    (x >>= f) = .ok b ↔ ∃ a, x = .ok a ∧ f a = .ok b := by
  cases x with
  | error e => exact ⟨nofun, nofun⟩
  | ok a =>
    constructor
    · exact fun h => ⟨a, rfl, h⟩
    · rintro ⟨a', ⟨⟩, h⟩
      exact h

-- What is checked while the files at the top are put into the maps.
theorem addRoms_contents {map : Assoc Bytes (ROMBranch V)} :
    (∃ first, addRoms floats (contents.versionMap floats) contents.roms .empty = .ok first ∧
      addRoms floats (contents.versionMap floats) contents.recoveries first = .ok map) ↔
      (∀ rom ∈ contents.allRoms, ∀ branch ∈ rom.branches, ∃ version ∈ contents.versions,
        floats.value version.version = floats.value branch.androidVersion) ∧
        map = contents.branchMap floats := by
  have happend : addRoms floats (contents.versionMap floats) contents.allRoms .empty = _ :=
    addRoms_append contents.roms contents.recoveries .empty
  rw [← bind_eq_ok]
  change Except.bind _ _ = _ ↔ _
  rw [← happend, addRoms_eq_ok]
  refine and_congr (forall₂_congr fun rom _ => known_iff) Iff.rfl

theorem scanManifests_eq_ok {parsed : List (LocalManifest V)} :
    (∃ ok, scanManifests floats regexMatch parse (deviceMap contents.targets)
      (contents.branchMap floats) dir.manifest = .ok (ok, parsed)) ↔
      (∀ entry ∈ dir.manifestFiles, Readable parse (ParseFiles.Manifest.fromJson floats) entry) ∧
      (∀ entry ∈ dir.recoveryFiles,
        Readable parse (ParseFiles.RecoveryManifest.fromJson floats) entry) ∧
      parsed = parsedManifests floats regexMatch parse contents dir := by
  unfold parsedManifests manifests recoveryManifests ConfigDir.manifestFiles ConfigDir.recoveryFiles
  cases dir.manifest with
  | none =>
    constructor
    · rintro ⟨ok, ⟨⟩⟩
      exact ⟨nofun, nofun, rfl⟩
    · rintro ⟨-, -, rfl⟩
      exact ⟨false, rfl⟩
  | some manifest =>
    obtain ⟨entries, recovery⟩ := manifest
    cases recovery with
    | none =>
      simp only [scanManifests, bind_eq_ok, scan_eq_ok, List.nil_append]
      constructor
      · rintro ⟨ok, found, ⟨hreadable, hfound⟩, ⟨⟩⟩
        exact ⟨hreadable, nofun, hfound.trans (List.append_nil _).symm⟩
      · rintro ⟨hreadable, -, hparsed⟩
        exact ⟨false, parsed, ⟨hreadable, hparsed.trans (List.append_nil _)⟩, rfl⟩
    | some recovery =>
      simp only [scanManifests, bind_eq_ok, scan_eq_ok, List.nil_append]
      constructor
      · rintro ⟨ok, found, ⟨hreadable, rfl⟩, all, ⟨hrecovery, hall⟩, ⟨⟩⟩
        exact ⟨hreadable, hrecovery, hall⟩
      · rintro ⟨hreadable, hrecovery, hparsed⟩
        exact ⟨_, _, ⟨hreadable, rfl⟩, parsed, ⟨hrecovery, hparsed⟩, rfl⟩

variable (regexMatch) in
theorem merge_eq_ok (h : HasShape floats parse dir contents) {parsed : List (LocalManifest V)} :
    (∃ ok, merge floats regexMatch parse dir = .ok (ok, parsed)) ↔
      (∀ rom ∈ contents.allRoms, ∀ branch ∈ rom.branches, ∃ version ∈ contents.versions,
        floats.value version.version = floats.value branch.androidVersion) ∧
      (∀ entry ∈ dir.manifestFiles, Readable parse (ParseFiles.Manifest.fromJson floats) entry) ∧
      (∀ entry ∈ dir.recoveryFiles,
        Readable parse (ParseFiles.RecoveryManifest.fromJson floats) entry) ∧
      parsed = parsedManifests floats regexMatch parse contents dir := by
  rw [← scanManifests_eq_ok]
  simp only [merge, h.targets, h.versions, h.roms, h.recoveries, bind_eq_ok, Except.ok.injEq,
    exists_eq_left']
  constructor
  · rintro ⟨ok, first, hfirst, map, hmap, hscan⟩
    obtain ⟨hknown, rfl⟩ := addRoms_contents.mp ⟨first, hfirst, hmap⟩
    exact ⟨hknown, ok, hscan⟩
  · rintro ⟨hknown, ok, hscan⟩
    obtain ⟨first, hfirst, hmap⟩ := addRoms_contents.mpr ⟨hknown, rfl⟩
    exact ⟨ok, first, hfirst, _, hmap, hscan⟩

theorem merges_iff (h : HasShape floats parse dir contents) :
    Merges floats regexMatch parse contents dir ↔
      Consistent floats regexMatch parse contents dir := by
  constructor
  · rintro ⟨ok, parsed, hok, hlisted⟩
    obtain ⟨hknown, hreadable, hrecovery, rfl⟩ := (merge_eq_ok regexMatch h).mp ⟨ok, hok⟩
    constructor
    case known => exact hknown
    case readable => exact hreadable
    case readableRecovery => exact hrecovery
    case toldApart =>
      intro manifest hmanifest branch hbranch hoccurs
      obtain ⟨entry, hmem, hentry, -⟩ :=
        hlisted.manifests manifest hmanifest branch hbranch hoccurs
      exact toldApart_of_mem_parsed hmem hentry
    case toldApartRecovery =>
      rintro manifest hmanifest hoccurs ⟨target, htarget, hselects⟩
      obtain ⟨entry, hmem, hentry, -⟩ :=
        hlisted.recoveries manifest hmanifest hoccurs target htarget hselects
      exact toldApart_of_mem_parsed hmem hentry
  · intro hconsistent
    obtain ⟨ok, hok⟩ := (merge_eq_ok regexMatch h).mpr ⟨hconsistent.known,
      hconsistent.readable, hconsistent.readableRecovery, rfl⟩
    refine ⟨ok, _, hok, ?manifests, ?recoveries⟩
    case manifests =>
      intro manifest hmanifest branch hbranch hoccurs
      exact exists_entry hmanifest hbranch
        (hconsistent.toldApart manifest hmanifest branch hbranch hoccurs)
    case recoveries =>
      intro manifest hmanifest hoccurs target htarget hselects
      exact exists_recovery_entry hmanifest htarget hselects
        (hconsistent.toldApartRecovery manifest hmanifest hoccurs ⟨target, htarget, hselects⟩)

end Merging

section Sample

def sampleFloats : Floats ℤ where
  ofText text := if text = ascii "14" then 14 else 0
  ofBool b := if b then 1 else 0
  value v := v
  format v := ascii (toString v)

def targetsText : Bytes :=
  ascii "[\x7b\"codename\":\"a\",\"name\":\"A\",\"manufacturer\":\"S\"\x7d]"

def versionsText : Bytes :=
  ascii "[\x7b\"version\":14,\"codename_short\":\"U\",\"codename\":\"Up\"\x7d]"

def romsText : Bytes :=
  ascii "[\x7b\"name\":\"R\",\"link\":\"l\",\"target\":\"t\",\"artifact\":\x7b\"matcher\":\"m\"," ++
    ascii "\"data\":\"d\"\x7d,\"branches\":[\x7b\"android_version\":14,\"branch\":\"b\"\x7d]\x7d]"

def manifestText : Bytes :=
  ascii "\x7b\"name\":\"M\",\"url\":\"u\",\"branches\":[\x7b\"name\":\"n\",\"target_rom\":\"R\"," ++
    ascii "\"android_version\":14,\"device\":\"a\",\"use_regex\":false\x7d]\x7d"

def textMember (key value : String) : Bytes × Json := (ascii key, .string (ascii value))

-- The texts that are used here; nothing else is JSON.
def sampleTexts : List (Bytes × Json) :=
  [(ascii "[]", .array []), (ascii "\x7b\x7d", .object []),
    (targetsText, .array [.object [textMember "codename" "a", textMember "name" "A",
      textMember "manufacturer" "S"]]),
    (versionsText, .array [.object [(ascii "version", .number (ascii "14")),
      textMember "codename_short" "U", textMember "codename" "Up"]]),
    (romsText, .array [.object [textMember "name" "R", textMember "link" "l",
      textMember "target" "t",
      (ascii "artifact", .object [textMember "matcher" "m", textMember "data" "d"]),
      (ascii "branches", .array [.object [(ascii "android_version", .number (ascii "14")),
        textMember "branch" "b"]])]]),
    (manifestText, .object [textMember "name" "M", textMember "url" "u",
      (ascii "branches", .array [.object [textMember "name" "n", textMember "target_rom" "R",
        (ascii "android_version", .number (ascii "14")), textMember "device" "a",
        (ascii "use_regex", .bool false)]])])]

def sampleParse (content : Bytes) : Except Thrown Json :=
  match sampleTexts.lookup content with
  | some j => .ok j
  | none => .error (.parseError (ascii "unexpected end of input"))

-- A manifest beside a file that is cut off.
def mergedDir : ConfigDir where
  targets := targetsText
  versions := versionsText
  roms := romsText
  recoveries := ascii "[]"
  manifest := some
    ⟨[⟨ascii "cut.json", true, ascii "\x7b"⟩, ⟨ascii "m.json", true, manifestText⟩], some []⟩

def mergedContents : Contents ℤ :=
  ⟨[⟨ascii "a", ascii "A", ascii "S"⟩], [⟨14, ascii "U", ascii "Up"⟩],
    [⟨ascii "R", ascii "l", ascii "t", ⟨ascii "m", ascii "d"⟩, [⟨14, ascii "b"⟩]⟩], []⟩

theorem merges_iff_mergedDir :
    Merges sampleFloats (fun _ _ => none) sampleParse mergedContents mergedDir := by
  have hshape : HasShape sampleFloats sampleParse mergedDir mergedContents :=
    ⟨rfl, rfl, rfl, rfl⟩
  have hmanifests : manifests sampleFloats sampleParse mergedDir =
      [⟨ascii "M", ascii "u", [⟨ascii "n", ascii "R", 14, ascii "a", false⟩]⟩] := by
    decide +kernel
  refine (merges_iff hshape).mpr ⟨by decide, ?_, nofun, ?_, nofun⟩
  · intro entry hentry _ text
    rcases List.mem_pair.mp hentry with rfl | rfl
    · nofun
    · nofun
  · intro manifest hmanifest branch hbranch _
    rw [hmanifests, List.mem_singleton] at hmanifest
    subst hmanifest
    obtain rfl := List.mem_singleton.mp hbranch
    rw [ToldApart]
    decide +kernel

-- A manifest that is an object without members, beside a file that is cut off.
def sampleDir : ConfigDir where
  targets := ascii "[]"
  versions := ascii "[]"
  roms := ascii "[]"
  recoveries := ascii "[]"
  manifest := some
    ⟨[⟨ascii "cut.json", true, ascii "\x7b"⟩, ⟨ascii "empty.json", true, ascii "\x7b\x7d"⟩], some []⟩

theorem hasShape_sampleDir : HasShape sampleFloats sampleParse sampleDir ⟨[], [], [], []⟩ :=
  ⟨rfl, rfl, rfl, rfl⟩

theorem not_merges_malformed : ¬∀ (dir : ConfigDir) (contents : Contents ℤ),
    HasShape sampleFloats sampleParse dir contents →
      Merges sampleFloats (fun _ _ => none) sampleParse contents dir := by
  intro h
  obtain ⟨ok, parsed, hmerge, -⟩ := h sampleDir _ hasShape_sampleDir
  have hthrown : (merge sampleFloats (fun _ _ => none) sampleParse sampleDir).toOption = none := by
    decide +kernel
  rw [hmerge] at hthrown
  cases hthrown

end Sample

end Glider.AndroidConfig

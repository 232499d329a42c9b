import Glider.RomConfig.Buildable
import Mathlib.Logic.Function.Basic

namespace Glider.RomConfig

open Glider.Lib

variable {V : Type}

-- An entry of `versions.json`, which only the bot reads.
structure Version (V : Type) where
  version : V
  codenameShort : String
  codename : String

namespace ConfigParser

structure ROMInfo where
  name : String
  url : String
  target : String
  artifact : ROMArtifactEntry

structure AndroidVersion (V : Type) where
  version : V
  name : String

structure ROMBranch (V : Type) where
  branch : String
  androidVersion : AndroidVersion V
  romInfo : ROMInfo

structure Device where
  codename : String
  marketName : String

structure LocalManifest (V : Type) where
  name : String
  rom : ROMBranch V
  devices : List Device

-- The order in which the devices are iterated over is that of the list.
abbrev DeviceMap := List (String × Device)

abbrev RomBranchMap (V : Type) := String → Option (ROMBranch V)

def addDevice (map : DeviceMap) (device : TargetsEntry) : DeviceMap :=
  (device.codename, ⟨device.codename, device.name⟩) :: map.filter (·.1 != device.codename)

variable [BEq V] [ToString V]

-- `fmt::format("{}-{}", name, androidVersion)`.
def makeKey (name : String) (androidVersion : V) : String := s!"{name}-{androidVersion}"

def addVersion (map : V → Option (AndroidVersion V)) (version : Version V) :
    V → Option (AndroidVersion V) := fun v =>
  if v == version.version then
    some ⟨version.version, s!"{version.codename} ({version.codenameShort},{version.version})"⟩
  else map v

-- A version that is not in `versions.json` leaves a null pointer, and its use is undefined.
def addBranch (versions : V → Option (AndroidVersion V)) (rom : ROMEntry V) (map : RomBranchMap V)
    (branch : ROMBranchEntry V) : Option (RomBranchMap V) :=
  (versions branch.androidVersion).map fun androidVersion =>
    Function.update map (makeKey rom.name androidVersion.version)
      (some ⟨branch.branch, androidVersion, rom.name, rom.link, rom.target, rom.artifact⟩)

def addRom (versions : V → Option (AndroidVersion V)) (map : RomBranchMap V) (rom : ROMEntry V) :
    Option (RomBranchMap V) :=
  rom.branches.foldlM (addBranch versions rom) map

-- The device test of `parse_manifest` and `parse_recoverymanifest`.
def lists (regex : Regex) (device : String) (useRegex : Bool) (codename : String) : Bool :=
  if useRegex then (regex device).toOption.any (·.wholeMatch codename) else codename == device

variable (regex : Regex) (devices : DeviceMap) (romBranches : RomBranchMap V)

def parseBranch (manifest : ManifestEntry V) (branch : ManifestBranchesEntry V) :
    Option (LocalManifest V) :=
  (romBranches (makeKey branch.targetRom branch.androidVersion)).map fun rom =>
    ⟨manifest.name, rom,
      (devices.filter fun device => lists regex branch.device branch.useRegex device.1).map (·.2)⟩

def parseManifest (manifest : ManifestEntry V) : List (LocalManifest V) :=
  manifest.branches.filterMap (parseBranch regex devices romBranches manifest)

-- Every device gets a local manifest of its own.
def parseRecoveryManifest (manifest : RecoveryManifestEntry V) : List (LocalManifest V) :=
  devices.filterMap fun device =>
    if lists regex manifest.device manifest.useRegex device.1 then
      (romBranches (makeKey manifest.targetRecovery manifest.androidVersion)).map fun rom =>
        ⟨manifest.name, rom, [device.2]⟩
    else none

end ConfigParser

open ConfigParser

-- What `merge` has read. `parsedManifests` is what the bot offers.
structure ConfigParser (V : Type) where
  deviceMap : DeviceMap
  romBranchMap : RomBranchMap V
  parsedManifests : List (LocalManifest V)

def ConfigParser.merge [BEq V] [ToString V] (regex : Regex) (config : ROMBuildConfig V)
    (versions : List (Version V)) : Option (ConfigParser V) := do
  let deviceMap := config.targets.foldl addDevice []
  let versionMap := versions.foldl addVersion fun _ => none
  let romBranchMap ← (config.roms ++ config.recoveries).foldlM (addRom versionMap) fun _ => none
  return {
    deviceMap
    romBranchMap
    parsedManifests := config.manifests.flatMap (parseManifest regex deviceMap romBranchMap) ++
      config.recoveryManifests.flatMap (parseRecoveryManifest regex deviceMap romBranchMap) }

-- A branch of a manifest, or a recovery manifest.
inductive Listing (V : Type) where
  | branch (manifest : ManifestEntry V) (branch : ManifestBranchesEntry V)
  | recovery (manifest : RecoveryManifestEntry V)

def ROMBuildConfig.listings (config : ROMBuildConfig V) : List (Listing V) :=
  config.manifests.flatMap (fun manifest => manifest.branches.map (.branch manifest)) ++
    config.recoveryManifests.map .recovery

namespace Listing

-- The device test of the resolver. It has none for a recovery manifest.
def accepts (regex : Regex) : Listing V → String → Bool
  | .branch _ entry, codename => admits regex entry.device entry.useRegex codename
  | .recovery _, _ => true

variable [ToString V]

-- The local manifests that the bot makes of it.
def parse (regex : Regex) (parser : ConfigParser V) : Listing V → List (LocalManifest V)
  | .branch manifest entry =>
    (parseBranch regex parser.deviceMap parser.romBranchMap manifest entry).toList
  | .recovery manifest =>
    parseRecoveryManifest regex parser.deviceMap parser.romBranchMap manifest

def codenames (regex : Regex) (parser : ConfigParser V) (listing : Listing V) : List String :=
  (listing.parse regex parser).flatMap fun localManifest => localManifest.devices.map (·.codename)

-- Every target that the expression is found in, or that is spelled like it, matches as a whole; and
-- every target whatever is one of a recovery manifest.
def Unequivocal (regex : Regex) (targets : List TargetsEntry) : Listing V → Prop
  | .branch _ entry => entry.useRegex = true → ∀ device ∈ targets,
      entry.device = device.codename ∨
          (regex entry.device).toOption.any (·.search device.codename) = true →
        (regex entry.device).toOption.any (·.wholeMatch device.codename) = true
  | .recovery manifest => ∀ device ∈ targets,
      if manifest.useRegex then
        (regex manifest.device).toOption.any (·.wholeMatch device.codename) = true
      else device.codename = manifest.device

end Listing

section Maps

variable {regex : Regex} {config : ROMBuildConfig V} {versions : List (Version V)}
  {parser : ConfigParser V}

-- The map has the targets under their codenames.
theorem mem_addDevice (targets : List TargetsEntry) (map : DeviceMap)
    (hmap : ∀ entry ∈ map, entry.2.codename = entry.1) :
    (∀ entry ∈ targets.foldl addDevice map, entry.2.codename = entry.1) ∧
      ∀ codename, codename ∈ (targets.foldl addDevice map).map (·.1) ↔
        codename ∈ map.map (·.1) ∨ codename ∈ targets.map (·.codename) := by
  induction targets generalizing map with
  | nil => exact ⟨hmap, fun codename => by simp⟩
  | cons device targets ih =>
    have hadded : ∀ entry ∈ addDevice map device, entry.2.codename = entry.1 := by
      intro entry hentry
      obtain rfl | hentry := List.mem_cons.mp hentry
      · rfl
      · exact hmap entry (List.mem_filter.mp hentry).1
    obtain ⟨hnamed, hmem⟩ := ih (addDevice map device) hadded
    refine ⟨hnamed, fun codename => ?_⟩
    rw [List.foldl_cons, hmem codename]
    by_cases heq : codename = device.codename
    · simp [addDevice, heq]
    · simp [addDevice, heq]

variable [BEq V] [ToString V]

theorem merge_eq_some (h : ConfigParser.merge regex config versions = some parser) :
    parser.deviceMap = config.targets.foldl addDevice [] ∧
      (config.roms ++ config.recoveries).foldlM
          (addRom (versions.foldl addVersion fun _ => none)) (fun _ => none) =
        some parser.romBranchMap := by
  obtain ⟨romBranchMap, hmap, h⟩ := Option.bind_eq_some_iff.mp h
  obtain rfl := Option.some.inj h
  exact ⟨rfl, hmap⟩

theorem version_addVersion [LawfulBEq V] (map : V → Option (AndroidVersion V))
    (hmap : ∀ v found, map v = some found → found.version = v) (versions : List (Version V)) :
    ∀ v found, versions.foldl addVersion map v = some found → found.version = v := by
  induction versions generalizing map with
  | nil => exact hmap
  | cons version versions ih =>
    refine ih _ fun v found hfound => ?_
    unfold addVersion at hfound
    split at hfound
    · next hversion =>
      obtain rfl := Option.some.inj hfound
      exact (eq_of_beq hversion).symm
    · exact hmap v found hfound

omit [BEq V] in
-- A key that was entered stays.
theorem addBranch_keeps {table : V → Option (AndroidVersion V)} {rom : ROMEntry V} (key : String)
    (map : RomBranchMap V) (branch : ROMBranchEntry V) (map' : RomBranchMap V)
    (h : addBranch table rom map branch = some map') (hkey : map key ≠ none) : map' key ≠ none := by
  obtain ⟨found, -, rfl⟩ := Option.map_eq_some_iff.mp h
  by_cases heq : key = makeKey rom.name found.version
  · simp [heq]
  · rwa [Function.update_of_ne heq]

theorem addRom_enters [LawfulBEq V] {table : V → Option (AndroidVersion V)}
    (htable : ∀ v found, table v = some found → found.version = v) {roms : List (ROMEntry V)}
    {map map' : RomBranchMap V} (h : roms.foldlM (addRom table) map = some map')
    {rom : ROMEntry V} (hrom : rom ∈ roms) {branch : ROMBranchEntry V}
    (hbranch : branch ∈ rom.branches) : map' (makeKey rom.name branch.androidVersion) ≠ none := by
  refine foldlM_reaches (P := fun map => map (makeKey rom.name branch.androidVersion) ≠ none)
    (fun map other map' hadd hkey => ?_) (fun map map' hadd => ?_) hrom h
  · exact foldlM_keeps (addBranch_keeps _) hadd hkey
  · refine foldlM_reaches (addBranch_keeps _) (fun map map' hadd => ?_) hbranch hadd
    obtain ⟨found, hfound, rfl⟩ := Option.map_eq_some_iff.mp hadd
    rw [htable _ _ hfound]
    simp

-- The ROM of a reference that was validated is found by the bot.
theorem romBranchMap_ne_none [LawfulBEq V]
    (h : ConfigParser.merge regex config versions = some parser) {entries : List (ROMEntry V)}
    (hentries : ∀ entry ∈ entries, entry ∈ config.roms ++ config.recoveries) {target : String}
    {androidVersion : V} {device : String} {useRegex : Bool}
    (hrefers : Refers regex entries config.targets target androidVersion device useRegex) :
    parser.romBranchMap (makeKey target androidVersion) ≠ none := by
  obtain ⟨entry, hentry, hversion⟩ := hrefers.entry
  obtain ⟨hmem, rfl⟩ := name_of_filter hentry
  obtain ⟨branch, hbranch, heq⟩ := List.any_eq_true.mp hversion
  obtain rfl := eq_of_beq heq
  have htable := version_addVersion (fun _ => none) nofun versions
  exact addRom_enters htable (merge_eq_some h).2 (hentries entry hmem) hbranch

end Maps

section Agreement

variable [BEq V] [ToString V] {regex : Regex} {config : ROMBuildConfig V}
  {versions : List (Version V)} {parser : ConfigParser V}

theorem mem_codenames_branch {manifest : ManifestEntry V} {branch : ManifestBranchesEntry V}
    (hmerge : ConfigParser.merge regex config versions = some parser)
    (hrom : parser.romBranchMap (makeKey branch.targetRom branch.androidVersion) ≠ none)
    (codename : String) :
    codename ∈ (Listing.branch manifest branch).codenames regex parser ↔
      codename ∈ config.targets.map (·.codename) ∧
        lists regex branch.device branch.useRegex codename = true := by
  obtain ⟨rom, hrom⟩ := Option.ne_none_iff_exists'.mp hrom
  obtain ⟨hnamed, hmem⟩ := mem_addDevice config.targets [] nofun
  rw [← (merge_eq_some hmerge).1] at hnamed hmem
  have htarget := hmem codename
  simp only [List.map_nil, List.not_mem_nil, false_or] at htarget
  rw [← htarget]
  simp only [Listing.codenames, Listing.parse, parseBranch, hrom, Option.map_some,
    Option.toList_some, List.flatMap_cons, List.flatMap_nil, List.append_nil, List.mem_map,
    List.mem_filter, exists_exists_and_eq_and]
  constructor
  · rintro ⟨entry, ⟨hentry, hlists⟩, rfl⟩
    rw [hnamed entry hentry]
    exact ⟨⟨entry, hentry, rfl⟩, hlists⟩
  · rintro ⟨⟨entry, hentry, rfl⟩, hlists⟩
    exact ⟨entry, ⟨hentry, hlists⟩, hnamed entry hentry⟩

theorem mem_codenames_recovery {manifest : RecoveryManifestEntry V}
    (hmerge : ConfigParser.merge regex config versions = some parser)
    (hrom : parser.romBranchMap (makeKey manifest.targetRecovery manifest.androidVersion) ≠ none)
    (codename : String) :
    codename ∈ (Listing.recovery manifest).codenames regex parser ↔
      codename ∈ config.targets.map (·.codename) ∧
        lists regex manifest.device manifest.useRegex codename = true := by
  obtain ⟨rom, hrom⟩ := Option.ne_none_iff_exists'.mp hrom
  obtain ⟨hnamed, hmem⟩ := mem_addDevice config.targets [] nofun
  rw [← (merge_eq_some hmerge).1] at hnamed hmem
  have htarget := hmem codename
  simp only [List.map_nil, List.not_mem_nil, false_or] at htarget
  rw [← htarget]
  simp only [Listing.codenames, Listing.parse, parseRecoveryManifest, hrom, Option.map_some,
    List.mem_flatMap, List.mem_filterMap, List.mem_map]
  constructor
  · rintro ⟨localManifest, ⟨entry, hentry, hmade⟩, device, hdevice, rfl⟩
    obtain ⟨hlists, hmade⟩ := Option.ite_none_right_eq_some.mp hmade
    obtain rfl := Option.some.inj hmade
    obtain rfl := List.mem_singleton.mp hdevice
    rw [hnamed entry hentry]
    exact ⟨⟨entry, hentry, rfl⟩, hlists⟩
  · rintro ⟨⟨entry, hentry, rfl⟩, hlists⟩
    exact ⟨_, ⟨entry, hentry, if_pos hlists⟩, _, List.mem_singleton.mpr rfl, hnamed entry hentry⟩

-- The two tests of a branch.
theorem lists_iff_admits {device : String} {useRegex : Bool} {codename : String} :
    (lists regex device useRegex codename = true ↔ admits regex device useRegex codename = true) ↔
      (useRegex = true → device = codename ∨
          (regex device).toOption.any (·.search codename) = true →
        (regex device).toOption.any (·.wholeMatch codename) = true) := by
  cases useRegex with
  | false =>
    refine iff_of_true ?_ nofun
    simp only [lists, admits, Bool.false_eq_true, if_false, Bool.false_and, Bool.or_false,
      beq_iff_eq]
    exact eq_comm
  | true =>
    have hsearch : (regex device).toOption.any (·.wholeMatch codename) = true →
        (regex device).toOption.any (·.search codename) = true := by
      intro h
      obtain ⟨pattern, hpattern, hmatch⟩ := (Option.any_eq_true _ _).mp h
      exact (Option.any_eq_true _ _).mpr
        ⟨pattern, hpattern, Pattern.search_of_wholeMatch hmatch⟩
    simp only [lists, admits, if_true, Bool.true_and, Bool.or_eq_true, beq_iff_eq, true_imp_iff]
    exact ⟨fun h => h.mpr, fun h => ⟨fun hmatch => .inr (hsearch hmatch), h⟩⟩

-- Sets of codenames among the targets agree if the tests agree on every target.
theorem forall_mem_iff {targets : List TargetsEntry} {listed : List String} {p q : String → Bool}
    (hlisted : ∀ codename, codename ∈ listed ↔
      codename ∈ targets.map (·.codename) ∧ p codename = true) :
    (∀ codename, codename ∈ listed ↔
        codename ∈ targets.map (·.codename) ∧ q codename = true) ↔
      ∀ device ∈ targets, (p device.codename = true ↔ q device.codename = true) := by
  constructor
  · intro h device hdevice
    have hmem : device.codename ∈ targets.map (·.codename) := List.mem_map_of_mem hdevice
    have hboth := (hlisted device.codename).symm.trans (h device.codename)
    simpa [hmem] using hboth
  · intro h codename
    rw [hlisted]
    refine and_congr_right fun hmem => ?_
    obtain ⟨device, hdevice, rfl⟩ := List.mem_map.mp hmem
    exact h device hdevice

-- For every branch and recovery manifest, the codenames that the bot lists are those that the
-- resolver accepts, exactly if it is unequivocal.
theorem devices_agree_iff [LawfulBEq V] (hvalid : validate regex config = .ok ())
    (hmerge : ConfigParser.merge regex config versions = some parser) {listing : Listing V}
    (hlisting : listing ∈ config.listings) :
    (∀ codename, codename ∈ listing.codenames regex parser ↔
        codename ∈ config.targets.map (·.codename) ∧ listing.accepts regex codename = true) ↔
      listing.Unequivocal regex config.targets := by
  have hvalid := valid_of_validate hvalid
  obtain hlisting | hlisting := List.mem_append.mp hlisting
  · obtain ⟨manifest, hmanifest, hlisting⟩ := List.mem_flatMap.mp hlisting
    obtain ⟨branch, hbranch, rfl⟩ := List.mem_map.mp hlisting
    have hrom := romBranchMap_ne_none hmerge (fun _ => List.mem_append_left _)
      (hvalid.branches manifest hmanifest branch hbranch)
    rw [forall_mem_iff (mem_codenames_branch hmerge hrom)]
    simp only [Listing.accepts, lists_iff_admits, Listing.Unequivocal]
    exact ⟨fun h huse device hdevice => h device hdevice huse,
      fun h device hdevice huse => h huse device hdevice⟩
  · obtain ⟨manifest, hmanifest, rfl⟩ := List.mem_map.mp hlisting
    have hrom := romBranchMap_ne_none hmerge (fun _ => List.mem_append_right _)
      (hvalid.recoveryManifests manifest hmanifest)
    rw [forall_mem_iff (mem_codenames_recovery hmerge hrom)]
    simp only [Listing.accepts, iff_true, Listing.Unequivocal]
    refine forall₂_congr fun device _ => ?_
    unfold lists
    split
    · exact Iff.rfl
    · exact beq_iff_eq

end Agreement

namespace Sample

def versions : List (Version ℕ) := [⟨14, "u", "Upside Down Cake"⟩, ⟨15, "v", "Vanilla Ice Cream"⟩]

-- An expression for the beginning of a codename.
def unanchored : ROMBuildConfig ℕ :=
  { config with manifests := [⟨"default", "https://example.com/local-manifest",
      [⟨"pixel-15", "lineage", 15, "rav", true⟩]⟩] }

end Sample

open Sample in
theorem devices_agree_raven :
    ∃ parser, ConfigParser.merge Sample.regex config versions = some parser ∧
      ∀ codename,
        codename ∈ (Listing.branch forRaven ⟨"raven-15", "lineage", 15, "raven", false⟩).codenames
            Sample.regex parser ↔
          codename ∈ config.targets.map (·.codename) ∧
            admits Sample.regex "raven" false codename = true := by
  have hmerge : (ConfigParser.merge Sample.regex config versions).isSome := by rfl
  obtain ⟨parser, hparser⟩ := Option.isSome_iff_exists.mp hmerge
  refine ⟨parser, hparser, (devices_agree_iff (by rfl) hparser ?_).mpr nofun⟩
  exact List.mem_cons_self

open Sample in
-- The expression is found in a codename that it does not match as a whole, and a recovery manifest
-- is resolved for a device that the bot does not list.
theorem devices_disagree :
    (∃ parser, validate Sample.regex unanchored = .ok () ∧
      ConfigParser.merge Sample.regex unanchored versions = some parser ∧
      ∃ listing ∈ unanchored.listings, "raven" ∉ listing.codenames Sample.regex parser ∧
        listing.accepts Sample.regex "raven" = true) ∧
    ∃ parser, validate Sample.regex config = .ok () ∧
      ConfigParser.merge Sample.regex config versions = some parser ∧
      ∃ listing ∈ config.listings, "oriole" ∉ listing.codenames Sample.regex parser ∧
        listing.accepts Sample.regex "oriole" = true ∧
        (config.resolve Sample.regex ⟨"recovery", "oriole", "twrp", 14⟩).toOption.isSome := by
  constructor
  · have hmerge : (ConfigParser.merge Sample.regex unanchored versions).isSome := by rfl
    obtain ⟨parser, hparser⟩ := Option.isSome_iff_exists.mp hmerge
    have hrom := romBranchMap_ne_none hparser (fun _ => List.mem_append_left _)
      ((valid_of_validate (by rfl)).branches _ List.mem_cons_self _ List.mem_cons_self)
    refine ⟨parser, rfl, hparser, _, List.mem_cons_self, ?_, by rfl⟩
    rw [mem_codenames_branch hparser hrom]
    exact fun h => nomatch h.2
  · have hmerge : (ConfigParser.merge Sample.regex config versions).isSome := by rfl
    obtain ⟨parser, hparser⟩ := Option.isSome_iff_exists.mp hmerge
    have hrom := romBranchMap_ne_none hparser (fun _ => List.mem_append_right _)
      ((valid_of_validate (by rfl)).recoveryManifests _ List.mem_cons_self)
    refine ⟨parser, rfl, hparser, .recovery (recoveryForRaven "recovery"), ?_, ?_, rfl, rfl⟩
    · exact List.mem_cons_of_mem _ List.mem_cons_self
    · rw [mem_codenames_recovery hparser hrom]
      exact fun h => nomatch h.2

end Glider.RomConfig

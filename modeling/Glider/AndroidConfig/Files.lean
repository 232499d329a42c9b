import Glider.Lib.Json
import Glider.Lib.Assoc

namespace Glider.AndroidConfig

open Lib
open Bytes (ascii)

-- What the library that parses can throw. A parse error is caught, another exception is not.
inductive Thrown
  | parseError (text : Bytes)
  | other (text : Bytes)

-- The floats of the versions: how they are read and written, and a number that two of them have in
-- common when they compare equal.
structure Floats (V : Type) where
  ofText : Bytes → V
  ofBool : Bool → V
  value : V → V
  format : V → Bytes

namespace ParseFiles

structure Artifact where
  matcher : Bytes
  data : Bytes

structure ROM.Branches (V : Type) where
  androidVersion : V
  branch : Bytes

structure ROM (V : Type) where
  name : Bytes
  link : Bytes
  target : Bytes
  artifact : Artifact
  branches : List (ROM.Branches V)

structure Device where
  codename : Bytes
  name : Bytes
  manufacturer : Bytes

structure Version (V : Type) where
  version : V
  codenameShort : Bytes
  codename : Bytes

structure Manifest.Branches (V : Type) where
  name : Bytes
  targetRom : Bytes
  androidVersion : V
  device : Bytes
  useRegex : Bool
  deriving DecidableEq

structure Manifest (V : Type) where
  name : Bytes
  url : Bytes
  branches : List (Manifest.Branches V)
  deriving DecidableEq

structure CloneMapping where
  repo : Bytes
  branch : Bytes
  path : Bytes

structure RecoveryManifest (V : Type) where
  name : Bytes
  cloneMappings : List CloneMapping
  androidVersion : V
  targetRecovery : Bytes
  device : Bytes
  useRegex : Bool

section FromJson

variable {V α : Type} (floats : Floats V)

def field (get : Json → Except Bytes α) (key : String) (j : Json) : Except Bytes α := do
  let member ← j.at? (ascii key)
  get member

def getEach (get : Json → Except Bytes α) : List Json → Except Bytes (List α)
  | [] => .ok []
  | j :: items => do
    let a ← get j
    let rest ← getEach get items
    pure (a :: rest)

def getVector (get : Json → Except Bytes α) : Json → Except Bytes (List α)
  | .array items => getEach get items
  | j => .error (ascii "[json.exception.type_error.302] type must be array, but is " ++ j.typeName)

def getFloat (j : Json) : Except Bytes V := j.getNumber floats.ofText floats.ofBool

def Artifact.fromJson (j : Json) : Except Bytes Artifact := do
  let matcher ← field Json.getString "matcher" j
  let data ← field Json.getString "data" j
  pure ⟨matcher, data⟩

def ROM.Branches.fromJson (j : Json) : Except Bytes (ROM.Branches V) := do
  let androidVersion ← field (getFloat floats) "android_version" j
  let branch ← field Json.getString "branch" j
  pure ⟨androidVersion, branch⟩

def ROM.fromJson (j : Json) : Except Bytes (ROM V) := do
  let name ← field Json.getString "name" j
  let link ← field Json.getString "link" j
  let target ← field Json.getString "target" j
  let artifact ← field Artifact.fromJson "artifact" j
  let branches ← field (getVector (ROM.Branches.fromJson floats)) "branches" j
  pure ⟨name, link, target, artifact, branches⟩

def Device.fromJson (j : Json) : Except Bytes Device := do
  let codename ← field Json.getString "codename" j
  let name ← field Json.getString "name" j
  let manufacturer ← field Json.getString "manufacturer" j
  pure ⟨codename, name, manufacturer⟩

def Version.fromJson (j : Json) : Except Bytes (Version V) := do
  let version ← field (getFloat floats) "version" j
  let codenameShort ← field Json.getString "codename_short" j
  let codename ← field Json.getString "codename" j
  pure ⟨version, codenameShort, codename⟩

def Manifest.Branches.fromJson (j : Json) : Except Bytes (Manifest.Branches V) := do
  let name ← field Json.getString "name" j
  let targetRom ← field Json.getString "target_rom" j
  let androidVersion ← field (getFloat floats) "android_version" j
  let device ← field Json.getString "device" j
  let useRegex ← field Json.getBool "use_regex" j
  pure ⟨name, targetRom, androidVersion, device, useRegex⟩

def Manifest.fromJson (j : Json) : Except Bytes (Manifest V) := do
  let name ← field Json.getString "name" j
  let url ← field Json.getString "url" j
  let branches ← field (getVector (Manifest.Branches.fromJson floats)) "branches" j
  pure ⟨name, url, branches⟩

def CloneMapping.fromJson (j : Json) : Except Bytes CloneMapping := do
  let repo ← field Json.getString "repo" j
  let branch ← field Json.getString "branch" j
  let path ← field Json.getString "path" j
  pure ⟨repo, branch, path⟩

def RecoveryManifest.fromJson (j : Json) : Except Bytes (RecoveryManifest V) := do
  let name ← field Json.getString "name" j
  let cloneMappings ← field (getVector CloneMapping.fromJson) "clone_mappings" j
  let androidVersion ← field (getFloat floats) "android_version" j
  let targetRecovery ← field Json.getString "target_recovery" j
  let device ← field Json.getString "device" j
  let useRegex ← field Json.getBool "use_regex" j
  pure ⟨name, cloneMappings, androidVersion, targetRecovery, device, useRegex⟩

-- A value of the type that is asked for, from the bytes of a file.
def load (parse : Bytes → Except Thrown Json) (fromJson : Json → Except Bytes α) (content : Bytes) :
    Except Thrown α := do
  let j ← parse content
  match fromJson j with
  | .ok a => pure a
  | .error text => throw (.other text)

end FromJson

end ParseFiles

structure ROMInfo where
  name : Bytes
  url : Bytes
  target : Bytes
  artifact : ParseFiles.Artifact

structure AndroidVersion (V : Type) where
  version : V
  name : Bytes

structure ROMBranch (V : Type) where
  branch : Bytes
  androidVersion : AndroidVersion V
  romInfo : ROMInfo

structure Device where
  codename : Bytes
  marketName : Bytes

structure LocalManifest (V : Type) where
  name : Bytes
  rom : ROMBranch V
  devices : List Device

structure DirEntry where
  name : Bytes
  isRegular : Bool
  content : Bytes

-- `recovery` is a directory in `manifest`. A directory that cannot be read is not there.
structure ManifestDir where
  entries : List DirEntry
  recovery : Option (List DirEntry)

structure ConfigDir where
  targets : Bytes
  versions : Bytes
  roms : Bytes
  recoveries : Bytes
  manifest : Option ManifestDir

-- How the merging of the files can go wrong.
inductive Fault
  | nullPointer
  | thrown (e : Thrown)

def isJsonFile (entry : DirEntry) : Bool :=
  ascii ".json" <:+ entry.name ∧ entry.name ≠ ascii ".json" ∧ entry.isRegular = true

section Parse

variable {V : Type} (floats : Floats V) (regexMatch : Bytes → Bytes → Option Bool)

def makeKey (name : Bytes) (androidVersion : V) : Bytes :=
  name ++ ascii "-" ++ floats.format androidVersion

-- An expression that cannot be used matches no device.
def selects (device : Bytes) (useRegex : Bool) (codename : Bytes) : Bool :=
  if useRegex then regexMatch device codename = some true else codename = device

variable (deviceMap : Assoc Bytes Device) (romBranchMap : Assoc Bytes (ROMBranch V))

def selectDevices (device : Bytes) (useRegex : Bool) : List Device :=
  (deviceMap.members.filter fun p => selects regexMatch device useRegex p.1).map Prod.snd

def parseManifest (manifest : ParseFiles.Manifest V) : List (LocalManifest V) :=
  manifest.branches.filterMap fun branch =>
    (romBranchMap.find? (makeKey floats branch.targetRom branch.androidVersion)).map fun rom =>
      ⟨manifest.name, rom, selectDevices regexMatch deviceMap branch.device branch.useRegex⟩

-- A recovery gets an entry for each of its devices.
def parseRecoveryManifest (manifest : ParseFiles.RecoveryManifest V) : List (LocalManifest V) :=
  (selectDevices regexMatch deviceMap manifest.device manifest.useRegex).filterMap fun device =>
    (romBranchMap.find? (makeKey floats manifest.targetRecovery manifest.androidVersion)).map
      fun rom => ⟨manifest.name, rom, [device]⟩

end Parse

section Merge

variable {V : Type} [DecidableEq V] (floats : Floats V) (regexMatch : Bytes → Bytes → Option Bool)
  (parse : Bytes → Except Thrown Json)

def deviceMap (devices : List ParseFiles.Device) : Assoc Bytes Device :=
  Assoc.empty.insertAll (devices.map fun device =>
    (device.codename, ⟨device.codename, device.name⟩))

def androidVersion (version : ParseFiles.Version V) : AndroidVersion V where
  version := version.version
  name := version.codename ++ ascii " (" ++ version.codenameShort ++ ascii "," ++
    floats.format version.version ++ ascii ")"

def androidVersionMap (versions : List (ParseFiles.Version V)) : Assoc V (AndroidVersion V) :=
  Assoc.empty.insertAll (versions.map fun version =>
    (floats.value version.version, androidVersion floats version))

def romInfo (rom : ParseFiles.ROM V) : ROMInfo := ⟨rom.name, rom.link, rom.target, rom.artifact⟩

-- A version that is not known has a null pointer in the map, which the making of the key follows.
def addBranches (versions : Assoc V (AndroidVersion V)) (rom : ParseFiles.ROM V) :
    List (ParseFiles.ROM.Branches V) → Assoc Bytes (ROMBranch V) →
      Except Fault (Assoc Bytes (ROMBranch V))
  | [], map => .ok map
  | branch :: branches, map =>
    match versions.find? (floats.value branch.androidVersion) with
    | none => .error .nullPointer
    | some version =>
      addBranches versions rom branches
        (map.insert (makeKey floats rom.name version.version)
          ⟨branch.branch, version, romInfo rom⟩)

def addRoms (versions : Assoc V (AndroidVersion V)) :
    List (ParseFiles.ROM V) → Assoc Bytes (ROMBranch V) →
      Except Fault (Assoc Bytes (ROMBranch V))
  | [], map => .ok map
  | rom :: roms, map => do
    let map ← addBranches floats versions rom rom.branches map
    addRoms versions roms map

-- The files of a directory one after another. What cannot be parsed is left out.
def scan {α : Type} (fromJson : Json → Except Bytes α) (build : α → List (LocalManifest V)) :
    List DirEntry → List (LocalManifest V) → Except Fault (List (LocalManifest V))
  | [], parsed => .ok parsed
  | entry :: entries, parsed =>
    if isJsonFile entry then
      match ParseFiles.load parse fromJson entry.content with
      | .ok a => scan fromJson build entries (parsed ++ build a)
      | .error (.parseError _) => scan fromJson build entries parsed
      | .error e => .error (.thrown e)
    else scan fromJson build entries parsed

def loadAll {α : Type} (fromJson : Json → Except Bytes α) (content : Bytes) :
    Except Fault (List α) :=
  (ParseFiles.load parse (ParseFiles.getVector fromJson) content).mapError Fault.thrown

-- The directories `manifest` and `manifest/recovery`.
def scanManifests (devices : Assoc Bytes Device) (map : Assoc Bytes (ROMBranch V)) :
    Option ManifestDir → Except Fault (Bool × List (LocalManifest V))
  | none => pure (false, [])
  | some manifest => do
    let parsed ← scan parse (ParseFiles.Manifest.fromJson floats)
      (parseManifest floats regexMatch devices map) manifest.entries []
    match manifest.recovery with
    | none => pure (false, parsed)
    | some recovery =>
      let parsed ← scan parse (ParseFiles.RecoveryManifest.fromJson floats)
        (parseRecoveryManifest floats regexMatch devices map) recovery parsed
      pure (parsed ≠ [], parsed)

-- What `merge` returns, and the manifests that it has parsed.
def merge (dir : ConfigDir) : Except Fault (Bool × List (LocalManifest V)) := do
  let devices ← loadAll parse ParseFiles.Device.fromJson dir.targets
  let versions ← loadAll parse (ParseFiles.Version.fromJson floats) dir.versions
  let roms ← loadAll parse (ParseFiles.ROM.fromJson floats) dir.roms
  let recoveries ← loadAll parse (ParseFiles.ROM.fromJson floats) dir.recoveries
  let versions := androidVersionMap floats versions
  let map ← addRoms floats versions roms .empty
  let map ← addRoms floats versions recoveries map
  scanManifests floats regexMatch parse (deviceMap devices) map dir.manifest

end Merge

end Glider.AndroidConfig

import Glider.Lib.Program
import Mathlib.Data.List.Basic

namespace Glider.RomBuild

open Glider.Lib

abbrev Path := String

-- `str::trim_end_matches`: every copy of the suffix at the end goes.
def trimEndMatches (text suffix : String) : String :=
  let rec strip : ℕ → List Char → List Char
    | 0, reversed => reversed
    | n + 1, reversed =>
      if suffix.toList.reverse.isPrefixOf reversed then strip n (reversed.drop suffix.length)
      else reversed
  String.ofList (strip text.length text.toList.reverse).reverse

def split (text : String) (separator : Char) : List String :=
  (text.toList.splitOn separator).map String.ofList

namespace Path

def join (path name : Path) : Path :=
  if name.startsWith "/" then name
  else if path == "" || path.endsWith "/" then path ++ name
  else path ++ "/" ++ name

def components (path : Path) : List String :=
  (split path '/').filter fun name => name != "" && name != "."

def fileName (path : Path) : Option String :=
  path.components.getLast?.filter (· != "..")

-- What follows the last dot of the file name, if something stands before it.
def extension (path : Path) : Option String :=
  path.fileName.bind fun name =>
    match split name '.' with
    | [] | [_] | ["", _] => none
    | parts => parts.getLast?

-- `BuildService::is_safe_relative_path`: a leading "/", a leading "." and every ".." is refused.
def isSafeRelative (path : Path) : Bool :=
  !path.startsWith "/" && (split path '/').head? != some "." && !path.components.contains ".."

end Path

-- The errors that a ROM build can end with.
inductive BuildError where
  | missingTool (tool : String)
  | io (message : String)
  | internal (message : String)

def BuildError.text : BuildError → String
  | .missingTool tool => s!"Required tool is unavailable: {tool}"
  | .io message => message
  | .internal message => message

inductive LogLevel where
  | debug
  | info
  | warning
  | error
  | fatal

structure BuildLogEntry where
  level : LogLevel
  message : String
  isFinished : Bool

inductive RomBuildVariant where
  | user
  | userDebug
  | eng

def RomBuildVariant.text : RomBuildVariant → String
  | .user => "user"
  | .userDebug => "userdebug"
  | .eng => "eng"

inductive RomUploadMethod where
  | none
  | localFile
  | stream
  | goFile
  | unknown (value : Int)
  deriving DecidableEq

inductive ArtifactKind where
  | romZip
  | recoveryImage
  deriving DecidableEq

structure BuildArtifact where
  path : Path
  fileName : String
  kind : ArtifactKind
  deriving DecidableEq

def BuildArtifact.new (path : Path) (kind : ArtifactKind) : Except String BuildArtifact :=
  match path.fileName with
  | some fileName => .ok ⟨path, fileName, kind⟩
  | none => .error s!"Artifact path has no file name: {path}"

structure UploadTask where
  method : RomUploadMethod
  buildId : ℕ
  artifact : BuildArtifact
  deriving DecidableEq

structure RomBuildSettings where
  doRepoSync : Bool
  doCleanBuild : Bool
  useCcache : Bool
  useRbeService : Bool
  rbeApiToken : Option String
  doUpload : Bool

def RomBuildSettings.default : RomBuildSettings := ⟨true, false, false, false, none, false⟩

inductive RomArtifactMatcher where
  | zipFilePrefixer
  | exactMatcher

structure RomEntry where
  link : String
  target : String
  matcher : RomArtifactMatcher
  data : String

structure CloneMapping where
  repo : String
  branch : String
  path : String

inductive ConfigType where
  | standard (url : String)
  | recovery (cloneMappings : List CloneMapping)

structure ResolvedRomConfig where
  configEntry : ConfigType
  codename : String
  branchName : String
  romEntry : RomEntry
  romBranch : String

structure RomBuildRequest where
  variant : RomBuildVariant
  forceCheckout : Bool
  parallelJobs : Int
  githubToken : Option String
  uploadMethod : RomUploadMethod

structure BuildTask where
  id : ℕ
  request : RomBuildRequest
  settings : RomBuildSettings
  buildDir : Path
  tempDir : Path
  resolved : ResolvedRomConfig
  askpassPath : Option Path
  secretDir : Path

structure CommandSpec where
  program : String
  args : List String
  env : List (String × String)
  logPath : Path
  stdin : List String

-- An open git repository: what each of its operations will come to.
structure Repo where
  getRemoteUrl : Except String String
  getBranchName : Except String String
  cmpHeadWithRemoteBranch : String → Except String Bool
  checkoutBranch : String → Except String Unit
  fastForward : Except String Unit
  updateModules : Except String Unit

inductive XmlEvent where
  | startDocument
  | startElement (name : String) (attributes : List (String × String))
  | endElement

-- What the file system, git, the XML library and the system answer at one moment. Nothing ties the
-- answers of two moments together.
structure Environment where
  programAvailable : String → Bool
  pathExists : Path → Bool
  isDir : Path → Bool
  isFile : Path → Bool
  readDir : Path → Except String (List Path)
  readToString : Path → Except String String
  write : Path → String → Except String Unit
  setMode : Path → ℕ → Except String Unit
  createFile : Path → Except String Unit
  createDirAll : Path → Except String Unit
  removeDirAll : Path → Except String Unit
  removeFile : Path → Except String Unit
  createSecretDir : Path → Except String Path
  gitOpen : Path → Option String → Except String Repo
  cloneRepo : String → String → Path → Option String → Except String Unit
  readXml : String → List (Except String XmlEvent)
  writeXml : XmlEvent → Except String Unit
  getrlimit : Except String (ℕ × ℕ)
  setrlimit : ℕ → ℕ → Bool
  setupRbeEnv : Path → Path → String → Except String Path

-- What the pipeline asks of the rest of the service.
inductive Op where
  | observe
  | sendLog (level : LogLevel) (message : String)
  | runProcess (spec : CommandSpec)
  | recordFailure (content : String)
  | pushUpload (task : UploadTask)
  | recordSuccess

abbrev Op.Answer : Op → Type
  | .observe => Environment
  | .runProcess _ => Except BuildError Bool
  | _ => Unit

abbrev Pipeline := Program Op Op.Answer BuildError

namespace Pipeline

variable {α : Type}

def observe (f : Environment → α) : Pipeline α := .call .observe fun env => .pure (f env)

def sendLog (level : LogLevel) (message : String) : Pipeline Unit :=
  Program.perform (Op.sendLog level message)

-- `.map_err(|e| BuildError::internal(format!("{what}: {e}")))?`.
def orInternal (what : String) : Except String α → Pipeline α
  | .ok a => pure a
  | .error e => .throw (.internal s!"{what}: {e}")

def attempt (what : String) (f : Environment → Except String α) : Pipeline α := do
  orInternal what (← observe f)

-- `run_process(..).await?`.
def runProcess (spec : CommandSpec) : Pipeline Bool :=
  .call (.runProcess spec) fun outcome =>
    match outcome with
    | .ok success => .pure success
    | .error e => .throw e

def recordFailure (content : String) : Pipeline Unit := Program.perform (Op.recordFailure content)

def pushUpload (task : UploadTask) : Pipeline Unit := Program.perform (Op.pushUpload task)

def recordSuccess : Pipeline Unit := Program.perform Op.recordSuccess

end Pipeline

end Glider.RomBuild

import Glider.RomBuild.Domain

namespace Glider.RomBuild

open Glider.Lib
open Pipeline

-- The stages of `RomBuildHarness::run`, in the order of the source.
namespace BuildTask

variable (t : BuildTask)

def logFile (name : String) : Path := t.tempDir.join s!"{name}-build-{t.id}.log"

def localManifestDir : Path := (t.buildDir.join ".repo").join "local_manifests"

-- `BuildService::configure_repo_command_env`.
def commandEnv : List (String × String) :=
  ("REPO_CONFIG_DIR", t.buildDir) :: (t.askpassPath.map ("GIT_ASKPASS", ·)).toList

def checkManifests : Pipeline Bool := do
  let path := (t.buildDir.join ".repo").join "manifests.git"
  if ← observe (·.pathExists path) then
    sendLog .debug s!"Opening manifest git repository at {path.quote}"
    let repo ← attempt "Failed to open manifest git repository" (·.gitOpen path none)
    let repoUrl ← orInternal "Cannot retrieve remote-url" repo.getRemoteUrl
    let branchName ← orInternal "Cannot retrieve branch name" repo.getBranchName
    sendLog .debug s!"manifest repo url:{repoUrl} branch:{branchName}"
    let link := t.resolved.romEntry.link
    let branch := t.resolved.romBranch
    -- After `repo init` the branch is always called "default", so its head is compared.
    if trimEndMatches repoUrl "/" != trimEndMatches link "/" ||
        !(repo.cmpHeadWithRemoteBranch branch).toOption.getD false then
      sendLog .info (s!"Manifest repo URL or branch mismatch. Expected URL: {link}, branch: " ++
        s!"{branch}. Found URL: {repoUrl}, branch: {branchName}. Will re-initialize repo.")
      return true
    else
      return false
  else
    sendLog .info s!"No manifest git repository found at {path.quote}. Will initialize repo."
    return true

def readLog (path : Path) : Pipeline String :=
  observe fun env => (env.readToString path).toOption.getD "Failed to read error log."

-- The log of a failed `repo` command is moved into the entry of the build.
def recordLogFile (errorFile : Path) : Pipeline Unit := do
  let content ← readLog errorFile
  let _ ← observe (·.removeFile errorFile)
  recordFailure content

def repoInit : Pipeline Unit := do
  sendLog .info "Initializing repo..."
  let errorFile := t.logFile "repo-init"
  let res ← runProcess {
    program := "repo"
    args := ["init", "-u", t.resolved.romEntry.link, "-b", t.resolved.romBranch, "--git-lfs",
      "--depth=1"]
    env := t.commandEnv
    logPath := errorFile
    stdin := ["y"] }
  if !res then
    recordLogFile errorFile
    .throw (.internal "'repo init' command failed or was cancelled.")

def cloneLocalManifest (url : String) : Pipeline Unit :=
  attempt "Failed to clone local manifest repository"
    (·.cloneRepo url t.resolved.branchName t.localManifestDir t.request.githubToken)

def fastForward (repo : Repo) : Pipeline Unit := do
  sendLog .info "Fast-forwarding local manifest repository..."
  match repo.fastForward with
  | .ok _ => return ()
  | .error e => sendLog .error s!"Failed to fast-forward: {e}"

def checkoutLocalManifest (repo : Repo) : Pipeline Unit := do
  let expected := t.resolved.branchName
  let branch ← orInternal "Failed to get branch name of local manifest repository"
    repo.getBranchName
  if branch != expected then
    sendLog .warning
      "Local manifest repository branch mismatch, checking out correct branch..."
    orInternal s!"Failed to checkout branch {expected} of local manifest repository"
      (repo.checkoutBranch expected)
  else
    sendLog .info "Local manifest repository branch matches expected branch."
  fastForward repo

def openLocalManifest (url : String) : Pipeline Unit := do
  match ← observe (·.gitOpen t.localManifestDir t.request.githubToken) with
  | .ok repo =>
    let remote ← orInternal "Failed to get remote URL of local manifest repository"
      repo.getRemoteUrl
    if remote != url then
      sendLog .warning "Local manifest repository URL mismatch, re-cloning..."
      attempt "Failed to remove existing local manifest directory"
        (·.removeDirAll t.localManifestDir)
      t.cloneLocalManifest url
    else
      sendLog .info "Local manifest repository URL matches expected URL."
      t.checkoutLocalManifest repo
  | .error _ =>
    sendLog .info s!"Cloning local manifest repository from {url}..."
    t.cloneLocalManifest url

def repoSyncArgs : List String :=
  ["sync", "-c", "--force-sync", "--no-clone-bundle", "--no-tags", s!"-j{t.request.parallelJobs}"]

def updateModules (subRepoPath : Path) : Pipeline Unit := do
  let subRepo ← attempt "Failed to open local manifest git repository for submodule update"
    (·.gitOpen (t.buildDir.join subRepoPath) t.request.githubToken)
  match subRepo.updateModules with
  | .ok _ => return ()
  | .error e =>
    sendLog .warning s!"Git submodule command failed with status: {e}"
    .throw (.internal s!"Failed to update git submodules: {e}")

-- A sync that fails or is cancelled is passed over.
def syncSubmodule (path : Path) (attributes : List (String × String)) : Pipeline Unit := do
  sendLog .info
    s!"Found recurse_submodules=true in manifest file {path.quote}, updating submodules..."
  match attributes.lookup "name", attributes.lookup "path" with
  | some subRepoName, some subRepoPath =>
    let success ← runProcess {
      program := "repo"
      args := t.repoSyncArgs ++ [subRepoName]
      env := t.commandEnv
      logPath := t.tempDir.join s!"repo-sync-{t.id}-submodule-sync.log"
      stdin := [] }
    if success then
      t.updateModules subRepoPath
    else
      sendLog .warning s!"'repo sync' for submodule {subRepoName} failed or was cancelled."
  | _, _ =>
    sendLog .warning ("recurse_submodules=true is set but no project path found in manifest " ++
      s!"file {path.quote}, skipping submodule update.")

def syncElement (path : Path) : Except String XmlEvent → Pipeline Unit
  | .ok (.startElement name attributes) =>
    if name == "project" then
      attributes.forM fun attr =>
        if attr = ("recurse_submodules", "true") then t.syncSubmodule path attributes
        else pure ()
    else pure ()
  | .ok _ => pure ()
  | .error e => sendLog .error s!"Error parsing XML in manifest file {path.quote}: {e}"

def syncManifestFile (path : Path) : Pipeline Unit := do
  if path.extension = some "xml" then
    let content ← attempt s!"Failed to read local manifest file {path.quote}" (·.readToString path)
    let events ← observe (·.readXml content)
    events.forM (t.syncElement path)

def prepareStandard (url : String) : Pipeline Unit := do
  t.openLocalManifest url
  let files ← attempt "Failed to read local manifests directory" (·.readDir t.localManifestDir)
  files.forM t.syncManifestFile

def recoveryManifest (cloneMappings : List CloneMapping) : List (String × XmlEvent) :=
  let start name attributes : String × XmlEvent :=
    ("Failed to write XML start element", .startElement name attributes)
  let stop : String × XmlEvent := ("Failed to write XML end element", .endElement)
  [("Failed to write XML start document", .startDocument), start "manifest" [],
    start "remote" [("name", "cppbot_github"), ("fetch", "https://github.com")], stop] ++
  cloneMappings.flatMap (fun mapping =>
    [start "project" [("name", mapping.repo), ("path", mapping.path),
      ("revision", mapping.branch), ("remote", "cppbot_github")], stop]) ++
  [stop]

def writeRecovery (cloneMappings : List CloneMapping) : Pipeline Unit := do
  let path := t.localManifestDir.join "rombuilder-rs.xml"
  attempt "Failed to create local manifest file" (·.createFile path)
  (recoveryManifest cloneMappings).forM fun (what, event) => attempt what (·.writeXml event)
  sendLog .info s!"Written local manifest to {path.quote}"

def prepareRecovery (cloneMappings : List CloneMapping) : Pipeline Unit := do
  if !(← observe (·.pathExists t.localManifestDir)) then
    attempt "Failed to create local manifests directory" (·.createDirAll t.localManifestDir)
  t.writeRecovery cloneMappings

def prepareLocalManifest : Pipeline Unit := do
  sendLog .info "Preparing local manifest..."
  match t.resolved.configEntry with
  | .standard url => t.prepareStandard url
  | .recovery cloneMappings => t.prepareRecovery cloneMappings

def repoSync : Pipeline Unit := do
  sendLog .info "Performing 'repo sync'..."
  let errorFile := t.logFile "repo-sync"
  let success ← runProcess {
    program := "repo"
    args := t.repoSyncArgs ++ if t.request.forceCheckout then ["--force-remove-dirty"] else []
    env := t.commandEnv
    logPath := errorFile
    stdin := [] }
  if success then
    sendLog .info "'repo sync' completed successfully."
  else
    sendLog .info "'repo sync' command failed or was cancelled."
    recordLogFile errorFile
    .throw (.internal "'repo sync' command failed.")

def syncSources : Pipeline Unit := do
  sendLog .debug "Checking for 'repo' command availability..."
  if ← observe (·.programAvailable "repo") then
    sendLog .debug "'repo' command is available."
    if ← t.checkManifests then t.repoInit
    t.prepareLocalManifest
    t.repoSync
  else
    .throw (.missingTool "repo")

def raiseLimits : Pipeline Unit := do
  let (soft, hard) ← attempt "Failed to get nofile limit" (·.getrlimit)
  sendLog .info s!"Current nofile limits - soft: {soft}, hard: {hard}"
  let newHard := max hard 65536
  let newSoft := max 65536 soft
  if newSoft = soft ∧ newHard = hard then
    sendLog .info "Current nofile limits meet AOSP requirements, no need to change."
  else
    sendLog .info s!"Setting nofile limits - soft: {newSoft}, hard: {newHard}"
    if ← observe (·.setrlimit newSoft newHard) then
      sendLog .info "Successfully set nofile limits."
    else
      .throw (.internal "Failed to set nofile limit.")

def setupRbe : Pipeline (Option Path) := do
  if t.settings.useRbeService then
    sendLog .info "Writing RBE environment configuration..."
    let path ← attempt "Failed to write RBE environment configuration"
      (·.setupRbeEnv t.buildDir t.secretDir (t.settings.rbeApiToken.getD ""))
    sendLog .info "RBE environment configuration written successfully."
    return some path
  else
    return none

def findVendor : List Path → Pipeline String
  | [] => return "unknown"
  | dir :: rest => do
      if ← observe (·.pathExists ((dir.join "config").join "BoardConfigSoong.mk")) then
        let vendor := dir.fileName.getD ""
        sendLog .info s!"Detected vendor: {vendor}"
        return vendor
      else
        findVendor rest

def detectVendor : Pipeline String := do
  let dirs ← attempt "Failed to read vendor directory" (·.readDir (t.buildDir.join "vendor"))
  let vendor ← findVendor dirs
  if vendor == "unknown" then
    sendLog .warning "Could not detect vendor from vendor directory."
    sendLog .info "Defaulting to vendor: lineage for build."
    return "lineage"
  else
    sendLog .info s!"Using vendor: {vendor} for build."
    return vendor

-- The first file of the kind names the release.
def releaseNamed (extension : String) (skipped : List String) (files : List Path) :
    Option String :=
  let named := files.filter fun file => file.extension == some extension
  (named.map fun file => trimEndMatches (file.fileName.getD "") s!".{extension}").find?
    fun name => !skipped.contains name

def releaseIn (what : String) (listing : Path) (extension : String) (skipped : List String)
    (unread : String) (release : Option String) : Pipeline (Option String) := do
  let files ← attempt unread (·.readDir listing)
  match releaseNamed extension skipped files with
  | some name =>
    sendLog .info s!"Detected release from {what}: {name}"
    return some name
  | none => return release

def sclRelease (path : Path) (release : Option String) : Pipeline (Option String) := do
  if ← observe (·.isDir (path.join "build_config")) then
    releaseIn "build_config scl file" path "scl" [] "Failed to read release directory" release
  else
    return release

def textprotoRelease (path : Path) (release : Option String) : Pipeline (Option String) := do
  let configs := path.join "release_configs"
  if ← observe (·.isDir configs) then
    releaseIn "release_configs textproto file" configs "textproto" ["root", "trunk"]
      "Failed to read release_configs directory" release
  else
    return release

-- A later directory overrides an earlier one, unless that has a release config map.
def findRelease : List Path → Option String → Pipeline (Option String)
  | [], release => return release
  | path :: rest, release => do
      if ← observe (·.pathExists (path.join "release_config_map.textproto")) then
        sendLog .info "Detected release from release_config_map.textproto"
        return some "aosp_current"
      else
        let release ← sclRelease path release
        let release ← textprotoRelease path release
        findRelease rest release

def detectRelease (vendor : String) : Pipeline (Option String) := do
  let release ← findRelease [(t.buildDir.join "build").join "release",
    (((t.buildDir.join "vendor").join vendor).join "build").join "release"] none
  match release with
  | some name => sendLog .info s!"Using release: {name} for build."
  | none => sendLog .warning "Could not detect release from build/release directory."
  return release

def cleanBuild : Pipeline Unit := do
  if t.settings.doCleanBuild then
    sendLog .info "Performing clean build..."
    let outDir := t.buildDir.join "out"
    if ← observe (·.pathExists outDir) then
      sendLog .info s!"Removing output directory at {outDir.quote}"
      attempt "Failed to remove output directory for clean build" (·.removeDirAll outDir)

-- `BuildService::find_artifact`.
def findArtifact (env : Environment) : Except String (List Path) :=
  let outputDir := (((t.buildDir.join "out").join "target").join "product").join t.resolved.codename
  let data := t.resolved.romEntry.data
  match t.resolved.romEntry.matcher with
  | .zipFilePrefixer =>
    match env.readDir outputDir with
    | .error e => .error s!"Failed to read output directory: {e}"
    | .ok entries =>
      let names := (entries.map fun entry => entry.fileName.getD "").filter fun name =>
        name.startsWith data && name.endsWith ".zip"
      if names = [] then .error "Artifact not found with specified prefix"
      else .ok (names.map outputDir.join)
  | .exactMatcher =>
    if !Path.isSafeRelative data then
      .error ("Artifact path must be relative and stay under the product output directory: " ++
        data)
    else if env.isFile (outputDir.join data) then .ok [outputDir.join data]
    else .error "Artifact not found with exact name"

def removeOldArtifacts : Pipeline Unit := do
  match ← observe t.findArtifact with
  | .ok artifacts =>
    sendLog .info ("Removing existing artifact from previous builds to prevent confusion. " ++
      s!"(count: {artifacts.length})")
    artifacts.forM fun artifact =>
      attempt "Failed to remove existing artifact for clean build" (·.removeFile artifact)
  | .error e => sendLog .warning s!"Failed to check for existing artifacts before build: {e}"

def shellSingleQuote (value : String) : String :=
  "'" ++ String.join (value.toList.map fun c => if c = '\'' then "'\\''" else c.toString) ++ "'"

def commandList (rbeEnvPath : Option Path) (vendor : String) (release : Option String) :
    List String :=
  let lunch := shellSingleQuote vendor ++ "_" ++ shellSingleQuote t.resolved.codename ++
    (release.elim "" fun name => "-" ++ shellSingleQuote name) ++ "-" ++
    shellSingleQuote t.request.variant.text
  ["set -e"] ++ (rbeEnvPath.map fun path => "source " ++ shellSingleQuote path).toList ++
  (if t.settings.useCcache then [] else ["unset USE_CCACHE; unset CCACHE_EXEC;"]) ++
  ["source build/envsetup.sh", "lunch " ++ lunch,
    "m " ++ shellSingleQuote t.resolved.romEntry.target ++ s!" -j{t.request.parallelJobs}",
    "exit 0"]

-- The build system writes its own error log. The output of the command stands in for an empty one.
def recordBuildLog (outputFile : Path) : Pipeline Unit := do
  let errorFile := (t.buildDir.join "out").join "error.log"
  sendLog .info s!"Reading error log from {errorFile.quote}"
  let content ← readLog errorFile
  if content == "" then
    sendLog .info s!"Error log is empty, reading from build output log at {outputFile.quote}"
    let content ← readLog outputFile
    if content == "" then
      sendLog .warning "Build output log is also empty, setting generic error message."
      recordFailure "Build failed, but no error log available."
    else
      recordFailure content
  else
    recordFailure content

def build (rbeEnvPath : Option Path) (vendor : String) (release : Option String) :
    Pipeline Unit := do
  let lines := t.commandList rbeEnvPath vendor release
  lines.forM fun line => sendLog .info s!"Sent to stdin: {line}"
  let outputFile := t.logFile "build-output"
  let success ← runProcess {
    program := "bash"
    args := []
    env := t.commandEnv
    logPath := outputFile
    stdin := lines }
  if success then
    sendLog .info "Build process completed successfully."
  else
    sendLog .error "Build command failed"
    t.recordBuildLog outputFile
    .throw (.internal "Build command failed or was cancelled.")

def artifactKind : ArtifactKind :=
  match t.resolved.configEntry with
  | .standard _ => .romZip
  | .recovery _ => .recoveryImage

def scheduleUpload (artifact : BuildArtifact) : Pipeline Unit := do
  match t.request.uploadMethod with
  | .none => sendLog .info "Upload method set to None, skipping upload."
  | .localFile =>
    sendLog .info s!"File ready at local path: {artifact.path.quote}"
    pushUpload ⟨.localFile, t.id, artifact⟩
  | .goFile =>
    sendLog .info "Scheduling upload to GoFile..."
    pushUpload ⟨.goFile, t.id, artifact⟩
  | .stream =>
    sendLog .info "Scheduling upload to Stream..."
    pushUpload ⟨.stream, t.id, artifact⟩
  | .unknown _ => sendLog .warning "Unknown upload method specified, skipping upload."

def firstArtifact : List Path → Pipeline Path
  | path :: _ => return path
  | [] => do
      sendLog .error "Failed to select an artifact for upload."
      return ""

def selectArtifact (artifacts : List Path) : Pipeline Path := do
  sendLog .info s!"Found {artifacts.length} artifact(s) for upload."
  artifacts.zipIdx.forM fun (path, i) => sendLog .info s!"Artifact {i + 1}: {path.quote}"
  if artifacts.length != 1 then
    sendLog .warning s!"Expected to find exactly one artifact, but found {artifacts.length}."
  firstArtifact artifacts

def upload : Pipeline Unit := do
  if t.settings.doUpload then
    match ← observe t.findArtifact with
    | .ok artifacts =>
      let path ← selectArtifact artifacts
      sendLog .info s!"Build artifact located at: {path.quote}"
      match BuildArtifact.new path t.artifactKind with
      | .ok artifact => t.scheduleUpload artifact
      | .error e => .throw (.internal e)
    | .error e => sendLog .error s!"Failed to find build artifact: {e}"
  else
    sendLog .info "Upload disabled in settings, skipping artifact search."

def buildAndUpload : Pipeline Unit := do
  raiseLimits
  sendLog .info "Starting build process..."
  let rbeEnvPath ← t.setupRbe
  let vendor ← t.detectVendor
  let release ← t.detectRelease vendor
  t.cleanBuild
  t.removeOldArtifacts
  t.build rbeEnvPath vendor release
  t.upload
  recordSuccess

-- The `async` block of `RomBuildHarness::run`.
def pipeline : Pipeline Unit := do
  if t.settings.doRepoSync then t.syncSources
  t.buildAndUpload

end BuildTask

end Glider.RomBuild

import Glider.KernelBuild.Domain

namespace Glider.KernelBuild

open Glider.Lib
open Glider.RomBuild (Path trimEndMatches)

-- `statusText` is how `tonic::Status` is displayed. What `make` comes to is a function of the
-- sources it finds, and of its arguments or of `.config`; a `path` is below the output directory.
structure BuildService where
  toolchains : List Toolchain
  outputDirectory : Path
  tempDirectory : Path
  statusText : Status → String
  configure : (sources : String) → (args : List String) → Bytes
  makeOutput : (sources : String) → (dotConfig : Option Bytes) → (path : Path) → Bytes
  zipped : (files : Path → Option Bytes) → (dir : Path) → Bytes

def notFound (message : String) : Status := ⟨.notFound, message⟩

def noBuildFound (id : ℕ) : Status := notFound s!"No build found with ID: {id}"

def noContextFound (id : ℕ) : Status := notFound s!"No build context found for ID: {id}"

def notPending (id : ℕ) : Status :=
  ⟨.failedPrecondition, s!"Build ID {id} is not in a pending state. (Already finished?)"⟩

open Build

-- `str::replace` of "{device}".
def replaceDevice (device scheme : String) : String :=
  let pattern := "\x7bdevice\x7d".toList
  let rec replace : ℕ → List Char → List Char
    | n + 1, c :: text =>
      if pattern.isPrefixOf (c :: text) then
        device.toList ++ replace n (text.drop (pattern.length - 1))
      else c :: replace n text
    | _, text => text
  String.ofList (replace scheme.length scheme.toList)

section Prepare

variable (service : BuildService) (req : BuildPrepareRequest)

-- The end of `prepare_build`: the build becomes known.
def register (config : KernelConfig) (toolchain : Toolchain) (sourceDir toolchainDir : Path) :
    Build Unit := do
  let currentId ← perform .incAndGetBuildId
  perform (.pushContext ⟨currentId, config, toolchain, sourceDir, toolchainDir, req.deviceName,
    none, none⟩)
  perform (.pushStatus ⟨currentId, .prepared, true⟩)
  perform .pruneKernelStatuses
  reportBuildId currentId .success
    s!"Build preparation completed successfully., Build ID: {currentId}"

def defconfigArgs (config : KernelConfig) (toolchain : Toolchain) (nproc : ℕ) : List String :=
  [s!"-j{nproc}", "O=out", replaceDevice req.deviceName config.defconfig.scheme] ++
    toolchain.buildArgs config.arch ++ config.buildArgs ++
    req.configFragments.filterMap fun fragment =>
      (config.fragments.find? (·.name = fragment)).map fun frag =>
        replaceDevice req.deviceName frag.scheme

def ensureOut (outPath : Path) : Build Unit := do
  if ← observe fun env => env.isDir outPath then pure ()
  else
    match ← observe fun env => env.createDir outPath with
    | .ok _ => pure ()
    | .error e => .throw ⟨.internal, s!"Failed to create 'out' directory: {e}"⟩

def makeDefconfig (config : KernelConfig) (toolchain : Toolchain) (sourceDir toolchainDir : Path) :
    Build Unit := do
  report .inProgressConfigure "Now will make defconfig..."
  let nproc ← observe (·.nproc)
  let path ← observe (·.pathVariable)
  ensureOut (sourceDir.join "out")
  let success ← orThrow (← perform (.runProcess {
    goal := .defconfig
    dir := sourceDir
    args := defconfigArgs req config toolchain nproc
    env := config.envVars toolchainDir path
    logPath := service.tempDirectory.join s!"output-prepare-{config.name}.log"
    buildId := none
    killRx := none }))
  if !success then report .failed "make defconfig failed."
  else do
    report .inProgressConfigure "make defconfig completed successfully."
    register req config toolchain sourceDir toolchainDir

def cloneFresh (what : String) (config : KernelConfig) (sourceDir : Path) :
    Build (Except Status Unit) := do
  match ← perform (.cloneRepo config.repo.url config.repo.branch sourceDir req.githubToken) with
  | .ok _ =>
    report .inProgressDownload s!"Repository {what}d successfully."
    pure (.ok ())
  | .error e =>
    report .failed s!"Failed to {what} repository. Error: {e}"
    pure (.error ⟨.internal, s!"Failed to {what} repository: {e}"⟩)

def updateExisting (config : KernelConfig) (sourceDir : Path) : Build (Except Status Unit) := do
  report .inProgressDownload
    "Existing repository URL matches config, checking out requested branch."
  match ← perform (.checkoutBranch sourceDir config.repo.branch) with
  | .error e =>
    report .failed s!"Failed to checkout branch {config.repo.branch}. Error: {e}"
    pure (.error ⟨.internal, s!"Failed to checkout branch {config.repo.branch}: {e}"⟩)
  | .ok _ =>
    match ← perform (.fastForward sourceDir) with
    | .ok _ =>
      report .inProgressDownload "Repository fast-forwarded successfully."
      pure (.ok ())
    | .error e =>
      if req.failOnFetch then do
        report .failed s!"Failed to fast-forward repository. Error: {e}"
        pure (.error ⟨.internal, s!"Failed to fast-forward repository: {e}"⟩)
      else do
        report .inProgressDownload
          s!"Failed to fast-forward repository, continuing with existing sources. Error: {e}"
        pure (.ok ())

def reclone (url : String) (config : KernelConfig) (sourceDir : Path) :
    Build (Except Status Unit) := do
  report .inProgressDownload
    s!"Existing repository URL {url} does not match config URL {config.repo.url}, recloning."
  match ← perform (.removeDirAll sourceDir) with
  | .error e =>
    report .failed s!"Failed to remove mismatched repository {sourceDir.quote}. Error: {e}"
    pure (.error ⟨.internal, s!"Failed to remove mismatched repository: {e}"⟩)
  | .ok _ => cloneFresh req "reclone" config sourceDir

-- The task that is spawned for git.
def cloneSource (config : KernelConfig) (sourceDir : Path) : Build (Except Status Unit) := do
  if ← observe fun env => env.gitOpen sourceDir req.githubToken then
    match ← observe fun env => env.getRemoteUrl sourceDir with
    | .error _ =>
      report .failed "Failed to get existing repository URL, aborting."
      pure (.error ⟨.internal, "Failed to get existing repository URL"⟩)
    | .ok url =>
      if trimEndMatches url "/" = trimEndMatches config.repo.url "/" then
        updateExisting req config sourceDir
      else reclone req url config sourceDir
  else
    match ← cloneFresh req "clone" config sourceDir with
    | .error e => pure (.error e)
    | .ok _ =>
      report .inProgressDownload "Kernel source cloned successfully."
      pure (.ok ())

def prepareSource (config : KernelConfig) (toolchain : Toolchain) (toolchainDir : Path) :
    Build Unit := do
  let exe := (toolchainDir.join "bin").join toolchain.exeName
  if (← observe fun env => env.execVersion exe).isNone then
    .throw ⟨.internal, s!"Failed to execute toolchain {toolchain.name.quote} after preparation."⟩
  else do
    report .inProgressDownload "Preparing to clone kernel source..."
    let sourceDir := service.outputDirectory.join config.dirName
    match ← cloneSource req config sourceDir with
    | .error e => report .failed s!"Git clone task failed: {service.statusText e}"
    | .ok _ =>
      report .inProgressConfigure "Kernel source cloned successfully."
      makeDefconfig service req config toolchain sourceDir toolchainDir

def ensureToolchain (config : KernelConfig) (toolchain : Toolchain) : Build Unit := do
  let toolchainDir := service.outputDirectory.join toolchain.name
  let exe := (toolchainDir.join "bin").join toolchain.exeName
  match ← observe fun env => env.execVersion exe with
  | some version =>
    report .inProgressConfigure
      s!"Toolchain {toolchain.name.quote} found with version: {version}"
    report .inProgressConfigure
      s!"Toolchain directory {toolchainDir.quote} exists, skipping download."
    prepareSource service req config toolchain toolchainDir
  | none =>
    report .inProgressConfigure s!"Toolchain {toolchain.name.quote} not found or invalid."
    report .inProgressConfigure s!"Cloning toolchain {toolchain.name.quote}..."
    match ← observe fun env => env.cloneToDir toolchain toolchainDir with
    | .error e => report .failed s!"Failed to clone toolchain {toolchain.name.quote}: {e}"
    | .ok _ =>
      report .inProgressConfigure s!"Toolchain {toolchain.name.quote} cloned successfully."
      prepareSource service req config toolchain toolchainDir

-- Without clang an old GCC is taken.
def suits (config : KernelConfig) (toolchain : Toolchain) : Bool :=
  if config.toolchains.clang then
    toolchain.compiler == .clang && toolchain.arch.eq config.arch
  else
    toolchain.compiler == .gcc && toolchain.compilerVersion ≤ 49 / 10 &&
      toolchain.arch.eq config.arch

def checkRequest (config : KernelConfig) : Build Unit := do
  report .inProgressConfigure "Config found, validating device..."
  if req.deviceName ∉ config.defconfig.devices then
    report .failed s!"Device {req.deviceName} not found"
  else do
    report .inProgressConfigure "Device validated, checking fragments..."
    match req.configFragments.find? fun fragment =>
        !config.fragments.any fun f => f.name == fragment with
    | some fragment => report .failed s!"Unknown fragment: {fragment}"
    | none =>
      report .inProgressConfigure "Fragments validated, checking toolchain support..."
      match service.toolchains.find? (suits config) with
      | some toolchain => ensureToolchain service req config toolchain
      | none =>
        let kind := if config.toolchains.clang then "Clang" else "GCC"
        report .failed
          s!"No suitable {kind} toolchain found for architecture {config.arch.debug}"

def prepareTask : Build Unit := do
  report .pending "Starting build preparation, awaiting to acquire lock..."
  let configs ← observe (·.kernelConfigs)
  report .inProgressConfigure "Lock acquired, searching for config..."
  match configs.find? (·.name = req.name) with
  | some config => checkRequest service req config
  | none => report .failed s!"Config not found by name: {req.name}"

def prepareBuild : Build Unit :=
  (prepareTask service req).handle fun e =>
    report .failed s!"Build preparation task failed: {service.statusText e}"

end Prepare

section DoBuild

variable (service : BuildService) (id : ℕ) (context : BuildContext)

def kernelImage : Path := (context.workDir.join "out").join context.config.imagePath

def logFile : Path := service.tempDirectory.join s!"output-build-{context.config.name}.log"

def succeed (artifact : Path) : Build Unit := do
  reportBuildId id .success "Build complete. Dropping build context."
  perform (.addArtifactPath id artifact)
  perform (.markBuildFinished id true)

-- The log is what a failed build leaves.
def failWithLog (output : String) : Build Unit := do
  perform (.addArtifactPath id (logFile service context))
  perform (.markBuildFinished id false)
  reportBuildId id .failed output

def archivePath (date : String) : Path :=
  context.workDir.join s!"{context.config.name}_{context.deviceName}-{date}.zip"

def packageIn (anykernelDir : Path) : Build Unit := do
  if !(← observe fun env => env.pathExists anykernelDir) then do
    perform (.markBuildFinished id false)
    reportBuildId id .failed s!"AnyKernel directory {anykernelDir.quote} does not exist."
  else do
    let destImagePath := anykernelDir.join context.config.imageType
    match ← perform (.copy (kernelImage context) destImagePath) with
    | .error e =>
      reportBuildId id .failed s!"Failed to copy kernel image to AnyKernel directory: {e}"
    | .ok _ =>
      let zipFilePath := archivePath context (← observe (·.date))
      reportBuildId id .inProgressBuild s!"CreateZipFile {zipFilePath}"
      match ← perform (.zipDir zipFilePath anykernelDir) with
      | .error e => .throw ⟨.internal, e⟩
      | .ok _ =>
        reportBuildId id .inProgressBuild "AnyKernel packaging complete."
        let _ ← perform (.removeFile destImagePath)
        succeed id zipFilePath

def package : Build Unit := do
  match context.config.anykernel with
  | some ⟨true, none⟩ =>
    reportBuildId id .inProgressBuild "Packaging with AnyKernel..."
    reportBuildId id .inProgressBuild "AnyKernel packaging config is invalid, skipping."
    succeed id (kernelImage context)
  | some ⟨true, some location⟩ =>
    reportBuildId id .inProgressBuild "Packaging with AnyKernel..."
    packageIn id context (context.workDir.join location)
  | _ => succeed id (kernelImage context)

def makeArgs (nproc : ℕ) : List String :=
  [s!"-j{nproc}", "O=out"] ++ context.toolchain.buildArgs context.config.arch ++
    context.config.buildArgs

-- The task that `do_build` spawns.
def buildTask (kill : ℕ) : Build Unit := do
  reportBuildId id .pending "Build started..."
  let nproc ← observe (·.nproc)
  let path ← observe (·.pathVariable)
  let success ← orThrow (← perform (.runProcess {
    goal := .build
    dir := context.workDir
    args := makeArgs context nproc
    env := context.config.envVars context.toolchainDir path
    logPath := logFile service context
    buildId := some id
    killRx := some kill }))
  if !success then failWithLog service id context "Build failed."
  else do
    reportBuildId id .inProgressBuild "Build succeeded."
    if !(← observe fun env => env.pathExists (kernelImage context)) then
      failWithLog service id context
        s!"Expected kernel image not found at {(kernelImage context).quote}"
    else do
      reportBuildId id .inProgressBuild s!"Kernel image located at {(kernelImage context).quote}"
      package id context

def doBuild : Build Unit := do
  reportBuildId id .pending "Starting build process, validating build ID..."
  if !(← perform (.isValidBuildId id)) then do
    reportBuildId id .failed s!"No build found with ID: {id}"
    .throw (noBuildFound id)
  else
    match ← perform (.findContext id) with
    | none =>
      reportBuildId id .failed s!"No build context found for ID: {id}"
      .throw (noContextFound id)
    | some context =>
      orThrow (← perform (.claimPreparedBuild id))
      let kill ← perform .newKillChannel
      perform (.storeKillSignal id kill)
      perform .spawn
      buildTask service id context kill

end DoBuild

-- The response to a call that is not an error says that the signal was sent.
def cancelBuild (id : ℕ) : Build Unit := do
  if !(← perform (.isValidBuildId id)) then .throw (noBuildFound id)
  else if ← perform (.isBuildFinished id) then .throw (notPending id)
  else
    match ← perform (.findKillSignal id) with
    | some kill =>
      let _ ← perform (.sendKill kill)
      perform (.setFinished id)
    | none => .throw (notFound s!"Build ID {id} not found or not running (cannot cancel)")

-- The task that `get_artifact` spawns.
def streamArtifact (id : ℕ) (context : BuildContext) : Build Unit := do
  match context.artifactPath with
  | none =>
    let error := notFound s!"No artifact found for build ID: {id}"
    let _ ← perform (.sendChunk (.error error))
  | some artifactPath =>
    match ← perform (.fileLen artifactPath) with
    | .error e =>
      let error : Status := ⟨.internal, s!"Failed to get metadata for artifact file: {e}"⟩
      let _ ← perform (.sendChunk (.error error))
    | .ok totalSize =>
      let filename := artifactPath.fileName.getD "artifact.bin"
      if ← perform (.sendChunk (.metadata filename totalSize)) then
        match ← perform (.openFile artifactPath) with
        | .error e =>
          let error : Status := ⟨.internal, s!"Failed to open artifact file: {e}"⟩
          let _ ← perform (.sendChunk (.error error))
        | .ok _ => perform (.streamFile artifactPath)

def getArtifact (id : ℕ) : Build Unit := do
  if !(← perform (.isValidBuildId id)) then .throw (noBuildFound id)
  else if !(← perform (.isBuildFinished id)) then .throw (notPending id)
  else
    match ← perform (.findContext id) with
    | none => .throw (noContextFound id)
    | some context =>
      perform .spawn
      streamArtifact id context

-- The task that `BuildService::new` spawns. It keeps the contexts locked to its end.
def ctrlC : Build Unit := do
  match ← perform .lockContexts with
  | some (_, kill) =>
    let _ ← perform (.sendKill kill)
    perform .requestShutdown
  | none => perform .requestShutdown

inductive Call where
  | prepareBuild (req : BuildPrepareRequest)
  | doBuild (id : ℕ)
  | cancelBuild (id : ℕ)
  | getArtifact (id : ℕ)
  | ctrlC

def BuildService.program (service : BuildService) : Call → Build Unit
  | .prepareBuild req => KernelBuild.prepareBuild service req
  | .doBuild id => KernelBuild.doBuild service id
  | .cancelBuild id => KernelBuild.cancelBuild id
  | .getArtifact id => KernelBuild.getArtifact id
  | .ctrlC => KernelBuild.ctrlC

end Glider.KernelBuild

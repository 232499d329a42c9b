import Glider.Lib.Transition
import Glider.RomBuild.Task
import Mathlib.Logic.Function.Basic
import Mathlib.Algebra.Order.Ring.Nat

namespace Glider.RomBuild

open Glider.Lib

structure BuildEntry where
  id : ℕ
  success : BuildStatus
  deriving DecidableEq

-- A log stream with its receiver on the broadcast channel, and what it has yielded.
structure Stream where
  buildId : ℕ
  unread : List BuildLogEntry
  skipped : ℕ
  yielded : List BuildLogEntry
  ended : Bool

namespace Stream

-- `broadcast::channel(100)`: the capacity is rounded up to a power of two.
def capacity : ℕ := 128

-- A receiver that is too slow loses its oldest entry.
def deliver (id : ℕ) (entry : BuildLogEntry) (stream : Stream) : Stream :=
  if stream.buildId = id ∧ stream.ended = false then
    if stream.unread.length < capacity then { stream with unread := stream.unread ++ [entry] }
    else { stream with
      unread := stream.unread.drop 1 ++ [entry]
      skipped := stream.skipped + 1 }
  else stream

def lagged (skipped : ℕ) : BuildLogEntry :=
  ⟨.warning, s!"[log stream lagged: {skipped} messages skipped]", false⟩

-- One turn of the loop of `stream_logs`. `closed` says that no sender is left.
def read (closed : Bool) (stream : Stream) : Option Stream :=
  if stream.ended then none
  else if 0 < stream.skipped then
    some { stream with skipped := 0, yielded := stream.yielded ++ [lagged stream.skipped] }
  else
    match stream.unread with
    | entry :: rest =>
      if entry.isFinished then some { stream with unread := rest, ended := true }
      else some { stream with unread := rest, yielded := stream.yielded ++ [entry] }
    | [] => if closed then some { stream with ended := true } else none

end Stream

inductive Code where
  | invalidArgument
  | failedPrecondition
  | internal
  deriving DecidableEq

structure Status where
  code : Code
  message : String
  deriving DecidableEq

structure BuildSubmission where
  buildId : Option ℕ
  accepted : Bool
  statusMessage : String

structure Settings where
  doRepoSync : Option Bool
  doCleanBuild : Option Bool
  useCcache : Option Bool
  useRbeService : Option Bool
  rbeApiToken : Option String
  doUpload : Option Bool

def Settings.setSettings (req : Settings) (settings : RomBuildSettings) : RomBuildSettings where
  doRepoSync := req.doRepoSync.getD settings.doRepoSync
  doCleanBuild := req.doCleanBuild.getD settings.doCleanBuild
  useCcache := req.useCcache.getD settings.useCcache
  useRbeService := req.useRbeService.getD settings.useRbeService
  rbeApiToken := req.rbeApiToken.or settings.rbeApiToken
  doUpload := req.doUpload.getD settings.doUpload

structure BuildRequest where
  configName : String
  targetDevice : String
  romName : String
  romAndroidVersion : Float32
  buildVariant : Int
  forceCheckout : Option Bool
  parallelJobs : Option Int
  githubToken : Option String
  uploadMethod : Int

-- What the service is set up with. `resolve` looks the request up in the configuration files.
structure BuildService where
  buildDir : Path
  tempDir : Path
  nproc : ℕ
  resolve : BuildRequest → Except Status ResolvedRomConfig

-- Who holds `registry.active` while it sends a kill message.
inductive Caller where
  | cancelBuild
  | ctrlC
  deriving DecidableEq

-- `cancelled` keeps for the statements which builds a `cancel_build` has returned `Ok` for.
structure State where
  settings : RomBuildSettings
  active : Option ℕ
  holder : Option Caller
  known : List BuildEntry
  uploads : List UploadTask
  tasks : ℕ → Option Task
  streams : List Stream
  interrupted : Bool
  cancelled : List ℕ

-- Calls that hold `registry.active` without waiting for anything else are one step.
inductive Step where
  | setSettings (req : Settings)
  | startBuild (id : ℕ) (req : BuildRequest) (env : Environment)
  | getStatus (id : ℕ)
  | getBuildResult (id : ℕ)
  | streamLogs (id : ℕ)
  | cancelBuild (id : ℕ)
  | ctrlC
  | send
  | hangUp
  | read (i : ℕ)
  | task (id : ℕ) (taskStep : TaskStep)

def romBuildVariant (value : Int) : Except Status RomBuildVariant :=
  match value with
  | 0 => .ok .user
  | 1 => .ok .userDebug
  | 2 => .ok .eng
  | _ => .error ⟨.invalidArgument, "Invalid build variant specified in request"⟩

def romUploadMethod (value : Int) : RomUploadMethod :=
  match value with
  | 0 => .none
  | 1 => .localFile
  | 2 => .stream
  | 3 => .goFile
  | _ => .unknown value

def clampParallelJobs (requested : Option Int) (nproc : ℕ) : Int :=
  let nproc : Int := min (max nproc 1) (2 ^ 31 - 1)
  max 1 (min (requested.getD nproc) (min (nproc * 2) (2 ^ 31 - 1)))

namespace State

def initial : State :=
  ⟨RomBuildSettings.default, none, none, [], [], fun _ => none, [], false, []⟩

def maxHistory : ℕ := 256

@[irreducible]
def bounded {α : Type} (l : List α) : List α := l.drop (l.length - maxHistory)

def status (s : State) (id : ℕ) : Option BuildStatus :=
  (s.known.find? (·.id = id)).map (·.success)

def pushKnown (s : State) (id : ℕ) : State :=
  { s with known := bounded (s.known ++ [⟨id, .inProgress⟩]) }

-- `iter_mut().find(|b| b.id == id)`: the first entry with the id is changed.
def updateKnown (id : ℕ) (change : BuildStatus → BuildStatus) : List BuildEntry → List BuildEntry
  | [] => []
  | entry :: rest =>
    if entry.id = id then { entry with success := change entry.success } :: rest
    else entry :: updateKnown id change rest

def setTask (s : State) (id : ℕ) (task : Task) : State :=
  { s with tasks := Function.update s.tasks id (some task) }

def apply (s : State) (id : ℕ) : Effect → State
  | .nothing => s
  | .log entry => { s with streams := s.streams.map (Stream.deliver id entry) }
  | .status change => { s with known := updateKnown id change s.known }
  | .upload upload => { s with uploads := bounded (s.uploads ++ [upload]) }
  | .release => { s with active := none }

-- No other part of the service has seen the id: it is a new UUID.
def Unused (s : State) (id : ℕ) : Prop :=
  (s.tasks id).isNone ∧ (∀ entry ∈ s.known, entry.id ≠ id) ∧
    (∀ upload ∈ s.uploads, upload.buildId ≠ id) ∧ (∀ stream ∈ s.streams, stream.buildId ≠ id) ∧
    id ∉ s.cancelled

instance (s : State) (id : ℕ) : Decidable (s.Unused id) := inferInstanceAs (Decidable (_ ∧ _))

-- Every sender of the log channel is gone: that in `registry.active` and that of the harness.
def logClosed (s : State) (id : ℕ) : Bool :=
  s.active != some id && (s.tasks id).any (·.harness.isEnded)

end State

namespace BuildService

variable (service : BuildService)

def checkRequest (req : BuildRequest) (env : Environment) :
    Except Status (ResolvedRomConfig × RomBuildVariant) := do
  if !env.pathExists service.buildDir then
    match env.createDirAll service.buildDir with
    | .ok _ => pure ()
    | .error e => throw ⟨.internal, s!"Failed to create build directory: {e}"⟩
  let resolved ← service.resolve req
  let variant ← romBuildVariant req.buildVariant
  return (resolved, variant)

def askpassScript (token : String) : String :=
  "#!/bin/sh\nprintf '%s\\n' " ++ BuildTask.shellSingleQuote token ++ "\n"

-- The secret directory of the build, and in it the script that hands the token to git.
def createSecrets (req : BuildRequest) (env : Environment) :
    Except Status (Path × Option Path) := do
  match env.createSecretDir service.tempDir with
  | .error e => throw ⟨.internal, s!"Failed to create per-build secret directory: {e}"⟩
  | .ok secretDir =>
    match req.githubToken with
    | none => return (secretDir, none)
    | some token =>
      let path := secretDir.join "git-askpass.sh"
      match env.write path (askpassScript token), env.setMode path 0o700 with
      | .error e, _ => throw ⟨.internal, s!"Failed to write git-askpass file: {e}"⟩
      | _, .error e =>
        throw ⟨.internal, s!"Failed to set permissions for git-askpass file: {e}"⟩
      | .ok _, .ok _ => return (secretDir, some path)

def newTask (s : State) (id : ℕ) (req : BuildRequest) (resolved : ResolvedRomConfig)
    (variant : RomBuildVariant) (secretDir : Path) (askpassPath : Option Path) : BuildTask where
  id := id
  request := {
    variant := variant
    forceCheckout := req.forceCheckout.getD false
    parallelJobs := clampParallelJobs req.parallelJobs service.nproc
    githubToken := req.githubToken
    uploadMethod := romUploadMethod req.uploadMethod }
  settings := s.settings
  buildDir := service.buildDir
  tempDir := service.tempDir
  resolved := resolved
  askpassPath := askpassPath
  secretDir := secretDir

-- A failure to write the secrets leaves the entry behind.
def startBuild (s : State) (id : ℕ) (req : BuildRequest) (env : Environment) :
    Except Status BuildSubmission × State :=
  if s.active.isSome then (.ok ⟨none, false, "A build is already running."⟩, s)
  else
    match service.checkRequest req env with
    | .error status => (.error status, s)
    | .ok (resolved, variant) =>
      let s := s.pushKnown id
      match service.createSecrets req env with
      | .error status => (.error status, s)
      | .ok (secretDir, askpassPath) =>
        let task := service.newTask s id req resolved variant secretDir askpassPath
        (.ok ⟨some id, true, "Build queued successfully."⟩,
          { s.setTask id ⟨.running task.pipeline, false, false⟩ with active := some id })

end BuildService

namespace State

def getStatus (s : State) (id : ℕ) : BuildSubmission :=
  if s.active = some id then ⟨some id, true, "Build is in progress."⟩
  else ⟨some id, false, "No active build with the specified ID."⟩

-- What `get_build_result` answers. For an upload task the result is then fetched and streamed.
inductive BuildResult where
  | failed (errorMessage : String)
  | noUpload
  | upload (task : UploadTask)
  deriving DecidableEq

def stillInProgress : Status :=
  ⟨.failedPrecondition, "Build is still in progress. Please check back later for results."⟩

def getBuildResult (s : State) (id : ℕ) : Except Status BuildResult :=
  match s.status id with
  | none => .error ⟨.invalidArgument, "No known build with the specified ID."⟩
  | some (.failed message) => .ok (.failed message)
  | some .inProgress => .error stillInProgress
  | some .success =>
    match s.uploads.find? (·.buildId = id) with
    | none => .ok .noUpload
    | some task => .ok (.upload task)

-- `kill_tx.send(()).await` of whoever holds `registry.active`: it waits for room.
def send (s : State) : Option State :=
  match s.holder, s.active with
  | some caller, some id =>
    (s.tasks id).bind fun task =>
      match task.harness with
      | .ended => some { s with holder := none }
      | _ =>
        if task.pending then none
        else some { s.setTask id { task with pending := true } with
          holder := none
          cancelled := if caller = .cancelBuild then id :: s.cancelled else s.cancelled }
  | _, _ => none

def taskStep (s : State) (id : ℕ) (i : TaskStep) : Option State :=
  (s.tasks id).bind fun task =>
    (task.step i).bind fun (task, effect) =>
      match effect with
      | .release => if s.holder = none then some ((s.setTask id task).apply id .release) else none
      | effect => some ((s.setTask id task).apply id effect)

end State

-- A client that gives up takes its call, and with it the lock, away.
def step (service : BuildService) : Transition State Step
  | s, .setSettings req => some { s with settings := req.setSettings s.settings }
  | s, .startBuild id req env =>
    if s.holder = none ∧ s.Unused id then some (service.startBuild s id req env).2 else none
  | s, .getStatus _ => if s.holder = none then some s else none
  | s, .getBuildResult _ => some s
  | s, .streamLogs id =>
    if s.holder = none then
      if s.active = some id then some { s with streams := s.streams ++ [⟨id, [], 0, [], false⟩] }
      else some s
    else none
  | s, .cancelBuild id =>
    if s.holder = none then
      if s.active = some id then some { s with holder := some .cancelBuild } else some s
    else none
  | s, .ctrlC =>
    if s.holder = none ∧ s.interrupted = false then
      some { s with holder := s.active.map fun _ => .ctrlC, interrupted := true }
    else none
  | s, .send => s.send
  | s, .hangUp => if s.holder = some .cancelBuild then some { s with holder := none } else none
  | s, .read i =>
    (s.streams[i]?).bind fun stream =>
      (stream.read (s.logClosed stream.buildId)).map fun stream =>
        { s with streams := s.streams.set i stream }
  | s, .task id i => s.taskStep id i

namespace Plain

-- A machine on which there is little to find and nothing fails.
def env : Environment where
  programAvailable _ := true
  pathExists _ := false
  isDir _ := false
  isFile _ := false
  readDir _ := .ok []
  readToString _ := .ok ""
  write _ _ := .ok ()
  setMode _ _ := .ok ()
  createFile _ := .ok ()
  createDirAll _ := .ok ()
  removeDirAll _ := .ok ()
  removeFile _ := .ok ()
  createSecretDir path := .ok path
  gitOpen _ _ := .error "not found"
  cloneRepo _ _ _ _ := .ok ()
  readXml _ := []
  writeXml _ := .ok ()
  getrlimit := .ok (65536, 65536)
  setrlimit _ _ := true
  setupRbeEnv _ secretDir _ := .ok secretDir

def service : BuildService where
  buildDir := "/rom"
  tempDir := "/tmp"
  nproc := 8
  resolve _ := .ok {
    configEntry := .standard "manifests"
    codename := "raven"
    branchName := "main"
    romEntry := ⟨"android", "bacon", .zipFilePrefixer, "rom-"⟩
    romBranch := "fifteen" }

def request : BuildRequest := ⟨"raven", "raven", "rom", 15, 0, none, none, none, 1⟩

def next (count id : ℕ) : List Step := List.replicate count (.task id (.next env))

-- A build without a sync, up to its `bash` command.
def upToBash (id : ℕ) : List Step :=
  [.setSettings ⟨some false, none, none, none, none, none⟩, .startBuild id request env] ++
    next 22 id

end Plain

section Steps

variable {s t : State} {id : ℕ}

@[simp] theorem setTask_tasks_self (task : Task) : (s.setTask id task).tasks id = some task :=
  Function.update_self ..

theorem setTask_tasks_of_ne {other : ℕ} (h : other ≠ id) (task : Task) :
    (s.setTask id task).tasks other = s.tasks other := Function.update_of_ne h ..

@[simp] theorem apply_tasks (effect : Effect) : (s.apply id effect).tasks = s.tasks := by
  cases effect <;> rfl

theorem active_of_apply {effect : Effect} {other : ℕ}
    (h : (s.apply id effect).active = some other) : s.active = some other := by
  cases effect with
  | release => cases h
  | _ => exact h

@[simp] theorem apply_holder (effect : Effect) : (s.apply id effect).holder = s.holder := by
  cases effect <;> rfl

@[simp] theorem apply_cancelled (effect : Effect) :
    (s.apply id effect).cancelled = s.cancelled := by
  cases effect <;> rfl

-- A call of `start_build` does nothing, leaves an entry, or leaves an entry and starts a build.
theorem startBuild_cases (service : BuildService) (s : State) (id : ℕ) (req : BuildRequest)
    (env : Environment) :
    (service.startBuild s id req env).2 = s ∨ s.active = none ∧
      ((service.startBuild s id req env).2 = s.pushKnown id ∨
        ∃ task : BuildTask, task.id = id ∧ (service.startBuild s id req env).2 =
          { (s.pushKnown id).setTask id ⟨.running task.pipeline, false, false⟩ with
            active := some id }) := by
  unfold BuildService.startBuild
  split
  · exact .inl rfl
  · next hactive =>
    have hnone : s.active = none := Option.not_isSome_iff_eq_none.mp hactive
    split
    · exact .inl rfl
    · refine .inr ⟨hnone, ?_⟩
      dsimp only
      split
      · exact .inl rfl
      · exact .inr ⟨_, rfl, rfl⟩

theorem taskStep_eq_some {i : TaskStep} (h : s.taskStep id i = some t) :
    ∃ task task' effect, s.tasks id = some task ∧ task.step i = some (task', effect) ∧
      (effect = .release → s.holder = none) ∧ t = (s.setTask id task').apply id effect := by
  obtain ⟨task, htask, h⟩ := Option.bind_eq_some_iff.mp h
  obtain ⟨⟨task', effect⟩, hstep, h⟩ := Option.bind_eq_some_iff.mp h
  refine ⟨task, task', effect, htask, hstep, ?_⟩
  dsimp only at h
  split at h
  · obtain ⟨hfree, rfl⟩ := Transition.enabled_eq_some h
    exact ⟨fun _ => hfree, rfl⟩
  · next hother =>
    exact ⟨fun hrelease => absurd hrelease hother, (Option.some.inj h).symm⟩

-- A send ends with an error, or puts its message into the empty channel.
theorem send_eq_some (h : s.send = some t) :
    ∃ caller id task, s.holder = some caller ∧ s.active = some id ∧ s.tasks id = some task ∧
      (t = { s with holder := none } ∨ task.pending = false ∧
        t = { s.setTask id { task with pending := true } with
          holder := none
          cancelled := if caller = .cancelBuild then id :: s.cancelled else s.cancelled }) := by
  unfold State.send at h
  split at h
  case h_2 => cases h
  case h_1 caller id hholder hactive =>
    obtain ⟨task, htask, h⟩ := Option.bind_eq_some_iff.mp h
    refine ⟨caller, id, task, hholder, hactive, htask, ?_⟩
    split at h
    · exact .inl (Option.some.inj h).symm
    · obtain ⟨hfull, h⟩ := Option.ite_none_left_eq_some.mp h
      exact .inr ⟨Bool.eq_false_iff.mpr hfull, (Option.some.inj h).symm⟩

-- All but the settings and the lock stays.
structure Untouched (s t : State) : Prop where
  known : t.known = s.known
  uploads : t.uploads = s.uploads
  tasks : t.tasks = s.tasks
  active : t.active = s.active
  streams : t.streams = s.streams
  cancelled : t.cancelled = s.cancelled

theorem Untouched.refl (s : State) : Untouched s s := ⟨rfl, rfl, rfl, rfl, rfl, rfl⟩

-- What a step can do besides taking and leaving the lock.
inductive Changes (service : BuildService) (s : State) : Step → State → Prop where
  | nothing {i : Step} {t : State} (h : Untouched s t) : Changes service s i t
  | starts {id : ℕ} {req : BuildRequest} {env : Environment} (h : s.Unused id) :
      Changes service s (.startBuild id req env) (service.startBuild s id req env).2
  | subscribes {id : ℕ} (h : s.active = some id) :
      Changes service s (.streamLogs id)
        { s with streams := s.streams ++ [⟨id, [], 0, [], false⟩] }
  | sends {t : State} (h : s.send = some t) : Changes service s .send t
  | reads {i : ℕ} {stream stream' : Stream} (hget : s.streams[i]? = some stream)
      (hread : stream.read (s.logClosed stream.buildId) = some stream') :
      Changes service s (.read i) { s with streams := s.streams.set i stream' }
  | runs {id : ℕ} {i : TaskStep} {t : State} (h : s.taskStep id i = some t) :
      Changes service s (.task id i) t

theorem changes_of_step {service : BuildService} {i : Step} (h : step service s i = some t) :
    Changes service s i t := by
  cases i with
  | setSettings req =>
    obtain rfl := Option.some.inj h
    exact .nothing ⟨rfl, rfl, rfl, rfl, rfl, rfl⟩
  | startBuild id req env =>
    obtain ⟨⟨-, hunused⟩, rfl⟩ := Transition.enabled_eq_some h
    exact .starts hunused
  | getStatus id =>
    obtain ⟨-, rfl⟩ := Transition.enabled_eq_some h
    exact .nothing (.refl s)
  | getBuildResult id =>
    obtain rfl := Option.some.inj h
    exact .nothing (.refl s)
  | streamLogs id =>
    obtain ⟨-, h⟩ := Option.ite_none_right_eq_some.mp h
    split at h
    · next hactive =>
      obtain rfl := Option.some.inj h
      exact .subscribes hactive
    · obtain rfl := Option.some.inj h
      exact .nothing (.refl s)
  | cancelBuild id =>
    obtain ⟨-, h⟩ := Option.ite_none_right_eq_some.mp h
    split at h <;> obtain rfl := Option.some.inj h
    · exact .nothing ⟨rfl, rfl, rfl, rfl, rfl, rfl⟩
    · exact .nothing (.refl s)
  | ctrlC =>
    obtain ⟨-, rfl⟩ := Transition.enabled_eq_some h
    exact .nothing ⟨rfl, rfl, rfl, rfl, rfl, rfl⟩
  | send => exact .sends h
  | hangUp =>
    obtain ⟨-, rfl⟩ := Transition.enabled_eq_some h
    exact .nothing ⟨rfl, rfl, rfl, rfl, rfl, rfl⟩
  | read i =>
    obtain ⟨stream, hget, h⟩ := Option.bind_eq_some_iff.mp h
    obtain ⟨stream', hread, rfl⟩ := Option.map_eq_some_iff.mp h
    exact .reads hget hread
  | task id i => exact .runs h

end Steps

end Glider.RomBuild

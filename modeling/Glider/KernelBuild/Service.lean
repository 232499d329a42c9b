import Glider.KernelBuild.Calls
import Glider.Lib.Assoc
import Glider.Lib.Threads

namespace Glider.KernelBuild

open Glider.Lib
open Glider.RomBuild (Path)

-- A command that was started: what it found in its directory, and how far it is. Once it was told
-- to stop, it is waited for, and the message that it was cancelled is sent.
inductive Phase where
  | running
  | stopping
  | stopped
  | exited
  deriving DecidableEq

structure Process where
  spec : CommandSpec
  sources : String
  dotConfig : Option Bytes
  phase : Phase

inductive WriteKind where
  | dotConfig
  | product
  | log
  | copied
  | archived
  | removed

-- Who was the last to change a file, and how.
structure Write where
  thread : ℕ
  kind : WriteKind

-- `channels` has the kill channels that have a receiver, with whether their one message is in them.
-- `writes` keeps for the statements who wrote which file.
structure State where
  lastId : ℕ
  contexts : List BuildContext
  buildStatuses : List PerBuildIdStatus
  contextsLocked : Bool
  channels : ℕ → Option Bool
  processes : ℕ → Option Process
  sources : Path → String
  files : Path → Option Bytes
  writes : Path → Option Write
  streams : ℕ → List BuildStatus
  artifacts : ℕ → List ArtifactChunk
  opened : ℕ → Option Bytes
  spawned : ℕ → Bool
  interrupted : Bool
  shutdown : Bool

namespace State

def initial : State where
  lastId := 0
  contexts := []
  buildStatuses := []
  contextsLocked := false
  channels _ := none
  processes _ := none
  sources _ := ""
  files _ := none
  writes _ := none
  streams _ := []
  artifacts _ := []
  opened _ := none
  spawned _ := false
  interrupted := false
  shutdown := false

variable (s : State)

def maxBuildHistory : ℕ := 256

@[irreducible]
def pruned (statuses : List PerBuildIdStatus) : List PerBuildIdStatus :=
  statuses.drop (statuses.length - maxBuildHistory)

def status (id : ℕ) : Option PerBuildIdStatus := s.buildStatuses.find? (·.buildId = id)

def context (id : ℕ) : Option BuildContext := s.contexts.find? (·.id = id)

-- `iter_mut().find(..)`: the first entry with the id is changed.
def changeStatus (id : ℕ) (change : PerBuildIdStatus → PerBuildIdStatus) :
    List PerBuildIdStatus → List PerBuildIdStatus :=
  changeFirst (·.buildId) id change

def changeContext (id : ℕ) (change : BuildContext → BuildContext) :
    List BuildContext → List BuildContext :=
  changeFirst (·.id) id change

def isValidBuildId (id : ℕ) : Bool := s.buildStatuses.any (·.buildId = id)

def isBuildFinished (id : ℕ) : Bool :=
  match s.status id with
  | some entry => entry.lifecycle == .finished
  | none => false

def claimPreparedBuild (id : ℕ) : Except Status Unit :=
  match s.status id with
  | none => .error (noBuildFound id)
  | some entry =>
    if entry.lifecycle ≠ .prepared then
      .error ⟨.failedPrecondition, s!"Build ID {id} is not in a prepared state"⟩
    else .ok ()

def store (kill : ℕ) (context : BuildContext) : BuildContext :=
  { context with killSignal := some kill }

def attach (path : Path) (context : BuildContext) : BuildContext :=
  { context with artifactPath := some path }

def run (entry : PerBuildIdStatus) : PerBuildIdStatus := { entry with lifecycle := .running }

def finish (entry : PerBuildIdStatus) : PerBuildIdStatus := { entry with lifecycle := .finished }

def markFinished (success : Bool) (entry : PerBuildIdStatus) : PerBuildIdStatus :=
  { entry with lifecycle := .finished, succeeded := success }

-- The first context with a stored sender.
def active : Option (ℕ × ℕ) :=
  s.contexts.findSome? fun context => context.killSignal.map fun kill => (context.id, kill)

def updateContexts (f : List BuildContext → List BuildContext) : State :=
  { s with contexts := f s.contexts }

def updateStatuses (f : List PerBuildIdStatus → List PerBuildIdStatus) : State :=
  { s with buildStatuses := f s.buildStatuses }

def setChannel (t : ℕ) (channel : Option Bool) : State :=
  { s with channels := Function.update s.channels t channel }

def send (t : ℕ) (chunk : ArtifactChunk) : State :=
  { s with artifacts := Function.update s.artifacts t (s.artifacts t ++ [chunk]) }

def spawn (t : ℕ) : State := { s with spawned := Function.update s.spawned t true }

def put (t : ℕ) (status : BuildStatus) : State :=
  { s with streams := Function.update s.streams t (s.streams t ++ [status]) }

def write (t : ℕ) (path : Path) (kind : WriteKind) (bytes : Option Bytes) : State :=
  { s with
    files := Function.update s.files path bytes
    writes := Function.update s.writes path (some ⟨t, kind⟩) }

def under (dir path : Path) : Bool := (dir.toList ++ ['/']).isPrefixOf path.toList

-- A removal that fails leaves some of the files.
def removeUnder (t : ℕ) (dir : Path) (env : Environment) : State :=
  let gone (path : Path) : Bool :=
    under dir path && (env.outcome.toOption.isSome || !env.spares path)
  { s with
    files := fun path => if gone path then none else s.files path
    writes := fun path => if gone path then some ⟨t, .removed⟩ else s.writes path }

def setSources (dir : Path) (env : Environment) : State :=
  { s with sources := Function.update s.sources dir env.revision }

-- What an operation on a file comes to if the file is there.
def fromFile {α : Type} (path : Path) (env : Environment) (f : Bytes → α) : Except String α :=
  match env.outcome, s.files path with
  | .error e, _ => .error e
  | .ok _, none => .error "No such file or directory (os error 2)"
  | .ok _, some bytes => .ok (f bytes)

end State

open State

-- One operation, as thread `t` has it done. `none` says that it has to wait.
def perform (service : BuildService) (s : State) (t : ℕ) (env : Environment) :
    (op : Op) → Option (State × op.Answer)
  | .observe => some (s, env)
  | .report status => some (if env.connected then s.put t status else s, ())
  | .checkoutBranch dir _ => some (s.setSources dir env, env.outcome)
  | .fastForward dir => some (s.setSources dir env, env.outcome)
  | .cloneRepo _ _ dir _ => some (s.setSources dir env, env.outcome)
  | .removeDirAll path => some (s.removeUnder t path env, env.outcome)
  | .runProcess _ => none
  | .incAndGetBuildId =>
    if s.lastId + 1 < 2 ^ 31 then some ({ s with lastId := s.lastId + 1 }, s.lastId + 1) else none
  | .pushContext context =>
    if s.contextsLocked then none else some (s.updateContexts (· ++ [context]), ())
  | .pushStatus entry => some (s.updateStatuses (· ++ [entry]), ())
  | .pruneKernelStatuses => some (s.updateStatuses pruned, ())
  | .isValidBuildId id => some (s, s.isValidBuildId id)
  | .isBuildFinished id => some (s, s.isBuildFinished id)
  | .findContext id => if s.contextsLocked then none else some (s, s.context id)
  | .claimPreparedBuild id =>
    match s.claimPreparedBuild id with
    | .ok _ => some (s.updateStatuses (changeStatus id State.run), .ok ())
    | .error e => some (s, .error e)
  | .newKillChannel => some (s.setChannel t (some false), t)
  | .storeKillSignal id kill =>
    if s.contextsLocked then none else some (s.updateContexts (changeContext id (store kill)), ())
  | .spawn => some (s.spawn t, ())
  | .addArtifactPath id path =>
    if s.contextsLocked then none
    else some (s.updateContexts (changeContext id (attach path)), ())
  | .markBuildFinished id success =>
    some (s.updateStatuses (changeStatus id (markFinished success)), ())
  | .copy source dest =>
    match s.fromFile source env id with
    | .ok bytes => some (s.write t dest .copied (some bytes), .ok ())
    | .error e => some (s, .error e)
  | .zipDir archive dir =>
    let bytes := if env.outcome.toOption.isSome then service.zipped s.files dir else []
    some (s.write t archive .archived (some bytes), env.outcome)
  | .removeFile path =>
    match s.fromFile path env fun _ => () with
    | .ok _ => some (s.write t path .removed none, .ok ())
    | .error e => some (s, .error e)
  | .findKillSignal id =>
    if s.contextsLocked then none else some (s, (s.context id).bind (·.killSignal))
  | .sendKill kill =>
    match s.channels kill with
    | none => some (s, false)
    | some false => some (s.setChannel kill (some true), true)
    | some true => none
  | .setFinished id => some (s.updateStatuses (changeStatus id finish), ())
  | .fileLen path => some (s, s.fromFile path env List.length)
  | .openFile path =>
    match s.fromFile path env id with
    | .ok bytes => some ({ s with opened := Function.update s.opened t (some bytes) }, .ok ())
    | .error e => some (s, .error e)
  | .sendChunk chunk => some (if env.connected then s.send t chunk else s, env.connected)
  | .streamFile _ => none
  | .lockContexts =>
    if s.contextsLocked then none else some ({ s with contextsLocked := true }, s.active)
  | .requestShutdown => some ({ s with contextsLocked := false, shutdown := true }, ())

-- What happens while a command runs. A path that `make` writes is below its output directory.
inductive ProcessStep where
  | starts
  | prints (stderr : Bool) (line : String) (admitted : Bool)
  | writes (path : Path)
  | receives
  | stopped (connected : Bool)
  | exits (result : Except Status Bool)

def printed (stderr : Bool) (line : String) : String :=
  if stderr then s!"ERR: {line}\n" else s!"{line}\n"

def outputStatus (spec : CommandSpec) (stderr : Bool) (line : String) : BuildStatus :=
  ⟨.inProgressBuild, if stderr then s!"stderr: {line}" else s!"stdout: {line}", spec.buildId⟩

def cancelledStatus (spec : CommandSpec) : BuildStatus :=
  ⟨.failed, "Build cancelled.", spec.buildId⟩

namespace State

variable (s : State)

def setProcess (t : ℕ) (process : Process) : State :=
  { s with processes := Function.update s.processes t (some process) }

def startProcess (t : ℕ) (spec : CommandSpec) : State :=
  (s.setProcess t ⟨spec, s.sources spec.dir, s.files (spec.outDir.join ".config"), .running⟩).write
    t spec.logPath .log (some [])

def print (t : ℕ) (spec : CommandSpec) (stderr : Bool) (line : String) (admitted : Bool) : State :=
  let bytes := (s.files spec.logPath).getD [] ++ (printed stderr line).toUTF8.toList
  let s := s.write t spec.logPath .log (some bytes)
  if admitted then s.put t (outputStatus spec stderr line) else s

-- A build of the kernel does not write its `.config`.
def makeWrites (service : BuildService) (t : ℕ) (process : Process) (path : Path) : Option State :=
  let out := process.spec.outDir
  match process.spec.goal with
  | .defconfig =>
    some (s.write t (out.join ".config") .dotConfig
      (some (service.configure process.sources process.spec.args)))
  | .build =>
    if out.join path ≠ out.join ".config" then
      some (s.write t (out.join path) .product
        (some (service.makeOutput process.sources process.dotConfig path)))
    else none

-- The receiver of the kill channel is dropped with the command.
def endProcess (t : ℕ) (process : Process) : State :=
  (s.setProcess t { process with phase := .exited }).setChannel t none

end State

-- `RealProcessRunner::run`. When a command has exited and a kill message is there, either is taken.
def processStep (service : BuildService) (s : State) (t : ℕ) (spec : CommandSpec)
    (i : ProcessStep) : Option (State × Option (Except Status Bool)) :=
  match s.processes t with
  | none =>
    match i with
    | .starts => some (s.startProcess t spec, none)
    | .exits (.error e) => some (s.setChannel t none, some (.error e))
    | _ => none
  | some process =>
    match process.phase, i with
    | .running, .prints stderr line admitted | .stopping, .prints stderr line admitted =>
      some (s.print t process.spec stderr line admitted, none)
    | .running, .writes path | .stopping, .writes path =>
      (s.makeWrites service t process path).map fun s => (s, none)
    | .running, .receives =>
      if process.spec.killRx = some t ∧ s.channels t = some true then
        some ((s.setProcess t { process with phase := .stopping }).setChannel t (some false),
          none)
      else none
    | .stopping, .stopped connected =>
      let s := s.setProcess t { process with phase := .stopped }
      some (if connected then s.put t (cancelledStatus process.spec) else s, none)
    | .running, .exits result => some (s.endProcess t process, some result)
    | .stopped, .exits (.ok false) => some (s.endProcess t process, some (.ok false))
    | _, _ => none

-- One turn of the loop of `get_artifact`. A file that was replaced after it was opened is still read
-- as it was.
inductive ReadStep where
  | reads (count : ℕ) (replaced connected : Bool)
  | fails (message : String)

def bufferSize : ℕ := 8192

namespace State

def sent (s : State) (t : ℕ) : Bytes :=
  (s.artifacts t).flatMap fun
    | .data bytes => bytes
    | _ => []

end State

def readStep (s : State) (t : ℕ) (path : Path) : ReadStep → Option (State × Option Unit)
  | .reads count replaced connected =>
    (if replaced then s.opened t else s.files path).bind fun bytes =>
      match bytes.drop (s.sent t).length, count with
      | [], _ => some (s, some ())
      | _ :: _, 0 => none
      | byte :: rest, count + 1 =>
        if connected then
          some (s.send t (.data (byte :: rest.take (min count (bufferSize - 1)))), none)
        else some (s, some ())
  | .fails message =>
    some (s.send t (.error ⟨.internal, s!"Failed to read artifact file: {message}"⟩), some ())

inductive Choice where
  | goes (env : Environment)
  | process (i : ProcessStep)
  | reads (i : ReadStep)

def act (service : BuildService) (s : State) (t : ℕ) (op : Op) :
    Choice → Option (State × Option op.Answer)
  | .goes env => (perform service s t env op).map fun (s, answer) => (s, some answer)
  | .process i =>
    match op with
    | .runProcess spec => processStep service s t spec i
    | _ => none
  | .reads i =>
    match op with
    | .streamFile path => readStep s t path i
    | _ => none

-- Ctrl-C is waited for once. A client that hangs up takes its call away, but no spawned task.
def system (service : BuildService) : System State Call Choice Op Op.Answer Status where
  program := service.program
  begins s t
    | .prepareBuild _ => some (s.spawn t)
    | .ctrlC => if s.interrupted then none else some { s.spawn t with interrupted := true }
    | _ => some s
  act := act service
  ends s _ := s
  hangsUp s t := if s.spawned t then none else some (s.setChannel t none)

abbrev World := Threads State Call Op Op.Answer Status

abbrev Step := Move Call Choice

def step (service : BuildService) : Transition World Step := Threads.step (system service)

def World.initial : World := Threads.initial State.initial

end Glider.KernelBuild

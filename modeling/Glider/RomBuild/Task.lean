import Glider.RomBuild.Conduct

namespace Glider.RomBuild

open Glider.Lib

inductive BuildStatus where
  | inProgress
  | success
  | failed (message : String)
  deriving DecidableEq

-- Where `RomBuildHarness::run` is. While a command runs the pipeline stands at its call. `stopping`
-- waits for a command that was told to stop, and `releasing` for `registry.active`.
inductive Harness where
  | running (rest : Pipeline Unit)
  | stopping (next : Except BuildError Bool → Pipeline Unit)
  | announcing (res : Except BuildError Unit)
  | releasing
  | released
  | ended

def Harness.isEnded : Harness → Bool
  | .ended => true
  | _ => false

-- A spawned build. `pending` is the one message that its kill channel has room for. `built` keeps
-- for the statements that `bash` has exited with success.
structure Task where
  harness : Harness
  pending : Bool
  built : Bool

-- What a step of the harness does to the rest of the service.
inductive Effect where
  | nothing
  | log (entry : BuildLogEntry)
  | status (change : BuildStatus → BuildStatus)
  | upload (task : UploadTask)
  | release

inductive TaskStep where
  | next (env : Environment)
  | output (stderr : Bool) (line : String)
  | exits (outcome : Except BuildError Bool)
  | receive
  | stopped

-- The epilogue appends to a message that is there.
def failedBy (e : BuildError) : BuildStatus → BuildStatus
  | .failed message => .failed (message ++ "\nWhich caused builder error: " ++ e.text)
  | _ => .failed e.text

def finalEntry : Except BuildError Unit → BuildLogEntry
  | .ok _ => ⟨.info, "Build completed successfully.", true⟩
  | .error e => ⟨.error, s!"Build failed: {e.text}", true⟩

-- What `RealProcessRunner::run` sends when a kill message has stopped the command.
def cancelEntry : BuildLogEntry := ⟨.fatal, "Build cancelled", true⟩

def Task.next (task : Task) (env : Environment) : Option (Task × Effect) :=
  match task.harness with
  | .running (.pure _) => some ({ task with harness := .announcing (.ok ()) }, .nothing)
  | .running (.throw e) =>
    some ({ task with harness := .announcing (.error e) }, .status (failedBy e))
  | .running (.call .observe next) => some ({ task with harness := .running (next env) }, .nothing)
  | .running (.call (.sendLog level message) next) =>
    some ({ task with harness := .running (next ()) }, .log ⟨level, message, false⟩)
  | .running (.call (.recordFailure content) next) =>
    some ({ task with harness := .running (next ()) }, .status fun _ => .failed content)
  | .running (.call (.pushUpload upload) next) =>
    some ({ task with harness := .running (next ()) }, .upload upload)
  | .running (.call .recordSuccess next) =>
    some ({ task with harness := .running (next ()) }, .status fun _ => .success)
  | .announcing res => some ({ task with harness := .releasing }, .log (finalEntry res))
  | .releasing => some ({ task with harness := .released }, .release)
  | .released => some ({ task with harness := .ended }, .nothing)
  | .running (.call (.runProcess _) _) | .stopping _ | .ended => none

-- When the command has exited and a kill message is there, `select!` may take either.
def Task.step (task : Task) : TaskStep → Option (Task × Effect)
  | .next env => task.next env
  | .output stderr line =>
    let entry : BuildLogEntry := ⟨if stderr then .error else .info, line, false⟩
    match task.harness with
    | .running (.call (.runProcess _) _) | .stopping _ => some (task, .log entry)
    | _ => none
  | .exits outcome =>
    match task.harness with
    | .running (.call (.runProcess spec) next) =>
      let built := task.built || (spec.program == "bash" && outcome.toOption == some true)
      some ({ task with harness := .running (next outcome), built }, .nothing)
    | _ => none
  | .receive =>
    match task.harness with
    | .running (.call (.runProcess _) next) =>
      if task.pending then
        some ({ task with harness := .stopping next, pending := false }, .nothing)
      else none
    | _ => none
  | .stopped =>
    match task.harness with
    | .stopping next =>
      some ({ task with harness := .running (next (.ok false)) }, .log cancelEntry)
    | _ => none

-- Everything that a step can do, with what it needs.
inductive Task.Moves (task : Task) : TaskStep → Task → Effect → Prop where
  | returns {env a} (h : task.harness = .running (.pure a)) :
      task.Moves (.next env) { task with harness := .announcing (.ok ()) } .nothing
  | fails {env e} (h : task.harness = .running (.throw e)) :
      task.Moves (.next env) { task with harness := .announcing (.error e) } (.status (failedBy e))
  | observes {env next} (h : task.harness = .running (.call .observe next)) :
      task.Moves (.next env) { task with harness := .running (next env) } .nothing
  | logs {env level message next}
      (h : task.harness = .running (.call (.sendLog level message) next)) :
      task.Moves (.next env) { task with harness := .running (next ()) }
        (.log ⟨level, message, false⟩)
  | recordsFailure {env content next}
      (h : task.harness = .running (.call (.recordFailure content) next)) :
      task.Moves (.next env) { task with harness := .running (next ()) }
        (.status fun _ => .failed content)
  | uploads {env upload next} (h : task.harness = .running (.call (.pushUpload upload) next)) :
      task.Moves (.next env) { task with harness := .running (next ()) } (.upload upload)
  | recordsSuccess {env next} (h : task.harness = .running (.call .recordSuccess next)) :
      task.Moves (.next env) { task with harness := .running (next ()) }
        (.status fun _ => .success)
  | announces {env res} (h : task.harness = .announcing res) :
      task.Moves (.next env) { task with harness := .releasing } (.log (finalEntry res))
  | releases {env} (h : task.harness = .releasing) :
      task.Moves (.next env) { task with harness := .released } .release
  | ends {env} (h : task.harness = .released) :
      task.Moves (.next env) { task with harness := .ended } .nothing
  | prints {stderr line level spec next}
      (h : task.harness = .running (.call (.runProcess spec) next)) :
      task.Moves (.output stderr line) task (.log ⟨level, line, false⟩)
  | printsLast {stderr line level next} (h : task.harness = .stopping next) :
      task.Moves (.output stderr line) task (.log ⟨level, line, false⟩)
  | exits {outcome spec next} (h : task.harness = .running (.call (.runProcess spec) next)) :
      task.Moves (.exits outcome)
        { task with
          harness := .running (next outcome)
          built := task.built || (spec.program == "bash" && outcome.toOption == some true) }
        .nothing
  | receives {spec next} (h : task.harness = .running (.call (.runProcess spec) next)) :
      task.Moves .receive { task with harness := .stopping next, pending := false } .nothing
  | stops {next} (h : task.harness = .stopping next) :
      task.Moves .stopped { task with harness := .running (next (.ok false)) } (.log cancelEntry)

theorem Task.moves_of_next {task task' : Task} {env : Environment} {effect : Effect}
    (h : task.next env = some (task', effect)) : task.Moves (.next env) task' effect := by
  unfold Task.next at h
  split at h <;> cases h
  case h_1.refl hat => exact .returns hat
  case h_2.refl hat => exact .fails hat
  case h_3.refl hat => exact .observes hat
  case h_4.refl hat => exact .logs hat
  case h_5.refl hat => exact .recordsFailure hat
  case h_6.refl hat => exact .uploads hat
  case h_7.refl hat => exact .recordsSuccess hat
  case h_8.refl hat => exact .announces hat
  case h_9.refl hat => exact .releases hat
  case h_10.refl hat => exact .ends hat

theorem Task.moves_of_step {task task' : Task} {i : TaskStep} {effect : Effect}
    (h : task.step i = some (task', effect)) : task.Moves i task' effect := by
  cases i with
  | next env => exact moves_of_next h
  | output stderr line =>
    simp only [Task.step] at h
    split at h
    · next hrun =>
      cases h
      exact .prints hrun
    · next hstop =>
      cases h
      exact .printsLast hstop
    · cases h
  | exits outcome =>
    simp only [Task.step] at h
    split at h
    · next hrun =>
      cases h
      exact .exits hrun
    · cases h
  | receive =>
    simp only [Task.step] at h
    split at h
    · next hrun =>
      obtain ⟨-, h⟩ := Option.ite_none_right_eq_some.mp h
      cases h
      exact .receives hrun
    · cases h
  | stopped =>
    simp only [Task.step] at h
    split at h
    · next hstop =>
      cases h
      exact .stops hstop
    · cases h

end Glider.RomBuild

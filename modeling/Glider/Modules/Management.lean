import Glider.Exec.Async
import Glider.Work.Scheduler
import Glider.AnyMessage.Dispatcher
import Glider.Modules.CommandModule

namespace Glider.Modules

open Glider.Lib

-- What a thread wants an execution lease for: the command listener, `invoke` or `submitWork`.
inductive Purpose where
  | deliver
  | invoke
  | submit (workClass : Work.WorkClass)
deriving DecidableEq

inductive Thread where
  | idle
  | acquiring (purpose : Purpose) (stage : Acquiring)
  | holding (purpose : Purpose)
  | submitting (workClass : Work.WorkClass) (id : ℕ)
deriving DecidableEq

-- The module lease of a worker of the any-message dispatcher in the current iteration of its loop.
inductive CallbackLease where
  | none
  | acquiring (stage : Acquiring)
  | granted
  | refused
deriving DecidableEq

-- A worker of the command executor runs a closure, and then has destroyed it.
inductive CommandWorker where
  | idle
  | running (owner : String)
  | destroyed (owner : String)
deriving DecidableEq

-- The control thread, between the statements of `unloadDirect`, of the module's `unload`, and of
-- `load`. `fenced` is inside the execution barrier.
inductive Control where
  | idle
  | stopped
  | unregistered
  | cancelled
  | cancelling (lanes : List Work.WorkClass)
  | draining (lanes : List Work.WorkClass)
  | fencing
  | fenced
  | passed
  | notifying
  | removing (call : Option ℕ)
  | removed
  | unloading
  | closing
  | loading
  | enabling
  | registering
deriving DecidableEq

-- The manager as seen from one module name. The module's leases are held by the threads and workers,
-- by the queued closures and tasks of that name, by the closures that `cancel` has taken out, and by
-- the tasks that have left their lane and are not yet destroyed. `dormant` is set when the module's
-- `unload` is called and reset when executions are enabled again.
structure Management where
  module : CommandModule
  registered : Bool
  mutex : Bool
  listener : Bool
  commandAsync : Exec.Async Unit
  commandWorkers : List CommandWorker
  retired : ℕ
  lanes : Work.WorkClass → Work.Lane
  nextWorkId : ℕ
  destroying : ℕ
  dispatcher : AnyMessage.Dispatcher
  callbackLeases : List CallbackLease
  threads : List Thread
  control : Control
  dormant : Bool

structure Config where
  threads : ℕ
  commandWorkers : ℕ
  commandQueueSize : ℕ
  lanes : Work.WorkClass → Work.LaneConfig
  callbackWorkers : ℕ
  maxPendingInvocations : ℕ

namespace Management

-- A module without a name is not registered.
def start (config : Config) (registered : Bool) (name : String) : Management where
  module := .create
  registered := registered && !name.isEmpty
  mutex := false
  listener := false
  commandAsync := .create config.commandQueueSize
  commandWorkers := List.replicate config.commandWorkers .idle
  retired := 0
  lanes := fun c => .create (config.lanes c).workers (config.lanes c).queuedCapacity
    (config.lanes c).defaultDeadline
  nextWorkId := 1
  destroying := 0
  dispatcher := .create config.callbackWorkers config.maxPendingInvocations
  callbackLeases := List.replicate config.callbackWorkers .none
  threads := List.replicate config.threads .idle
  control := .idle
  dormant := false

def owned (name : String) (l : Work.Lane) : ℕ := l.tasks.countP fun task => task.owner == name

def releaseShared (s : Management) (count : ℕ) : Management :=
  { s with module := s.module.releaseShared count }

def setThread (s : Management) (t : ℕ) (thread : Thread) : Management :=
  { s with threads := s.threads.set t thread }

def setLane (s : Management) (c : Work.WorkClass) (l : Work.Lane) : Management :=
  { s with lanes := Function.update s.lanes c l }

-- A delivery thread fetches the listener; it calls it at any later time.
def fetch (s : Management) (t : ℕ) : Option Management :=
  match s.threads[t]?, s.listener with
  | some .idle, true => some (s.setThread t (.acquiring .deliver .called))
  | _, _ => none

-- `invoke` and `submitWork` look the module up and take the lease under the manager's mutex.
def enter (s : Management) (t : ℕ) (purpose : Purpose) : Option Management :=
  match s.threads[t]?, s.mutex with
  | some .idle, false =>
    if s.registered && s.module.isLoaded then
      some { s.setThread t (.acquiring purpose .called) with mutex := true }
    else some s
  | _, _ => none

def unlockAfter (purpose : Purpose) (mutex : Bool) : Bool :=
  match purpose with
  | .deliver => mutex
  | _ => false

def acquire (s : Management) (t : ℕ) : Option Management :=
  match s.threads[t]? with
  | some (.acquiring purpose stage) =>
    (s.module.acquireExecutionLease stage).map fun (progress, m) =>
      match progress with
      | .goesOn next => { s.setThread t (.acquiring purpose next) with module := m }
      | .granted =>
        { s.setThread t (.holding purpose) with
          module := m, mutex := unlockAfter purpose s.mutex }
      | .refused =>
        { s.setThread t .idle with module := m, mutex := unlockAfter purpose s.mutex }
  | _ => none

-- `prepareCommand` gives nothing.
def abandon (s : Management) (t : ℕ) : Option Management :=
  match s.threads[t]? with
  | some (.holding .deliver) | some (.holding .invoke) =>
    some ((s.setThread t .idle).releaseShared 1)
  | _ => none

-- The closure takes the lease along. It is destroyed with the lease when it is not accepted.
def emplace (s : Management) (name : String) (t : ℕ) (admission : Exec.Admission) :
    Option Management :=
  let emplaced : Exec.Admission → Management := fun admission =>
    let r := s.commandAsync.emplaceTaskIf name () admission
    if r.1.result = some .Accepted then { s.setThread t .idle with commandAsync := r.2 }
    else { (s.setThread t .idle).releaseShared 1 with commandAsync := r.2 }
  match s.threads[t]? with
  | some (.holding .deliver) => some (emplaced admission)
  | some (.holding .invoke) => some (emplaced .absent)
  | _ => none

-- `WorkScheduler::submit` draws an id, and then locks the lane.
def draw (s : Management) (name : String) (t : ℕ) (hasWork : Bool) : Option Management :=
  match s.threads[t]? with
  | some (.holding (.submit c)) =>
    if name.isEmpty ∨ hasWork = false then some ((s.setThread t .idle).releaseShared 1)
    else some { s.setThread t (.submitting c s.nextWorkId) with nextWorkId := s.nextWorkId + 1 }
  | _ => none

def queue (s : Management) (name : String) (t due : ℕ) (deadline : Option ℕ) : Option Management :=
  match s.threads[t]? with
  | some (.submitting c id) =>
    let r := (s.lanes c).submit id name due deadline
    if r.1 then some ((s.setThread t .idle).setLane c r.2)
    else some (((s.setThread t .idle).setLane c r.2).releaseShared 1)
  | _ => none

-- What other modules put into the queues.
def emplaceOther (s : Management) (name owner : String) (admission : Exec.Admission) :
    Option Management :=
  if owner ≠ name then
    some { s with commandAsync := (s.commandAsync.emplaceTaskIf owner () admission).2 }
  else none

def queueOther (s : Management) (name owner : String) (c : Work.WorkClass) (due : ℕ)
    (deadline : Option ℕ) : Option Management :=
  if owner ≠ name then
    some { s.setLane c ((s.lanes c).submit s.nextWorkId owner due deadline).2 with
      nextWorkId := s.nextWorkId + 1 }
  else none

def takeCommand (s : Management) (w : ℕ) : Option Management :=
  match s.commandWorkers[w]?, s.commandAsync.takeFront with
  | some .idle, some (front, commandAsync) =>
    some { s with commandAsync := commandAsync,
                  commandWorkers := s.commandWorkers.set w (.running front.1) }
  | _, _ => none

def destroyCommand (s : Management) (name : String) (w : ℕ) : Option Management :=
  match s.commandWorkers[w]? with
  | some (.running owner) =>
    some { s.releaseShared (if owner = name then 1 else 0) with
      commandWorkers := s.commandWorkers.set w (.destroyed owner) }
  | _ => none

def finishCommand (s : Management) (w : ℕ) : Option Management :=
  match s.commandWorkers[w]? with
  | some (.destroyed owner) =>
    some { s with commandAsync := s.commandAsync.finish owner,
                  commandWorkers := s.commandWorkers.set w .idle }
  | _ => none

-- The workers and the monitor of a lane, and `cancelWork`.
def laneAllows : Work.Lane.Step → Bool
  | .take | .checkDeadline _ | .checkStop _ | .complete _ | .monitor | .cancel _ _ => true
  | .submit _ _ _ _ | .cancelOwner _ | .erase _ | .shutDown => false

-- A task that is dropped gives its lease back in the same section.
def laneStep (s : Management) (name : String) (c : Work.WorkClass) (now : ℕ) (i : Work.Lane.Step) :
    Option Management :=
  if laneAllows i then
    ((s.lanes c).step now i).map fun l =>
      (s.setLane c l).releaseShared (owned name (s.lanes c) - owned name l)
  else none

-- The worker takes the task out of the active table and destroys it after the section.
def eraseTask (s : Management) (name : String) (c : Work.WorkClass) (now id : ℕ) :
    Option Management :=
  ((s.lanes c).step now (.erase id)).map fun l =>
    { s.setLane c l with destroying := s.destroying + (owned name (s.lanes c) - owned name l) }

def destroyTask (s : Management) : Option Management :=
  match s.destroying with
  | 0 => none
  | n + 1 => some { s.releaseShared 1 with destroying := n }

def runsModule (s : Management) (name : String) : Bool :=
  s.commandWorkers.contains (.running name) ||
  Work.WorkClass.all.any (fun c => (s.lanes c).active.any fun a =>
    a.task.owner == name && a.phase == .running) ||
  s.callbackLeases.contains .granted

-- The steps of the any-message dispatcher. Only code of the module registers callbacks under its
-- name. A callback of the module runs with a lease, and without one it is deregistered. The removal
-- of callbacks is left to the control thread.
def allows (s : Management) (name : String) : AnyMessage.Dispatcher.Step → Bool
  | .registerCallback owner _ => owner != name || s.runsModule name
  | .take w => s.callbackLeases[w]? == some .none
  | .finish w deregister =>
    match s.dispatcher.currentEntry w with
    | some entry => entry.ownerCommand != name || s.callbackLeases[w]? == some .granted ||
        s.callbackLeases[w]? == some .refused && deregister
    | none => true
  | .enqueue | .drop _ | .release _ | .erase _ => true
  | .publish _ _ | .section' _ | .unpublish _ | .await _ | .return' _ => false

def dispatch (s : Management) (name : String) (i : AnyMessage.Dispatcher.Step) : Option Management :=
  if s.allows name i then
    (AnyMessage.Dispatcher.step s.dispatcher i).map fun d => { s with dispatcher := d }
  else none

def setCallbackLease (s : Management) (w : ℕ) (lease : CallbackLease) : Management :=
  { s with callbackLeases := s.callbackLeases.set w lease }

-- The worker asks the manager for a lease before it runs a callback of the module.
def enterCallback (s : Management) (name : String) (w : ℕ) : Option Management :=
  match s.callbackLeases[w]?, s.dispatcher.currentEntry w, s.mutex with
  | some .none, some entry, false =>
    if entry.ownerCommand = name then
      if s.registered then some { s.setCallbackLease w (.acquiring .called) with mutex := true }
      else some (s.setCallbackLease w .refused)
    else none
  | _, _, _ => none

def acquireCallback (s : Management) (w : ℕ) : Option Management :=
  match s.callbackLeases[w]? with
  | some (.acquiring stage) =>
    (s.module.acquireExecutionLease stage).map fun (progress, m) =>
      match progress with
      | .goesOn next => { s.setCallbackLease w (.acquiring next) with module := m }
      | .granted => { s.setCallbackLease w .granted with module := m, mutex := false }
      | .refused => { s.setCallbackLease w .refused with module := m, mutex := false }
  | _ => none

-- The lease ends with the iteration, after the reference to the callback has been given up.
def endIteration (s : Management) (w : ℕ) : Option Management :=
  match s.callbackLeases[w]?, s.dispatcher.workers[w]? with
  | some .granted, some .idle => some ((s.setCallbackLease w .none).releaseShared 1)
  | some .refused, some .idle => some (s.setCallbackLease w .none)
  | _, _ => none

-- The next step of `removeAnyMessageCallbacksForCommand`.
def removeCallbacks (s : Management) (name : String) : Option ℕ → Option Management
  | none =>
    (s.dispatcher.publish none name).map fun d =>
      { s with dispatcher := d, control := .removing (some s.dispatcher.removals.length) }
  | some call =>
    match (s.dispatcher.removals[call]?).map AnyMessage.Removal.stage with
    | some .published => (s.dispatcher.section' call).map fun d => { s with dispatcher := d }
    | some (.detached _) => (s.dispatcher.unpublish call).map fun d => { s with dispatcher := d }
    | some (.waiting _ (_ :: _)) =>
      (s.dispatcher.await call).map fun d => { s with dispatcher := d }
    | some (.waiting _ []) => (s.dispatcher.return' call).map fun d => { s with dispatcher := d }
    | some .returned => some { s with control := .removed }
    | none => none

-- The control thread. `succeeds` is what opening or closing the image comes to.
def advance (s : Management) (name : String) (succeeds : Bool) : Option Management :=
  match s.control with
  | .idle => none
  | .stopped => some { s with listener := false, control := .unregistered }
  | .unregistered =>
    let r := s.commandAsync.cancel name
    some { s with commandAsync := r.2, retired := s.retired + r.1.length, control := .cancelled }
  | .cancelled =>
    some { s.releaseShared s.retired with retired := 0, control := .cancelling Work.WorkClass.all }
  | .cancelling (c :: rest) =>
    let l := (s.lanes c).cancelOwner name
    some { (s.setLane c l).releaseShared (owned name (s.lanes c) - owned name l) with
      control := .cancelling rest }
  | .cancelling [] => some { s with control := .draining Work.WorkClass.all }
  | .draining (c :: rest) =>
    if (s.lanes c).drained name then some { s with control := .draining rest } else none
  | .draining [] => some { s with module := s.module.stopExecutions, control := .fencing }
  | .fencing => s.module.acquireExclusive.map fun m => { s with module := m, control := .fenced }
  | .fenced => some { s with module := s.module.releaseExclusive, control := .passed }
  | .passed =>
    if s.commandAsync.drained name 0 then
      some { s with commandAsync := s.commandAsync.unblock name, control := .notifying }
    else none
  | .notifying => some { s with control := .removing none }
  | .removing call => s.removeCallbacks name call
  | .removed =>
    if s.module.isLoaded then some { s with control := .unloading, dormant := true }
    else some { s with control := .idle }
  | .unloading => some { s with module := s.module.stopExecutions, control := .closing }
  | .closing =>
    s.module.acquireExclusive.map fun m =>
      { s with module := if succeeds then m.close.releaseExclusive else m.releaseExclusive,
               control := .idle }
  | .loading =>
    if s.module.isLoaded then some { s with control := .registering }
    else if succeeds then some { s with module := s.module.openImage, control := .enabling }
    else some { s with mutex := false, control := .idle }
  | .enabling =>
    some { s with module := s.module.enableExecutions, dormant := false, control := .registering }
  | .registering => some { s with listener := true, mutex := false, control := .idle }

def unloadDirect (s : Management) : Option Management :=
  match s.control, s.mutex with
  | .idle, false =>
    if s.registered then some { s with module := s.module.stopExecutions, control := .stopped }
    else some s
  | _, _ => none

def load (s : Management) : Option Management :=
  match s.control, s.mutex with
  | .idle, false => if s.registered then some { s with mutex := true, control := .loading } else some s
  | _, _ => none

inductive Step where
  | fetch (t : ℕ)
  | enter (t : ℕ) (purpose : Purpose)
  | acquire (t : ℕ)
  | abandon (t : ℕ)
  | emplace (t : ℕ) (admission : Exec.Admission)
  | draw (t : ℕ) (hasWork : Bool)
  | queue (t due : ℕ) (deadline : Option ℕ)
  | emplaceOther (owner : String) (admission : Exec.Admission)
  | queueOther (owner : String) (workClass : Work.WorkClass) (due : ℕ) (deadline : Option ℕ)
  | takeCommand (w : ℕ)
  | destroyCommand (w : ℕ)
  | finishCommand (w : ℕ)
  | laneStep (workClass : Work.WorkClass) (now : ℕ) (i : Work.Lane.Step)
  | eraseTask (workClass : Work.WorkClass) (now id : ℕ)
  | destroyTask
  | dispatch (i : AnyMessage.Dispatcher.Step)
  | enterCallback (w : ℕ)
  | acquireCallback (w : ℕ)
  | endIteration (w : ℕ)
  | unloadDirect
  | load
  | advance (succeeds : Bool)

def step (name : String) : Transition Management Step
  | s, .fetch t => s.fetch t
  | s, .enter t purpose => if purpose = .deliver then none else s.enter t purpose
  | s, .acquire t => s.acquire t
  | s, .abandon t => s.abandon t
  | s, .emplace t admission => s.emplace name t admission
  | s, .draw t hasWork => s.draw name t hasWork
  | s, .queue t due deadline => s.queue name t due deadline
  | s, .emplaceOther owner admission => s.emplaceOther name owner admission
  | s, .queueOther owner c due deadline => s.queueOther name owner c due deadline
  | s, .takeCommand w => s.takeCommand w
  | s, .destroyCommand w => s.destroyCommand name w
  | s, .finishCommand w => s.finishCommand w
  | s, .laneStep c now i => s.laneStep name c now i
  | s, .eraseTask c now id => s.eraseTask name c now id
  | s, .destroyTask => s.destroyTask
  | s, .dispatch i => s.dispatch name i
  | s, .enterCallback w => s.enterCallback name w
  | s, .acquireCallback w => s.acquireCallback w
  | s, .endIteration w => s.endIteration w
  | s, .unloadDirect => s.unloadDirect
  | s, .load => s.load
  | s, .advance succeeds => s.advance name succeeds

end Management

end Glider.Modules

import Mathlib.Logic.Function.Basic
import Glider.Exec.Async
import Glider.Modules.CommandModule

namespace Glider.Modules

open Glider.Lib

-- A thread that delivers the command. From `acquiring` on it runs the listener, which has captured
-- the pointer to the module it was registered for.
inductive Delivery where
  | idle
  | acquiring (object : ℕ) (stage : Acquiring)
  | holding (object : ℕ)
  | prepared (object : ℕ)

-- What a delivery thread does after an access of `acquireExecutionLease`.
def Delivery.after (object : ℕ) : Progress → Delivery
  | .goesOn next => .acquiring object next
  | .granted => .holding object
  | .refused => .idle

-- A worker of the command executor. The closure that it runs has the captured pointer and a lease.
inductive Runner where
  | idle
  | running (object : ℕ)
  | destroyed

-- How the registration of the candidate has come out.
inductive Outcome where
  | replaced (previous : ℕ)
  | restored (failedCandidate previous : ℕ)
deriving DecidableEq

-- The thread that runs `reloadDirect`: the statement it is about to make, with the objects that its
-- local variables refer to. `abort` is an early return after `drain`, and the positions from `leave`
-- on are the end of the scope with the destructor of the object that is left in it.
inductive ReloadDirect where
  | idle
  | preflight (replacement : Option ℕ) (sameName : Bool) (current : ℕ)
  | stopReplacement (replacement current : ℕ)
  | stopCurrent (replacement current : ℕ)
  | unregister (replacement : ℕ)
  | cancel (replacement : ℕ)
  | retire (replacement : ℕ) (closures : List ℕ)
  | exchange (replacement : ℕ)
  | load (previous : ℕ)
  | register (previous : ℕ)
  | restore (previous : ℕ)
  | cancelAndDrain (previous : ℕ)
  | stop (outcome : Outcome)
  | fence (outcome : Outcome)
  | fenced (outcome : Outcome)
  | drain (outcome : Outcome)
  | onUnload (previous : ℕ)
  | removeCallbacks (previous : ℕ)
  | unload (outcome : Outcome)
  | close (outcome : Outcome)
  | enable (outcome : Outcome)
  | onReload (previous : ℕ)
  | loadAgain (failedCandidate : ℕ)
  | registerAgain (failedCandidate : ℕ)
  | abort (object : ℕ)
  | leave (object : ℕ)
  | finalClose (object : ℕ)
  | destroy (object : ℕ)
deriving DecidableEq

-- The object behind the barrier, and the one that is unloaded and left to the end of the scope.
def Outcome.barred : Outcome → ℕ
  | .replaced previous => previous
  | .restored _ previous => previous

def Outcome.leaving : Outcome → ℕ
  | .replaced previous => previous
  | .restored failedCandidate _ => failedCandidate

-- The objects made for one module name, numbered in the order they are made. `handle` is the one the
-- manager has and `listener` the one captured by the registered listener. A destroyed object keeps its
-- last contents here, so that a step that still reaches it can be told.
structure Reload where
  objects : ℕ → CommandModule
  made : ℕ
  destroyed : List ℕ
  handle : Option ℕ
  listener : Option ℕ
  commandAsync : Exec.Async ℕ
  runners : List Runner
  deliveries : List Delivery
  control : ReloadDirect

namespace Reload

def loadedModule : CommandModule := CommandModule.create.openImage.enableExecutions

-- The module is loaded and its listener is registered.
def start (deliveries runners queueSize : ℕ) : Reload where
  objects := fun _ => loadedModule
  made := 1
  destroyed := []
  handle := some 0
  listener := some 0
  commandAsync := .create queueSize
  runners := List.replicate runners .idle
  deliveries := List.replicate deliveries .idle
  control := .idle

def onObject (s : Reload) (object : ℕ) (f : CommandModule → CommandModule) : Reload :=
  { s with objects := Function.update s.objects object (f (s.objects object)) }

def setDelivery (s : Reload) (t : ℕ) (delivery : Delivery) : Reload :=
  { s with deliveries := s.deliveries.set t delivery }

def goTo (s : Reload) (control : ReloadDirect) : Reload := { s with control := control }

-- The thread has a copy of the listener, and runs it at any later time.
def fetch (s : Reload) (t : ℕ) : Option Reload :=
  match s.deliveries[t]?, s.listener with
  | some .idle, some object => some (s.setDelivery t (.acquiring object .called))
  | _, _ => none

def acquire (s : Reload) (t : ℕ) : Option Reload :=
  match s.deliveries[t]? with
  | some (.acquiring object stage) =>
    ((s.objects object).acquireExecutionLease stage).map fun (progress, m) =>
      (s.onObject object fun _ => m).setDelivery t (.after object progress)
  | _ => none

-- `prepareCommand` reads the module. Without a result the lease goes back.
def prepare (s : Reload) (t : ℕ) (succeeds : Bool) : Option Reload :=
  match s.deliveries[t]? with
  | some (.holding object) =>
    if succeeds then some (s.setDelivery t (.prepared object))
    else some ((s.onObject object (·.releaseShared 1)).setDelivery t .idle)
  | _ => none

-- The closure takes the lease along. It is destroyed with the lease when it is not accepted.
def emplace (s : Reload) (name : String) (t : ℕ) (admission : Exec.Admission) : Option Reload :=
  match s.deliveries[t]? with
  | some (.prepared object) =>
    let r := s.commandAsync.emplaceTaskIf name object admission
    if r.1.result = some .Accepted then some { s.setDelivery t .idle with commandAsync := r.2 }
    else some { (s.onObject object (·.releaseShared 1)).setDelivery t .idle with commandAsync := r.2 }
  | _ => none

def takeCommand (s : Reload) (w : ℕ) : Option Reload :=
  match s.runners[w]?, s.commandAsync.takeFront with
  | some .idle, some (front, commandAsync) =>
    some { s with commandAsync := commandAsync, runners := s.runners.set w (.running front.2) }
  | _, _ => none

-- `commandHandler` calls the function of the module.
def execute (s : Reload) (w : ℕ) : Option Reload :=
  match s.runners[w]? with
  | some (.running _) => some s
  | _ => none

def destroyCommand (s : Reload) (w : ℕ) : Option Reload :=
  match s.runners[w]? with
  | some (.running object) =>
    some { s.onObject object (·.releaseShared 1) with runners := s.runners.set w .destroyed }
  | _ => none

def finishCommand (s : Reload) (name : String) (w : ℕ) : Option Reload :=
  match s.runners[w]? with
  | some .destroyed =>
    some { s with commandAsync := s.commandAsync.finish name, runners := s.runners.set w .idle }
  | _ => none

-- The first section of `reloadDirect`. `dynamic` is the outcome of the cast, and `candidate` what
-- `makeReloadCandidate` comes to: whether the name in the new image is the same.
def reloadDirect (s : Reload) (dynamic : Bool) (candidate : Option Bool) : Option Reload :=
  match s.control, s.handle with
  | .idle, some current =>
    if (s.objects current).isLoaded && dynamic then
      match candidate with
      | none => some (s.goTo (.preflight none false current))
      | some sameName =>
        some { s.onObject s.made fun _ => loadedModule with
          made := s.made + 1, control := .preflight (some s.made) sameName current }
    else some s
  | .idle, none => some s
  | _, _ => none

-- The part of `load` before the listener is registered.
def openHandle (s : Reload) (succeeds : Bool) (registering failed : ReloadDirect) : Reload :=
  match s.handle with
  | none => s.goTo failed
  | some object =>
    if (s.objects object).isLoaded then s.goTo registering
    else if succeeds then
      (s.onObject object fun m => m.openImage.enableExecutions).goTo registering
    else s.goTo failed

-- Taking the exclusive lease to close the image, which may fail.
def closeImage (s : Reload) (object : ℕ) (succeeds : Bool) (next : ReloadDirect) : Option Reload :=
  (s.objects object).acquireExclusive.map fun m =>
    (s.onObject object fun _ =>
      if succeeds then m.close.releaseExclusive else m.releaseExclusive).goTo next

def afterDrain : Outcome → ReloadDirect
  | .replaced previous => .onUnload previous
  | .restored failedCandidate previous => .enable (.restored failedCandidate previous)

def afterUnload : Outcome → ReloadDirect
  | .replaced previous => .enable (.replaced previous)
  | .restored failedCandidate _ => .loadAgain failedCandidate

def afterEnable : Outcome → ReloadDirect
  | .replaced previous => .onReload previous
  | .restored failedCandidate previous => .unload (.restored failedCandidate previous)

def drainTo (s : Reload) (name : String) (next : ReloadDirect) : Option Reload :=
  if s.commandAsync.drained name 0 then
    some { s with commandAsync := s.commandAsync.unblock name, control := next }
  else none

-- The next statement of `reloadDirect`. `succeeds` is what opening or closing an image comes to. The
-- work scheduler, the listeners of the manager and the any-message callbacks do not use the captured
-- pointer, and their statements end at any time.
def advance (s : Reload) (name : String) (succeeds : Bool) : Option Reload :=
  match s.control with
  | .idle => none
  | .preflight none _ _ => some (s.goTo .idle)
  | .preflight (some replacement) sameName current =>
    if (s.objects replacement).isLoaded && sameName then
      some (s.goTo (.stopReplacement replacement current))
    else some (s.goTo (.leave replacement))
  | .stopReplacement replacement current =>
    some ((s.onObject replacement (·.stopExecutions)).goTo (.stopCurrent replacement current))
  | .stopCurrent replacement current =>
    some ((s.onObject current (·.stopExecutions)).goTo (.unregister replacement))
  | .unregister replacement => some { s with listener := none, control := .cancel replacement }
  | .cancel replacement =>
    let r := s.commandAsync.cancel name
    some { s with commandAsync := r.2, control := .retire replacement (r.1.map Prod.snd) }
  | .retire replacement closures =>
    some { s with objects := fun object => (s.objects object).releaseShared (closures.count object),
                  control := .exchange replacement }
  | .exchange replacement =>
    match s.handle with
    | none => some (s.goTo (.abort replacement))
    | some previous => some { s with handle := some replacement, control := .load previous }
  | .load previous => some (s.openHandle succeeds (.register previous) (.restore previous))
  | .register previous =>
    some { s with listener := s.handle, control := .cancelAndDrain previous }
  | .restore previous =>
    match s.handle with
    | none => some (s.goTo (.abort previous))
    | some failedCandidate =>
      some { s with handle := some previous,
                    control := .stop (.restored failedCandidate previous) }
  | .cancelAndDrain previous => some (s.goTo (.stop (.replaced previous)))
  | .stop outcome =>
    some ((s.onObject outcome.barred (·.stopExecutions)).goTo (.fence outcome))
  | .fence outcome =>
    (s.objects outcome.barred).acquireExclusive.map fun m =>
      (s.onObject outcome.barred fun _ => m).goTo (.fenced outcome)
  | .fenced outcome =>
    some ((s.onObject outcome.barred (·.releaseExclusive)).goTo (.drain outcome))
  | .drain outcome => s.drainTo name (afterDrain outcome)
  | .onUnload previous => some (s.goTo (.removeCallbacks previous))
  | .removeCallbacks previous => some (s.goTo (.unload (.replaced previous)))
  | .unload outcome =>
    if (s.objects outcome.leaving).isLoaded then
      some ((s.onObject outcome.leaving (·.stopExecutions)).goTo (.close outcome))
    else some (s.goTo (afterUnload outcome))
  | .close outcome => s.closeImage outcome.leaving succeeds (afterUnload outcome)
  | .enable outcome =>
    match s.handle with
    | none => some (s.goTo (.leave outcome.leaving))
    | some object =>
      some ((s.onObject object (·.enableExecutions)).goTo (afterEnable outcome))
  | .onReload previous => some (s.goTo (.leave previous))
  | .loadAgain failedCandidate =>
    some (s.openHandle succeeds (.registerAgain failedCandidate) (.leave failedCandidate))
  | .registerAgain failedCandidate =>
    some { s with listener := s.handle, control := .leave failedCandidate }
  | .abort object => s.drainTo name (.leave object)
  | .leave object =>
    if (s.objects object).isLoaded then
      some ((s.onObject object (·.stopExecutions)).goTo (.finalClose object))
    else some (s.goTo (.destroy object))
  | .finalClose object => s.closeImage object succeeds (.destroy object)
  | .destroy object => some { s with destroyed := object :: s.destroyed, control := .idle }

inductive Step where
  | fetch (t : ℕ)
  | acquire (t : ℕ)
  | prepare (t : ℕ) (succeeds : Bool)
  | emplace (t : ℕ) (admission : Exec.Admission)
  | takeCommand (w : ℕ)
  | execute (w : ℕ)
  | destroyCommand (w : ℕ)
  | finishCommand (w : ℕ)
  | reloadDirect (dynamic : Bool) (candidate : Option Bool)
  | advance (succeeds : Bool)

def step (name : String) : Transition Reload Step
  | s, .fetch t => s.fetch t
  | s, .acquire t => s.acquire t
  | s, .prepare t succeeds => s.prepare t succeeds
  | s, .emplace t admission => s.emplace name t admission
  | s, .takeCommand w => s.takeCommand w
  | s, .execute w => s.execute w
  | s, .destroyCommand w => s.destroyCommand w
  | s, .finishCommand w => s.finishCommand name w
  | s, .reloadDirect dynamic candidate => s.reloadDirect dynamic candidate
  | s, .advance succeeds => s.advance name succeeds

-- The objects that a step reaches through a captured pointer, of the listener or of a closure.
def dereferences (s : Reload) : Step → List ℕ
  | .acquire t =>
    match s.deliveries[t]? with
    | some (.acquiring object _) => [object]
    | _ => []
  | .prepare t _ =>
    match s.deliveries[t]? with
    | some (.holding object) => [object]
    | _ => []
  | .emplace t _ =>
    match s.deliveries[t]? with
    | some (.prepared object) => [object]
    | _ => []
  | .execute w | .destroyCommand w =>
    match s.runners[w]? with
    | some (.running object) => [object]
    | _ => []
  | .advance _ =>
    match s.control with
    | .retire _ closures => closures
    | _ => []
  | .fetch _ | .takeCommand _ | .finishCommand _ | .reloadDirect _ _ => []

end Reload

end Glider.Modules

import Glider.Lib.Threads

namespace Glider.Modules.Admission

open Glider.Lib Glider.Lib.Threads

-- What the lease protocol reads and writes. Module objects are numbered in the order they are made.
-- `shared` counts the shared leases of an object, `queued` those that queued closures hold,
-- `writers` are the threads that wait for the exclusive lease, and `image` is the thread that has
-- the object's own mutex.
structure Core where
  mutex : Option ℕ
  names : List String
  handles : String → Option ℕ
  listeners : String → Option ℕ
  accepting : ℕ → Bool
  dynamic : ℕ → Bool
  loaded : ℕ → Bool
  image : ℕ → Option ℕ
  shared : ℕ → ℕ
  queued : ℕ → ℕ
  exclusive : ℕ → Bool
  writers : ℕ → List ℕ
  control : Option ℕ
  made : ℕ

-- Which thread a `std::shared_mutex` lets in for a shared lease while no thread has the exclusive
-- one.
structure Policy where
  admits : Core → ℕ → ℕ → Bool

-- The threads that it keeps waiting, wait behind a thread that waits for the exclusive lease.
def Policy.Documented (policy : Policy) : Prop :=
  ∀ (c : Core) (t object : ℕ), c.exclusive object = false → c.writers object = [] →
    policy.admits c t object = true

-- What other components decide.
inductive Check where
  | isDynamic (object : ℕ)
  | hasName (object : ℕ) (name : String)
  | prepareCommand
deriving DecidableEq

-- `close` is what `unload` of an object does under the exclusive lease, and `finish` the end of a
-- task of the control worker. `elsewhere` stands for statements about other components.
inductive Op where
  | lock
  | unlock
  | find (name : String)
  | enterImage (object : ℕ)
  | isLoaded (object : ℕ)
  | leaveImage (object : ℕ)
  | check (check : Check)
  | loadAccepting (object : ℕ)
  | acquireShared (object : ℕ)
  | releaseShared (object : ℕ)
  | emplace (object : ℕ)
  | stopExecutions (object : ℕ)
  | enableExecutions (object : ℕ)
  | acquireExclusive (object : ℕ)
  | releaseExclusive (object : ℕ)
  | makeReloadCandidate (object : ℕ)
  | exchange (name : String) (object : ℕ)
  | load (object : ℕ)
  | close (object : ℕ)
  | onCommand (name : String) (object : Option ℕ)
  | listener (name : String)
  | modules
  | finish (result : Bool)
  | elsewhere
deriving DecidableEq

@[reducible] def Op.Answer : Op → Type
  | .find _ | .makeReloadCandidate _ | .exchange _ _ | .listener _ => Option ℕ
  | .isLoaded _ | .check _ | .loadAccepting _ | .load _ | .close _ => Bool
  | .modules => List (String × ℕ)
  | _ => Unit

abbrev Code := Program Op Op.Answer Empty

namespace Code

open Program (perform)

-- `CommandModule::acquireExecutionLease`.
def acquireLease (object : ℕ) : Code Bool := do
  if ← perform (Op.loadAccepting object) then
    perform (Op.acquireShared object)
    if ← perform (Op.loadAccepting object) then return true
    else
      perform (Op.releaseShared object)
      return false
  else return false

-- `isLoaded` of an object.
def isLoaded (object : ℕ) : Code Bool := do
  perform (Op.enterImage object)
  let loaded ← perform (Op.isLoaded object)
  perform (Op.leaveImage object)
  return loaded

-- The lookup of `invoke` and of `submitWork`, with the lease that is granted.
def acquireLoaded (name : String) : Code (Option ℕ) := do
  perform Op.lock
  match ← perform (Op.find name) with
  | none =>
    perform Op.unlock
    return none
  | some object =>
    if ← isLoaded object then
      let granted ← acquireLease object
      perform Op.unlock
      return if granted then some object else none
    else
      perform Op.unlock
      return none

def submitWork (name : String) : Code Unit := do
  match ← acquireLoaded name with
  | none => return
  | some object => perform (Op.emplace object)

def invoke (name : String) : Code Unit := do
  match ← acquireLoaded name with
  | none => return
  | some object =>
    if ← perform (Op.check .prepareCommand) then perform (Op.emplace object)
    else perform (Op.releaseShared object)

-- `ModulesManagement::acquireExecutionLease`.
def acquireExecutionLease (name : String) : Code (Option ℕ) := do
  perform Op.lock
  match ← perform (Op.find name) with
  | none =>
    perform Op.unlock
    return none
  | some object =>
    let granted ← acquireLease object
    perform Op.unlock
    return if granted then some object else none

-- The closure that `load` gives to the command listener.
def deliver (name : String) : Code Unit := do
  match ← perform (Op.listener name) with
  | none => return
  | some object =>
    if ← acquireLease object then
      if ← perform (Op.check .prepareCommand) then perform (Op.emplace object)
      else perform (Op.releaseShared object)

end Code

-- What the code of a module may do. A lease that it has asked for is given back at any later time.
inductive ApiCall where
  | submitWork (name : String)
  | invoke (name : String)
  | acquireExecutionLease (name : String)
  | release

namespace Code

open Program (perform)

def release : List ℕ → Code Unit
  | [] => return
  | object :: held => do
      perform (Op.releaseShared object)
      release held

def moduleCode : List ApiCall → List ℕ → Code Unit
  | [], held => release held
  | .submitWork name :: rest, held => do
      submitWork name
      moduleCode rest held
  | .invoke name :: rest, held => do
      invoke name
      moduleCode rest held
  | .acquireExecutionLease name :: rest, held => do
      match ← acquireExecutionLease name with
      | none => moduleCode rest held
      | some object => moduleCode rest (object :: held)
  | .release :: rest, held =>
    match held with
    | [] => moduleCode rest []
    | object :: held => do
        perform (Op.releaseShared object)
        moduleCode rest held

-- `stopAndAcquireUnloadLease`, with the lease given back at once.
def executionBarrier (object : ℕ) : Code Unit := do
  perform (Op.stopExecutions object)
  perform (Op.acquireExclusive object)
  perform (Op.releaseExclusive object)

-- `unload` of an object.
def unload (object : ℕ) : Code Bool := do
  perform (Op.stopExecutions object)
  perform (Op.acquireExclusive object)
  let closed ← perform (Op.close object)
  perform (Op.releaseExclusive object)
  return closed

def unloadLoaded (object : ℕ) : Code Unit := do
  if ← isLoaded object then
    let _ ← unload object

-- `~DynCommandModule`, which looks at the image without the object's mutex.
def destroyObject (object : ℕ) : Code Unit := do
  if ← perform (Op.isLoaded object) then
    let _ ← unload object

-- `load` of a registered name.
def load (name : String) : Code Bool := do
  perform Op.lock
  match ← perform (Op.find name) with
  | none =>
    perform Op.unlock
    return false
  | some object =>
    let loaded ← isLoaded object
    let opened ← if loaded then pure true else perform (Op.load object)
    if opened then
      perform (Op.onCommand name (some object))
      perform Op.unlock
      return true
    else
      perform Op.unlock
      return false

def enable (name : String) : Code Bool := do
  perform Op.lock
  match ← perform (Op.find name) with
  | none =>
    perform Op.unlock
    return false
  | some object =>
    perform (Op.enableExecutions object)
    perform Op.unlock
    return true

def unloadDirect (name : String) : Code Bool := do
  perform Op.lock
  match ← perform (Op.find name) with
  | none =>
    perform Op.unlock
    return false
  | some object =>
    perform (Op.stopExecutions object)
    perform Op.unlock
    perform (Op.onCommand name none)
    -- `cancel` and `cancelAndDrain`
    perform Op.elsewhere
    executionBarrier object
    -- `drain`, and what the listeners are told
    perform Op.elsewhere
    if ← isLoaded object then unload object
    else return true

-- The candidate is registered, and the object before it goes.
def retire (name : String) (previous : ℕ) : Code Bool := do
  perform Op.elsewhere
  executionBarrier previous
  perform Op.elsewhere
  unloadLoaded previous
  let enabled ← enable name
  destroyObject previous
  return enabled

-- The object before it is put back.
def restore (name : String) (previous : ℕ) : Code Bool := do
  perform Op.lock
  let found ← perform (Op.exchange name previous)
  perform Op.unlock
  match found with
  | none =>
    perform Op.elsewhere
    destroyObject previous
    return false
  | some failedCandidate =>
    executionBarrier previous
    perform Op.elsewhere
    if ← enable name then
      unloadLoaded failedCandidate
      let loaded ← load name
      destroyObject failedCandidate
      return loaded
    else
      destroyObject failedCandidate
      return false

def replace (name : String) (current replacement : ℕ) : Code Bool := do
  perform (Op.stopExecutions replacement)
  perform (Op.stopExecutions current)
  perform (Op.onCommand name none)
  perform Op.elsewhere
  perform Op.lock
  let found ← perform (Op.exchange name replacement)
  perform Op.unlock
  match found with
  | none =>
    perform Op.elsewhere
    destroyObject replacement
    return false
  | some previous =>
    if ← load name then retire name previous
    else restore name previous

def reloadDirect (name : String) : Code Bool := do
  perform Op.lock
  match ← perform (Op.find name) with
  | none =>
    perform Op.unlock
    return false
  | some current =>
    let loaded ← isLoaded current
    let isDynamic ← if loaded then perform (Op.check (.isDynamic current)) else pure false
    if isDynamic then
      let candidate ← perform (Op.makeReloadCandidate current)
      perform Op.unlock
      match candidate with
      | none => return false
      | some replacement =>
        let loaded ← isLoaded replacement
        if loaded && (← perform (Op.check (.hasName replacement name))) then
          replace name current replacement
        else
          destroyObject replacement
          return false
    else
      perform Op.unlock
      return false

def stopModules : List (String × ℕ) → Code Unit
  | [] => return
  | (name, object) :: rest => do
      perform (Op.stopExecutions object)
      perform (Op.onCommand name none)
      perform Op.elsewhere
      stopModules rest

def drainModules : List (String × ℕ) → Code Unit
  | [] => return
  | (_, object) :: rest => do
      perform Op.elsewhere
      executionBarrier object
      perform Op.elsewhere
      drainModules rest

-- `~ModulesManagement`.
def destroy : Code Unit := do
  let handles ← perform Op.modules
  stopModules handles
  drainModules handles

end Code

-- `run` is a worker with a queued closure, `host` code of the bot outside the modules.
inductive Call where
  | deliver (name : String)
  | run (object : ℕ) (script : List ApiCall)
  | host (script : List ApiCall)
  | unload (name : String)
  | reload (name : String)
  | destroy

def Call.program : Call → Code Unit
  | .deliver name => Code.deliver name
  | .run object script => Code.moduleCode script [object]
  | .host script => Code.moduleCode script []
  | .unload name => do
      let result ← Code.unloadDirect name
      Program.perform (Op.finish result)
  | .reload name => do
      let result ← Code.reloadDirect name
      Program.perform (Op.finish result)
  | .destroy => Code.destroy

namespace Core

variable (policy : Policy) (c : Core) (t : ℕ)

def setAccepting (object : ℕ) (accepting : Bool) : Core :=
  { c with accepting := Function.update c.accepting object accepting }

def setShared (object count : ℕ) : Core :=
  { c with shared := Function.update c.shared object count }

def setExclusive (object : ℕ) (exclusive : Bool) : Core :=
  { c with exclusive := Function.update c.exclusive object exclusive }

def setWriters (object : ℕ) (writers : List ℕ) : Core :=
  { c with writers := Function.update c.writers object writers }

def setLoaded (object : ℕ) (loaded : Bool) : Core :=
  { c with loaded := Function.update c.loaded object loaded }

def setImage (object : ℕ) (owner : Option ℕ) : Core :=
  { c with image := Function.update c.image object owner }

def setHandle (name : String) (object : ℕ) : Core :=
  { c with handles := Function.update c.handles name (some object) }

-- A dynamic object that is made with its image opened.
def makeObject : Core :=
  { (c.setAccepting c.made true).setLoaded c.made true with
    dynamic := Function.update c.dynamic c.made true
    made := c.made + 1 }

-- Whether `try_lock` on the mutex of a dynamic object succeeds.
def tryImage (object : ℕ) : Bool := !c.dynamic object || (c.image object).isNone

def acquireShared (object : ℕ) : Option Core :=
  if c.exclusive object = false ∧ policy.admits c t object = true then
    some (c.setShared object (c.shared object + 1))
  else none

-- The closure is put into its queue with the lease, or destroyed with it.
def emplace (object : ℕ) (accepted : Bool) : Core :=
  if accepted then { c with queued := Function.update c.queued object (c.queued object + 1) }
  else c.setShared object (c.shared object - 1)

-- A thread that has to wait is known to be waiting.
def acquireExclusive (object : ℕ) : Core × Option Unit :=
  if c.shared object = 0 ∧ c.exclusive object = false then
    ((c.setExclusive object true).setWriters object ((c.writers object).filter (· ≠ t)), some ())
  else (c.setWriters object ((c.writers object).insert t), none)

def exchange (name : String) (object : ℕ) : Option ℕ × Core :=
  match c.handles name with
  | none => (none, c)
  | some found => (some found, c.setHandle name object)

def act : (op : Op) → Bool → Option (Core × Option op.Answer)
  | .lock, _ => if c.mutex = none then some ({ c with mutex := some t }, some ()) else none
  | .unlock, _ => some ({ c with mutex := none }, some ())
  | .find name, _ => some (c, some (c.handles name))
  | .enterImage object, _ =>
    if c.image object = none then some (c.setImage object (some t), some ()) else none
  | .isLoaded object, _ => some (c, some (c.loaded object))
  | .leaveImage object, _ => some (c.setImage object none, some ())
  | .check (.isDynamic object), _ => some (c, some (c.dynamic object))
  | .check _, passed => some (c, some passed)
  | .loadAccepting object, _ => some (c, some (c.accepting object))
  | .acquireShared object, _ => (c.acquireShared policy t object).map fun c' => (c', some ())
  | .releaseShared object, _ => some (c.setShared object (c.shared object - 1), some ())
  | .emplace object, accepted => some (c.emplace object accepted, some ())
  | .stopExecutions object, _ => some (c.setAccepting object false, some ())
  | .enableExecutions object, _ => some (c.setAccepting object true, some ())
  | .acquireExclusive object, _ => some (c.acquireExclusive t object)
  | .releaseExclusive object, _ => some (c.setExclusive object false, some ())
  | .makeReloadCandidate _, opened =>
    if opened then some (c.makeObject, some (some c.made)) else some (c, some none)
  | .exchange name object, _ =>
    some ((c.exchange name object).2, some (c.exchange name object).1)
  | .load object, opened =>
    if opened && c.tryImage object && !c.loaded object then
      some ((c.setAccepting object true).setLoaded object true, some true)
    else some (c, some false)
  | .close object, _ =>
    if c.tryImage object && c.loaded object then some (c.setLoaded object false, some true)
    else some (c, some false)
  | .onCommand name object, _ =>
    some ({ c with listeners := Function.update c.listeners name object }, some ())
  | .listener name, _ => some (c, some (c.listeners name))
  | .modules, _ =>
    some (c, some (c.names.filterMap fun name => (c.handles name).map (name, ·)))
  | .finish _, _ => some ({ c with control := none }, some ())
  | .elsewhere, _ => some (c, some ())

-- One task at a time is on the control worker.
def begins (shutsDown : Bool) : Call → Option Core
  | .deliver _ | .host _ => some c
  | .run object _ =>
    if 0 < c.queued object then
      some { c with queued := Function.update c.queued object (c.queued object - 1) }
    else none
  | .unload _ | .reload _ => if c.control = none then some { c with control := some t } else none
  | .destroy => if shutsDown then some c else none

-- The manager before the first call, with what `loadAll` has registered.
structure Start : Prop where
  mutex : c.mutex = none
  control : c.control = none
  exclusive : ∀ object, c.exclusive object = false
  writers : ∀ object, c.writers object = []
  made : ∀ name object, c.handles name = some object → object < c.made
  apart : ∀ name name' object, c.handles name = some object → c.handles name' = some object →
    name = name'

end Core

def system (policy : Policy) (shutsDown : Bool) : System Core Call Bool Op Op.Answer Empty where
  program := Call.program
  begins c t call := c.begins t shutsDown call
  act c t op i := c.act policy t op i
  ends c _ := c
  hangsUp _ _ := none

abbrev World := Threads Core Call Op Op.Answer Empty

end Glider.Modules.Admission

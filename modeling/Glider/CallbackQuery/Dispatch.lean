import Glider.Exec.Async
import Glider.Lib.Threads
import Glider.Modules.CommandModule

namespace Glider.CallbackQuery

open Glider.Lib
open Modules (CommandModule)

-- A listener that is registered: its owner, and which listener it is.
abbrev Entry := String × ℕ

-- A callback with the query, and the object of the module whose lease it holds.
structure CallbackInvocation where
  owner : String
  module : ℕ
  callback : ℕ
  query : ℕ
  deriving DecidableEq

inductive Op where
  | lockListeners
  | unlockListeners
  | listeners
  | emplaceListener (owner : String) (listener : ℕ)
  | eraseListeners (owner : String)
  | kModuleLoader (owner : String)
  | continue_ (entry : Entry)
  | emplaceTask (invocation : CallbackInvocation)
  | takeFront
  | callback (invocation : CallbackInvocation)
  | finish (owner : String)
  | lockManager
  | unlockManager
  | find (name : String)
  | emplaceHandle (name : String) (module : ℕ)
  | acceptingExecutions (module : ℕ)
  | stopExecutions (module : ℕ)
  | enableExecutions (module : ℕ)
  | acquireShared (module : ℕ)
  | releaseShared (module : ℕ)
  | acquireExclusive (module : ℕ)
  | releaseExclusive (module : ℕ)
  | isLoaded (module : ℕ)
  | create
  | loadImage (module : ℕ)
  | closeImage (module : ℕ)
  | assignLoader (present : Bool)

abbrev Op.Answer : Op → Type
  | .listeners => List Entry
  | .kModuleLoader _ | .emplaceTask _ | .acceptingExecutions _ | .isLoaded _ | .loadImage _
  | .closeImage _ => Bool
  | .takeFront => CallbackInvocation
  | .find _ => Option ℕ
  | .create => ℕ × Option String
  | _ => Unit

abbrev Routine := Program Op Op.Answer Unit

namespace Routine

open Program (perform)

section Callbacks

-- `CommandModule::acquireExecutionLease`.
def acquireLease (module : ℕ) : Routine Bool := do
  if !(← perform (Op.acceptingExecutions module)) then pure false
  else
    perform (Op.acquireShared module)
    if !(← perform (Op.acceptingExecutions module)) then
      perform (Op.releaseShared module)
      pure false
    else pure true

-- `ModulesManagement::acquireExecutionLease`.
def acquireExecutionLease (owner : String) : Routine (Option ℕ) := do
  perform Op.lockManager
  match ← perform (Op.find owner) with
  | none =>
    perform Op.unlockManager
    pure none
  | some module =>
    let granted ← acquireLease module
    perform Op.unlockManager
    pure (if granted then some module else none)

def dispatch (query : ℕ) (entry : Entry) : Routine PUnit := do
  if !(← perform (Op.kModuleLoader entry.1)) then perform (Op.continue_ entry)
  else
    match ← acquireExecutionLease entry.1 with
    | none => perform (Op.continue_ entry)
    | some module =>
      -- An invocation that is rejected gives its lease back.
      if !(← perform (Op.emplaceTask ⟨entry.1, module, entry.2, query⟩)) then
        perform (Op.releaseShared module)
      else pure ()

def onCallbackQueryFunction (query : ℕ) : Routine Unit := do
  perform Op.lockListeners
  let entries ← perform Op.listeners
  entries.forM (dispatch query)
  perform Op.unlockListeners

def onCallbackQuery (owner : String) (listener : ℕ) : Routine Unit := do
  perform Op.lockListeners
  perform (Op.emplaceListener owner listener)
  perform Op.unlockListeners

def onUnload (name : String) : Routine Unit := do
  perform Op.lockListeners
  perform (Op.eraseListeners name)
  perform Op.unlockListeners

-- One round of a worker of the callback queue.
def work : Routine Unit := do
  let invocation ← perform Op.takeFront
  perform (Op.callback invocation)
  perform (Op.releaseShared invocation.module)
  perform (Op.finish invocation.owner)

end Callbacks

section Modules

def loadHandle (name : String) : Routine Bool := do
  match ← perform (Op.find name) with
  | none => pure false
  | some module =>
    if ← perform (Op.isLoaded module) then pure true
    else perform (Op.loadImage module)

def loadName (name : String) : Routine Bool := do
  perform Op.lockManager
  let loaded ← loadHandle name
  perform Op.unlockManager
  pure loaded

-- A module without a name, or with one that is taken, is rejected.
def register (module : ℕ) : Option String → Routine (Option String)
  | none | some "" => pure none
  | some name => do
      if (← perform (Op.find name)).isSome then pure none
      else
        perform (Op.emplaceHandle name module)
        pure (some name)

-- The module is loaded before its name is known.
def load : Routine Unit := do
  perform Op.lockManager
  let (module, image) ← perform Op.create
  let registered ← register module image
  perform Op.unlockManager
  match registered with
  | none => pure ()
  | some name =>
    let _ ← loadName name
    pure ()

def executionBarrier (module : ℕ) : Routine Unit := do
  perform (Op.stopExecutions module)
  perform (Op.acquireExclusive module)
  perform (Op.releaseExclusive module)

def unloadImage (module : ℕ) : Routine Bool := do
  perform (Op.stopExecutions module)
  perform (Op.acquireExclusive module)
  let closed ← perform (Op.closeImage module)
  perform (Op.releaseExclusive module)
  pure closed

def unloadIfLoaded (module : ℕ) : Routine Unit := do
  if ← perform (Op.isLoaded module) then do
    let _ ← unloadImage module
    pure ()
  else pure ()

def unloadDirect (name : String) : Routine Unit := do
  perform Op.lockManager
  match ← perform (Op.find name) with
  | none => perform Op.unlockManager
  | some module =>
    perform (Op.stopExecutions module)
    perform Op.unlockManager
    executionBarrier module
    onUnload name
    unloadIfLoaded module

def enable (name : String) : Routine Unit := do
  perform Op.lockManager
  match ← perform (Op.find name) with
  | none => perform Op.unlockManager
  | some module =>
    perform (Op.enableExecutions module)
    perform Op.unlockManager

-- The replacement could not be registered.
def restore (name : String) (current candidate : ℕ) : Routine Unit := do
  perform Op.lockManager
  perform (Op.emplaceHandle name current)
  perform Op.unlockManager
  executionBarrier current
  enable name
  unloadIfLoaded candidate
  let _ ← loadName name
  pure ()

def handOver (name : String) (current candidate : ℕ) : Routine Unit := do
  perform (Op.stopExecutions candidate)
  perform (Op.stopExecutions current)
  perform Op.lockManager
  perform (Op.emplaceHandle name candidate)
  perform Op.unlockManager
  if ← loadName name then
    executionBarrier current
    onUnload name
    unloadIfLoaded current
    enable name
  else restore name current candidate

def reloadDirect (name : String) : Routine Unit := do
  perform Op.lockManager
  match ← perform (Op.find name) with
  | none => perform Op.unlockManager
  | some current =>
    if ← perform (Op.isLoaded current) then
      let (candidate, image) ← perform Op.create
      perform Op.unlockManager
      if image = some name then handOver name current candidate
      else pure ()
    else perform Op.unlockManager

end Modules

end Routine

structure State where
  loader : Bool
  handles : String → Option ℕ
  modules : ℕ → CommandModule
  created : ℕ
  manager : Option ℕ
  listeners : List Entry
  listenersMutex : Option ℕ
  queryAsync : Exec.Async CallbackInvocation

inductive Call where
  | callbackQuery (query : ℕ)
  | onCallbackQuery (owner : String) (listener : ℕ)
  | work
  | load
  | unload (name : String)
  | reload (name : String)
  | assignLoader (present : Bool)

-- What the files of the modules come to: an image that names its module, or none.
inductive Choice where
  | fails
  | succeeds (name : String)

def Choice.name? : Choice → Option String
  | .fails => none
  | .succeeds name => some name

-- A multimap keeps its entries in the order of the keys, and those of one key as they came.
def emplaceListener (listeners : List Entry) (entry : Entry) : List Entry :=
  listeners.takeWhile (fun e => !(entry.1 < e.1)) ++
    entry :: listeners.dropWhile fun e => !(entry.1 < e.1)

namespace State

def initial (maxQueueSize : ℕ) : State where
  loader := false
  handles _ := none
  modules _ := .create
  created := 0
  manager := none
  listeners := []
  listenersMutex := none
  queryAsync := .create maxQueueSize

variable (s : State)

def setModule (module : ℕ) (m : CommandModule) : State :=
  { s with modules := Function.update s.modules module m }

-- A new object is loaded at once, if there is an image for it.
def create (choice : Choice) : State × (ℕ × Option String) :=
  let m := if choice.name?.isSome then CommandModule.create.openImage.enableExecutions else .create
  ({ s.setModule s.created m with created := s.created + 1 }, (s.created, choice.name?))

def loadImage (module : ℕ) : Choice → State × Bool
  | .succeeds _ => (s.setModule module (s.modules module).openImage.enableExecutions, true)
  | .fails => (s, false)

def closeImage (module : ℕ) : Choice → State × Bool
  | .succeeds _ => (s.setModule module (s.modules module).close, true)
  | .fails => (s, false)

end State

def act (s : State) (t : ℕ) : (op : Op) → Choice → Option (State × Option op.Answer)
  | .lockListeners, _ =>
    if s.listenersMutex = none then some ({ s with listenersMutex := some t }, some ()) else none
  | .unlockListeners, _ => some ({ s with listenersMutex := none }, some ())
  | .listeners, _ => some (s, some s.listeners)
  | .emplaceListener owner listener, _ =>
    some ({ s with listeners := CallbackQuery.emplaceListener s.listeners (owner, listener) },
      some ())
  | .eraseListeners owner, _ =>
    some ({ s with listeners := s.listeners.filter fun e => e.1 != owner }, some ())
  | .kModuleLoader _, _ => some (s, some s.loader)
  | .continue_ _, _ => some (s, some ())
  | .emplaceTask invocation, _ =>
    let r := s.queryAsync.emplaceTask invocation.owner invocation
    some ({ s with queryAsync := r.2 }, some r.1)
  | .takeFront, _ =>
    s.queryAsync.takeFront.map fun (front, queryAsync) => ({ s with queryAsync }, some front.2)
  | .callback _, _ => some (s, some ())
  | .finish owner, _ => some ({ s with queryAsync := s.queryAsync.finish owner }, some ())
  | .lockManager, _ =>
    if s.manager = none then some ({ s with manager := some t }, some ()) else none
  | .unlockManager, _ => some ({ s with manager := none }, some ())
  | .find name, _ => some (s, some (s.handles name))
  | .emplaceHandle name module, _ =>
    some ({ s with handles := Function.update s.handles name (some module) }, some ())
  | .acceptingExecutions module, _ => some (s, some (s.modules module).acceptingExecutions)
  | .stopExecutions module, _ =>
    some (s.setModule module (s.modules module).stopExecutions, some ())
  | .enableExecutions module, _ =>
    some (s.setModule module (s.modules module).enableExecutions, some ())
  | .acquireShared module, _ =>
    (s.modules module).acquireShared.map fun m => (s.setModule module m, some ())
  | .releaseShared module, _ =>
    some (s.setModule module ((s.modules module).releaseShared 1), some ())
  | .acquireExclusive module, _ =>
    (s.modules module).acquireExclusive.map fun m => (s.setModule module m, some ())
  | .releaseExclusive module, _ =>
    some (s.setModule module (s.modules module).releaseExclusive, some ())
  | .isLoaded module, _ => some (s, some (s.modules module).isLoaded)
  | .create, choice => some ((s.create choice).1, some (s.create choice).2)
  | .loadImage module, choice =>
    some ((s.loadImage module choice).1, some (s.loadImage module choice).2)
  | .closeImage module, choice =>
    some ((s.closeImage module choice).1, some (s.closeImage module choice).2)
  | .assignLoader present, _ => some ({ s with loader := present }, some ())

def system : System State Call Choice Op Op.Answer Unit where
  program
    | .callbackQuery query => Routine.onCallbackQueryFunction query
    | .onCallbackQuery owner listener => Routine.onCallbackQuery owner listener
    | .work => Routine.work
    | .load => Routine.load
    | .unload name => Routine.unloadDirect name
    | .reload name => Routine.reloadDirect name
    | .assignLoader present => Program.perform (Op.assignLoader present)
  begins s _ _ := some s
  act s t op choice := act s t op choice
  ends s _ := s
  hangsUp _ _ := none

abbrev World := Threads State Call Op Op.Answer Unit

abbrev Step := Move Call Choice

abbrev History := List (ℕ × Event Call Op Op.Answer Unit)

def step : Transition World Step := Threads.step system

def World.initial (maxQueueSize : ℕ) : World := Threads.initial (.initial maxQueueSize)

end Glider.CallbackQuery

import Mathlib.Data.List.Basic
import Mathlib.Logic.Function.Basic
import Glider.Lib.Transition
import Mathlib.Algebra.Order.Ring.Nat

namespace Glider.AnyMessage

open Glider.Lib

-- A shared reference to a registered callback: its id and the command that owns it.
structure Ref where
  id : ℕ
  ownerCommand : String
deriving DecidableEq

-- Messages are numbered in the order in which they are enqueued. `since` is the number of messages
-- that were enqueued before the callback was registered.
structure CallbackEntry where
  id : ℕ
  ownerCommand : String
  pending : List ℕ
  scheduled : Bool
  cancelled : Bool
  since : ℕ

def CallbackEntry.ref (e : CallbackEntry) : Ref := ⟨e.id, e.ownerCommand⟩

-- A worker executes a callback from the moment it takes the message to the section after the
-- callback has returned. It then gives up its reference, then its lease, and finally erases an
-- entry that is to be retired.
inductive Worker where
  | idle
  | executing (entry : Ref) (message : ℕ)
  | releasing (entry : Ref) (retire : Bool)
  | dropped (entry : Ref) (retire : Bool)
  | erasing (entry : Ref)
deriving DecidableEq

-- The stages of `removeCallbacksForCommand`: the request is counted, the registry has been gone
-- through, and the request is no longer counted while the leases of the removed entries run out.
-- The call keeps its references to the removed entries until it returns; those it still has to wait
-- for are `left`.
inductive Stage where
  | published
  | detached (removed : List ℕ)
  | waiting (removed left : List ℕ)
  | returned
deriving DecidableEq

-- A call of `removeCallbacksForCommand`. `caller` is the worker that makes it from inside the
-- callback `current`; other threads have none. `before` is the next free id when the call began.
structure Removal where
  caller : Option ℕ
  current : Option Ref
  command : String
  before : ℕ
  stage : Stage
deriving DecidableEq

inductive Event where
  | registered (entry : Ref) (since : ℕ)
  | enqueued (message : ℕ) (result : Bool) (receivers : List Ref)
  | delivered (entry : Ref) (message : ℕ)
deriving DecidableEq

-- The dispatcher with its workers and every call of `removeCallbacksForCommand` made so far. `leases`
-- has the counters of the entries' drain controls by id. `history` is newest first.
structure Dispatcher where
  maxPendingInvocations : ℕ
  cancellationRequests : ℕ
  callbacks : List CallbackEntry
  ready : List ℕ
  pendingInvocations : ℕ
  nextId : ℕ
  leases : ℕ → ℕ
  workers : List Worker
  removals : List Removal
  messages : ℕ
  history : List Event

def kMaxCallbacks : ℕ := 64

namespace Dispatcher

def create (workerCount maxPendingInvocations : ℕ) : Dispatcher where
  maxPendingInvocations := maxPendingInvocations
  cancellationRequests := 0
  callbacks := []
  ready := []
  pendingInvocations := 0
  nextId := 1
  leases := fun _ => 0
  workers := List.replicate workerCount .idle
  removals := []
  messages := 0
  history := []

def findEntry (d : Dispatcher) (id : ℕ) : Option CallbackEntry :=
  d.callbacks.find? fun e => e.id == id

def onEntry (d : Dispatcher) (id : ℕ) (f : CallbackEntry → CallbackEntry) : List CallbackEntry :=
  d.callbacks.map fun e => if e.id = id then f e else e

-- What is left of the ready queue and of the count when the messages of an entry are dropped.
def clearPending (e : CallbackEntry) (ready : List ℕ) (pendingInvocations : ℕ) : List ℕ × ℕ :=
  (ready.filter (· ≠ e.id),
    if e.pending.length > pendingInvocations then 0 else pendingInvocations - e.pending.length)

def retired (e : CallbackEntry) : CallbackEntry :=
  { e with cancelled := true, pending := [], scheduled := false }

def registerCallback (d : Dispatcher) (ownerCommand : String) (hasCallback : Bool) :
    Bool × Dispatcher :=
  if hasCallback = false ∨ kMaxCallbacks ≤ d.callbacks.length ∨ d.nextId = 2 ^ 64 - 1 then
    (false, d)
  else
    (true, { d with
      callbacks := d.callbacks ++ [⟨d.nextId, ownerCommand, [], false, false, d.messages⟩]
      nextId := d.nextId + 1
      history := .registered ⟨d.nextId, ownerCommand⟩ d.messages :: d.history })

def eligible (d : Dispatcher) : List CallbackEntry := d.callbacks.filter fun e => !e.cancelled

-- The body of the loop in `enqueue` for one entry.
def push (message : ℕ) (e : CallbackEntry) : CallbackEntry :=
  if e.cancelled then e else { e with pending := e.pending ++ [message], scheduled := true }

def enqueue (d : Dispatcher) : Bool × Dispatcher :=
  if d.eligible.length = 0 then
    (true, { d with messages := d.messages + 1,
                    history := .enqueued d.messages true [] :: d.history })
  else if d.pendingInvocations > d.maxPendingInvocations ∨
      d.eligible.length > d.maxPendingInvocations - d.pendingInvocations then
    (false, { d with messages := d.messages + 1,
                     history := .enqueued d.messages false [] :: d.history })
  else
    (true, { d with
      callbacks := d.callbacks.map (push d.messages)
      ready := d.ready ++ (d.eligible.filter fun e => !e.scheduled).map CallbackEntry.id
      pendingInvocations := d.pendingInvocations + d.eligible.length
      messages := d.messages + 1
      history := .enqueued d.messages true (d.eligible.map CallbackEntry.ref) :: d.history })

-- The first section of the worker loop. The gate is closed while a removal is being published.
def take (d : Dispatcher) (worker : ℕ) : Option Dispatcher :=
  match d.workers[worker]?, d.ready with
  | some .idle, id :: rest =>
    if d.cancellationRequests = 0 then
      match d.findEntry id with
      | none => some { d with ready := rest }
      | some e =>
        match e.cancelled, e.pending with
        | false, message :: pending =>
          some { d with
            callbacks := d.onEntry id fun e => { e with pending := pending }
            ready := rest
            pendingInvocations := d.pendingInvocations - 1
            leases := Function.update d.leases id (d.leases id + 1)
            workers := d.workers.set worker (.executing e.ref message)
            history := .delivered e.ref message :: d.history }
        | _, _ =>
          some { d with callbacks := d.onEntry id fun e => { e with scheduled := false },
                        ready := rest }
    else none
  | _, _ => none

-- A worker inside `removeCallbacksForCommand` does not return from its callback.
def busy (d : Dispatcher) (worker : ℕ) : Bool :=
  d.removals.any fun r => r.caller == some worker && r.stage != .returned

-- The section after the callback. `deregister` is set by its result, by an exception, and when the
-- owning module gave no execution lease.
def finish (d : Dispatcher) (worker : ℕ) (deregister : Bool) : Option Dispatcher :=
  match d.workers[worker]? with
  | some (.executing entry _) =>
    if d.busy worker = false then
      match d.findEntry entry.id with
      | none =>
        some { d with workers := d.workers.set worker (.releasing entry deregister) }
      | some e =>
        if deregister || e.cancelled then
          let cleared := clearPending e d.ready d.pendingInvocations
          some { d with callbacks := d.onEntry e.id retired, ready := cleared.1,
                        pendingInvocations := cleared.2,
                        workers := d.workers.set worker (.releasing entry true) }
        else if e.pending ≠ [] then
          some { d with ready := d.ready ++ [e.id],
                        workers := d.workers.set worker (.releasing entry false) }
        else
          some { d with callbacks := d.onEntry e.id fun e => { e with scheduled := false },
                        workers := d.workers.set worker (.releasing entry false) }
    else none
  | _ => none

-- `releaseLease`: the reference goes first, then the lease.
def drop (d : Dispatcher) (worker : ℕ) : Option Dispatcher :=
  match d.workers[worker]? with
  | some (.releasing entry retire) =>
    some { d with workers := d.workers.set worker (.dropped entry retire) }
  | _ => none

def release (d : Dispatcher) (worker : ℕ) : Option Dispatcher :=
  match d.workers[worker]? with
  | some (.dropped entry retire) =>
    some { d with
      leases := Function.update d.leases entry.id (d.leases entry.id - 1)
      workers := d.workers.set worker (if retire then .erasing entry else .idle) }
  | _ => none

def erase (d : Dispatcher) (worker : ℕ) : Option Dispatcher :=
  match d.workers[worker]? with
  | some (.erasing entry) =>
    some { d with
      callbacks := d.callbacks.eraseP fun e => e.id == entry.id && e.cancelled
      workers := d.workers.set worker .idle }
  | _ => none

def currentEntry (d : Dispatcher) (worker : ℕ) : Option Ref :=
  match d.workers[worker]? with
  | some (.executing entry _) => some entry
  | _ => none

-- The start of `removeCallbacksForCommand`, from a thread of its own or from inside a callback.
def publish (d : Dispatcher) (caller : Option ℕ) (command : String) : Option Dispatcher :=
  let call : Option Ref → Removal := fun current => ⟨caller, current, command, d.nextId, .published⟩
  match caller with
  | none =>
    some { d with cancellationRequests := d.cancellationRequests + 1,
                  removals := d.removals ++ [call none] }
  | some worker =>
    match d.currentEntry worker, d.busy worker with
    | some entry, false =>
      some { d with cancellationRequests := d.cancellationRequests + 1,
                    removals := d.removals ++ [call (some entry)] }
    | _, _ => none

-- The loop over the registry: the entries that stay, the ids that are taken out, the ready queue and
-- the count. The entry of the calling callback stays, cancelled.
def detach (command : String) (current : Option ℕ) :
    List CallbackEntry → List ℕ → ℕ → List CallbackEntry × List ℕ × List ℕ × ℕ
  | [], ready, pendingInvocations => ([], [], ready, pendingInvocations)
  | e :: rest, ready, pendingInvocations =>
    if e.ownerCommand ≠ command then
      let r := detach command current rest ready pendingInvocations
      (e :: r.1, r.2)
    else
      let cleared := clearPending e ready pendingInvocations
      let r := detach command current rest cleared.1 cleared.2
      if current = some e.id then (retired e :: r.1, r.2) else (r.1, e.id :: r.2.1, r.2.2)

def section' (d : Dispatcher) (k : ℕ) : Option Dispatcher :=
  match d.removals[k]? with
  | some ⟨caller, current, command, before, .published⟩ =>
    let r := detach command (current.map Ref.id) d.callbacks d.ready d.pendingInvocations
    some { d with
      callbacks := r.1
      ready := r.2.2.1
      pendingInvocations := r.2.2.2
      removals := d.removals.set k ⟨caller, current, command, before, .detached r.2.1⟩ }
  | _ => none

def unpublish (d : Dispatcher) (k : ℕ) : Option Dispatcher :=
  match d.removals[k]? with
  | some ⟨caller, current, command, before, .detached removed⟩ =>
    some { d with
      cancellationRequests := d.cancellationRequests - 1
      removals :=
        d.removals.set k ⟨caller, current, command, before, .waiting removed removed⟩ }
  | _ => none

-- The wait for the next removed entry ends.
def await (d : Dispatcher) (k : ℕ) : Option Dispatcher :=
  match d.removals[k]? with
  | some ⟨caller, current, command, before, .waiting removed (id :: left)⟩ =>
    if d.leases id = 0 then
      some { d with
        removals := d.removals.set k ⟨caller, current, command, before, .waiting removed left⟩ }
    else none
  | _ => none

def return' (d : Dispatcher) (k : ℕ) : Option Dispatcher :=
  match d.removals[k]? with
  | some ⟨caller, current, command, before, .waiting _ []⟩ =>
    some { d with
      removals := d.removals.set k ⟨caller, current, command, before, .returned⟩ }
  | _ => none

inductive Step where
  | registerCallback (ownerCommand : String) (hasCallback : Bool)
  | enqueue
  | take (worker : ℕ)
  | finish (worker : ℕ) (deregister : Bool)
  | drop (worker : ℕ)
  | release (worker : ℕ)
  | erase (worker : ℕ)
  | publish (caller : Option ℕ) (command : String)
  | section' (call : ℕ)
  | unpublish (call : ℕ)
  | await (call : ℕ)
  | return' (call : ℕ)

def step : Transition Dispatcher Step
  | d, .registerCallback ownerCommand hasCallback =>
    some (d.registerCallback ownerCommand hasCallback).2
  | d, .enqueue => some d.enqueue.2
  | d, .take worker => d.take worker
  | d, .finish worker deregister => d.finish worker deregister
  | d, .drop worker => d.drop worker
  | d, .release worker => d.release worker
  | d, .erase worker => d.erase worker
  | d, .publish caller command => d.publish caller command
  | d, .section' call => d.section' call
  | d, .unpublish call => d.unpublish call
  | d, .await call => d.await call
  | d, .return' call => d.return' call

end Dispatcher

end Glider.AnyMessage

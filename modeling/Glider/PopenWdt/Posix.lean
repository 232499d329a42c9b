import Glider.Lib.Threads

namespace Glider.PopenWdt

open Glider.Lib Glider.Lib.Threads

-- The process of the command. `exited` is a zombie, and `reaped` one that `waitpid` has returned.
inductive Child where
  | running
  | exited (status : ℕ)
  | reaped (status : ℕ)
deriving DecidableEq

-- What the private data holds, with what the threads are at: `sleepers` wait on the condition
-- without a timeout, `watchdog` is the thread that was created at the start, `cancels` are the
-- calls of `popen_watchdog_cancel` that have not returned, and `orphan` says that a detached reaper
-- has been created that has not begun. `members` counts the other processes of the command's group,
-- `reused` says that the kernel has given its id to a stranger, and `struck` that this one has been
-- sent a signal.
structure Core where
  child : Child
  status : ℕ
  childReaped : Bool
  reaping : Bool
  terminating : Bool
  reapAbandoned : Bool
  watchdogActivated : Bool
  watchdogStarted : Bool
  watchdogJoined : Bool
  sleepers : List ℕ
  watchdog : Option ℕ
  ended : Bool
  cancels : List ℕ
  owner : Option ℕ
  closing : Bool
  orphan : Bool
  freed : Bool
  members : ℕ
  reused : Bool
  struck : Bool

-- After `popen_watchdog_start`.
def Core.start (watchdogEnabled : Bool) : Core where
  child := .running
  status := 0
  childReaped := false
  reaping := false
  terminating := false
  reapAbandoned := false
  watchdogActivated := false
  watchdogStarted := watchdogEnabled
  watchdogJoined := false
  sleepers := []
  watchdog := none
  ended := false
  cancels := []
  owner := none
  closing := false
  orphan := false
  freed := false
  members := 0
  reused := false
  struck := false

inductive Waited where
  | changed (status : ℕ)
  | unchanged
  | noChild

inductive Sent where
  | sent
  | permission
  | noProcess
deriving DecidableEq

inductive Wake where
  | timedOut
  | leaves
  | failed

inductive Request where
  | gone
  | busy
  | mine

-- Sections of the mutex, and what is done outside them. A deadline is the number of rounds of a
-- loop that end before it.
inductive Op where
  | claimReaper
  | waitpid (nohang : Bool)
  | recordStatus (status : ℕ)
  | releaseReaper
  | abandonReap
  | createReaper
  | unreaped
  | killpg (signal : ℕ)
  | kill (signal : ℕ)
  | deadline
  | sleep
  | waitTerminating
  | polls
  | asleep
  | watch
  | timedwait
  | setActivated
  | finishTermination
  | requestCancel
  | waitFinished
  | broadcast
  | join
  | readActivated
  | readStatus
  | quiesce
  | cleanup

@[reducible] def Op.Answer : Op → Type
  | .claimReaper | .unreaped | .waitTerminating | .watch | .readActivated => Bool
  | .waitpid _ => Waited
  | .killpg _ | .kill _ => Sent
  | .deadline | .polls => ℕ
  | .timedwait => Wake
  | .requestCancel => Request
  | .readStatus => Option ℕ
  | _ => Unit

abbrev Code := Program Op Op.Answer Empty

def sigterm : ℕ := 15

def sigkill : ℕ := 9

namespace Code

open Program (perform)

def processGroupExists : Code Bool := do
  return (← perform (Op.killpg 0)) != .noProcess

def leaderExists : Code Bool := do
  if ← perform Op.unreaped then return (← perform (Op.kill 0)) != .noProcess
  else return false

def commandProcessesExist : Code Bool := do
  if ← processGroupExists then return true
  else leaderExists

-- The leader may have left its group.
def signalProcessTree (signal : ℕ) : Code Unit := do
  if (← perform (Op.killpg signal)) = .noProcess then
    let _ ← perform (Op.kill signal)

def reapChildNohang : Code Bool := do
  match ← perform (Op.waitpid true) with
  | .changed status =>
    perform (Op.recordStatus status)
    return true
  | .noChild =>
    perform Op.releaseReaper
    return true
  | .unchanged => return false

def childFinishedNohang : Code Bool := do
  if ← perform Op.claimReaper then
    if ← reapChildNohang then return true
    else
      perform Op.releaseReaper
      return false
  else return false

def abandonReap : Code Unit := do
  perform Op.abandonReap
  perform Op.createReaper

-- A run is over after finitely many polls: a thread that has made all of its polls is asleep.
def pollChild : ℕ → Code Unit
  | 0 => perform Op.asleep
  | polls + 1 => do
      if ← perform Op.waitTerminating then return
      else if ← childFinishedNohang then return
      else
        perform Op.sleep
        pollChild polls

def waitForChild : Code Unit := do
  let polls ← perform Op.polls
  pollChild polls

-- The rounds after SIGTERM, with whether the leader is reaped at their end.
def grace (ownsReaper : Bool) : ℕ → Bool → Code Bool
  | 0, leaderReaped => return leaderReaped
  | rounds + 1, leaderReaped => do
      let leaderReaped ←
        if ownsReaper && !leaderReaped then reapChildNohang else pure leaderReaped
      if ← commandProcessesExist then
        perform Op.sleep
        grace ownsReaper rounds leaderReaped
      else return leaderReaped

-- The rounds after SIGKILL.
def killWait : ℕ → Code Bool
  | 0 => return false
  | rounds + 1 => do
      if ← reapChildNohang then return true
      else
        perform Op.sleep
        killWait rounds

def terminateProcessGroup : Code Unit := do
  let ownsReaper ← perform Op.claimReaper
  signalProcessTree sigterm
  let rounds ← perform Op.deadline
  let leaderReaped ← grace ownsReaper rounds false
  if ← commandProcessesExist then signalProcessTree sigkill
  if ownsReaper && !leaderReaped then
    let rounds ← perform Op.deadline
    if ← killWait rounds then return
    else abandonReap

def watchdog : Code Unit := do
  if ← perform Op.watch then
    match ← perform Op.timedwait with
    | .timedOut =>
      let _ ← childFinishedNohang
      if ← commandProcessesExist then
        perform Op.setActivated
        terminateProcessGroup
        perform Op.finishTermination
      else perform Op.finishTermination
    | _ => return

-- `popen_watchdog_cancel`.
def cancel : Code Bool := do
  match ← perform Op.requestCancel with
  | .gone => return false
  | .busy =>
    perform Op.waitFinished
    return true
  | .mine =>
    terminateProcessGroup
    perform Op.finishTermination
    return true

-- `popen_watchdog_activated`.
def activated : Code Bool := do
  waitForChild
  perform Op.broadcast
  perform Op.join
  perform Op.readActivated

-- `popen_watchdog_destroy`, with the status that the result is made of.
def destroy : Code (Option ℕ) := do
  waitForChild
  if ← processGroupExists then terminateProcessGroup
  perform Op.broadcast
  perform Op.join
  let status ← perform Op.readStatus
  perform Op.cleanup
  return status

-- The thread that has the command: it destroys the data when all cancels have returned.
def own : ℕ → Code Unit
  | 0 => do
      perform Op.quiesce
      let _ ← destroy
  | calls + 1 => do
      let _ ← activated
      own calls

def detachedReaper : Code Unit := do
  let _ ← perform (Op.waitpid false)

end Code

-- The calls of the threads, and what the processes and the kernel do: the command exits, a process
-- comes into its group or exits, and its id is given to another process.
inductive Call where
  | watchdog
  | cancel
  | own (calls : ℕ)
  | detachedReaper
  | exit (status : ℕ)
  | fork
  | leave
  | reuse

def Call.program : Call → Code Unit
  | .watchdog => Code.watchdog
  | .cancel => do
      let _ ← Code.cancel
  | .own calls => Code.own calls
  | .detachedReaper => Code.detachedReaper
  | .exit _ | .fork | .leave | .reuse => return

namespace Core

variable (c : Core) (t : ℕ)

-- Whoever waits on the condition is woken.
def broadcast : Core := { c with sleepers := [] }

def claimReaper : Bool × Core :=
  if !c.childReaped && !c.reaping && !c.reapAbandoned then (true, { c with reaping := true })
  else (false, c)

def waitpid (nohang : Bool) : Option (Core × Waited) :=
  match c.child with
  | .exited status => some ({ c with child := .reaped status }, .changed status)
  | .reaped _ => some (c, .noChild)
  | .running => if nohang then some (c, .unchanged) else none

-- The first status is kept.
def recordStatus (status : ℕ) : Core :=
  { c with
    status := if c.childReaped then c.status else status
    childReaped := true
    reaping := false }.broadcast

-- A thread that waits on the condition goes on after a broadcast, or without one.
def waitWhile {α : Type} (holds wakes : Bool) (answer : α) : Option (Core × Option α) :=
  if t ∈ c.sleepers then
    if wakes then some ({ c with sleepers := c.sleepers.erase t }, none) else none
  else if holds then some ({ c with sleepers := t :: c.sleepers }, none)
  else some (c, some answer)

def timedwait (i : ℕ) : Core × Option Wake :=
  match i with
  | 0 => ({ c with terminating := true }, some .timedOut)
  | 1 => (c, some .failed)
  | _ => if c.childReaped || c.terminating then (c, some .leaves) else (c, none)

def requestCancel : Core × Request :=
  if c.childReaped then (c, .gone)
  else if c.terminating then ({ c with sleepers := t :: c.sleepers }, .busy)
  else ({ c with terminating := true, watchdogActivated := true }.broadcast, .mine)

def join : Option Core :=
  if c.watchdogStarted && !c.watchdogJoined then
    if c.ended then some { c with watchdogJoined := true } else none
  else some c

-- A process or a group with the id of the command is its own.
def Present : Prop := (∀ status, c.child ≠ .reaped status) ∨ c.members ≠ 0

instance : Decidable c.Present :=
  match hchild : c.child with
  | .reaped status =>
    if hmembers : c.members = 0 then isFalse fun h => h.elim (· status hchild) (· hmembers)
    else isTrue (.inr hmembers)
  | .running => isTrue (.inl fun _ => hchild ▸ nofun)
  | .exited _ => isTrue (.inl fun _ => hchild ▸ nofun)

def sent : ℕ → Sent
  | 0 => .sent
  | 1 => .permission
  | _ => .noProcess

-- The leader may have left its group, and a stranger need not have a group.
def groupSent (i : ℕ) : Sent :=
  if c.members ≠ 0 then if i = 1 then .permission else .sent
  else if c.Present ∨ c.reused then sent i
  else .noProcess

def leaderSent (i : ℕ) : Sent :=
  match c.child with
  | .reaped _ => if c.reused then sent i else .noProcess
  | _ => if i = 1 then .permission else .sent

def signal (signal : ℕ) (result : Sent) : Core :=
  { c with struck := c.struck || (c.reused && signal != 0 && result == .sent) }

def reuse : Core := { c with reused := true }

def act : (op : Op) → ℕ → Option (Core × Option op.Answer)
  | .claimReaper, _ => some (c.claimReaper.2, some c.claimReaper.1)
  | .waitpid nohang, _ => (c.waitpid nohang).map fun (c', waited) => (c', some waited)
  | .recordStatus status, _ => some (c.recordStatus status, some ())
  | .releaseReaper, _ => some ({ c with reaping := false }.broadcast, some ())
  | .abandonReap, _ =>
    some ({ c with reapAbandoned := true, reaping := false }.broadcast, some ())
  | .createReaper, i => some ({ c with orphan := i = 0 }, some ())
  | .unreaped, _ => some (c, some (!c.childReaped && !c.reapAbandoned))
  | .killpg signal, i => some (c.signal signal (c.groupSent i), some (c.groupSent i))
  | .kill signal, i => some (c.signal signal (c.leaderSent i), some (c.leaderSent i))
  | .deadline, i | .polls, i => some (c, some i)
  | .asleep, _ => none
  | .waitTerminating, i =>
    c.waitWhile t (c.terminating && !c.childReaped && !c.reapAbandoned) (i = 0)
      (c.childReaped || c.reapAbandoned)
  | .watch, _ => some (c, some (!c.childReaped && !c.terminating))
  | .timedwait, i => some (c.timedwait i)
  | .setActivated, _ => some ({ c with watchdogActivated := true }, some ())
  | .finishTermination, _ => some ({ c with terminating := false }.broadcast, some ())
  | .requestCancel, _ => some ((c.requestCancel t).1, some (c.requestCancel t).2)
  | .waitFinished, i => c.waitWhile t c.terminating (i = 0) ()
  | .broadcast, _ => some (c.broadcast, some ())
  | .join, _ => c.join.map fun c' => (c', some ())
  | .readActivated, _ => some (c, some c.watchdogActivated)
  | .readStatus, _ => some (c, some (if c.childReaped then some c.status else none))
  | .quiesce, _ => if c.cancels = [] then some ({ c with closing := true }, some ()) else none
  | .cleanup, _ => some ({ c with freed := true }, some ())
  | .sleep, _ => some (c, some ())

def begins : Call → Option Core
  | .watchdog =>
    if c.watchdogStarted ∧ c.watchdog = none then some { c with watchdog := some t } else none
  | .cancel => if c.closing then none else some { c with cancels := t :: c.cancels }
  | .own _ => if c.owner = none then some { c with owner := some t } else none
  | .detachedReaper => if c.orphan then some { c with orphan := false } else none
  | .exit status => if c.child = .running then some { c with child := .exited status } else none
  | .fork =>
    if c.child = .running ∨ c.members ≠ 0 then some { c with members := c.members + 1 } else none
  | .leave => if c.members = 0 then none else some { c with members := c.members - 1 }
  | .reuse => if c.Present then none else some c.reuse

def ends : Core :=
  { c with
    cancels := c.cancels.erase t
    ended := c.ended || c.watchdog = some t }

end Core

def system : System Core Call ℕ Op Op.Answer Empty where
  program := Call.program
  begins c t call := c.begins t call
  act c t op i := c.act t op i
  ends c t := c.ends t
  hangsUp _ _ := none

abbrev World := Threads Core Call Op Op.Answer Empty

end Glider.PopenWdt

import Glider.Lib.Assoc
import Glider.Lib.Threads
import Mathlib.Data.Int.Notation

namespace Glider.Ibash

open Lib

def kMaxSessions : ℕ := 16

structure SessionKey where
  chat : ℤ
  user : ℤ
  deriving DecidableEq

-- The thread behind `reaper_`: it may be waiting for its interval or in the course of a round.
inductive Reaper
  | absent
  | waiting
  | busy (round : ℕ)
  deriving DecidableEq

-- A session is known by the number of its process. A hand-over is what one clean-up has taken, by
-- its number; `cleaned` has the calls of `cleanup` that hand-overs made.
structure Manager where
  sessions : Assoc SessionKey ℕ
  retired : List ℕ
  handed : List (List ℕ)
  cleaned : List (ℕ × ℕ)
  spawned : ℕ
  cleanupMutex : Option ℕ
  lifecycleMutex : Option ℕ
  reaper : Reaper

inductive Op
  | ensureReaper
  | find (key : SessionKey)
  | isRunning (session : ℕ)
  | isIdle (session : ℕ)
  | stopped
  | spawn
  | retireNew (session : ℕ)
  | emplace (key : SessionKey) (session : ℕ)
  | retireFound (key : SessionKey) (expected : ℕ)
  | retire (key : SessionKey)
  | requestTermination (session : ℕ)
  | execute (session : ℕ)
  | snapshot
  | lockCleanup
  | unlockCleanup
  | swapRetired
  | swapAll
  | cleanup (handOver session : ℕ)
  | lockLifecycle
  | unlockLifecycle
  | joinReaper

@[reducible] def Op.Answer : Op → Type
  | .ensureReaper => Bool
  | .find _ => Option ℕ × ℕ
  | .isRunning _ => Bool
  | .isIdle _ => Bool
  | .stopped => Bool
  | .spawn => Option ℕ
  | .emplace _ _ => Bool
  | .retireFound _ _ => Bool
  | .retire _ => Option ℕ
  | .execute _ => Bool
  | .snapshot => List (SessionKey × ℕ)
  | .swapRetired => ℕ × List ℕ
  | .swapAll => ℕ × List ℕ × List ℕ
  | _ => Unit

abbrev Prog (α : Type) := Program Op Op.Answer Empty α

def perform (op : Op) : Prog op.Answer := Program.perform op

section Programs

-- `retireSession` with the session that the caller looked up.
def retireExpected (key : SessionKey) (expected : ℕ) : Prog Unit := do
  if ← perform (.retireFound key expected) then perform (.requestTermination expected)

def startNew (key : SessionKey) : Prog Bool := do
  match ← perform .spawn with
  | none => pure false
  | some session =>
    if ← perform .stopped then
      perform (.retireNew session)
      pure false
    else perform (.emplace key session)

def startSession (key : SessionKey) : Prog Bool := do
  if ← perform .ensureReaper then
    let (existing, size) ← perform (.find key)
    match existing with
    | none => if kMaxSessions ≤ size then pure false else startNew key
    | some session =>
      if ← perform (.isRunning session) then pure false
      else
        retireExpected key session
        startNew key
  else pure false

inductive ExecuteStatus
  | success
  | noSession
  | failed

def isGone (session : ℕ) : Prog Bool := do
  if ← perform (.isIdle session) then pure true
  else
    let running ← perform (.isRunning session)
    pure !running

-- `executeCommand` on the session that it found.
def executeFound (key : SessionKey) (session : ℕ) : Prog ExecuteStatus := do
  if ← isGone session then
    retireExpected key session
    pure .noSession
  else if ← perform (.execute session) then pure .success
  else
    retireExpected key session
    pure .failed

def executeCommand (key : SessionKey) : Prog ExecuteStatus := do
  match (← perform (.find key)).1 with
  | none => pure .noSession
  | some session => executeFound key session

def retireSession (key : SessionKey) : Prog Bool := do
  match ← perform (.retire key) with
  | none => pure false
  | some session =>
    perform (.requestTermination session)
    pure true

def expire (entry : SessionKey × ℕ) : Prog PUnit := do
  if ← isGone entry.2 then retireExpected entry.1 entry.2

def expireIdle : Prog PUnit := do
  let entries ← perform .snapshot
  entries.forM expire

def cleanupRetired : Prog Unit := do
  perform .lockCleanup
  let (handOver, retired) ← perform .swapRetired
  retired.forM fun session => perform (.requestTermination session)
  retired.forM fun session => perform (.cleanup handOver session)
  perform .unlockCleanup

-- One round of `reaperLoop`.
def reap : Prog Unit := do
  expireIdle
  cleanupRetired

def shutdownSessions : Prog Unit := do
  perform .lockCleanup
  let (handOver, sessions, retired) ← perform .swapAll
  sessions.forM fun session => perform (.requestTermination session)
  retired.forM fun session => perform (.requestTermination session)
  sessions.forM fun session => perform (.cleanup handOver session)
  retired.forM fun session => perform (.cleanup handOver session)
  perform .unlockCleanup

def shutdown : Prog Unit := do
  perform .lockLifecycle
  perform .joinReaper
  shutdownSessions
  perform .unlockLifecycle

inductive Call
  | start (key : SessionKey)
  | execute (key : SessionKey)
  | retire (key : SessionKey)
  | reap
  | shutdown

def program : Call → Prog Unit
  | .start key => do
    let _ ← startSession key
    pure ()
  | .execute key => do
    let _ ← executeCommand key
    pure ()
  | .retire key => do
    let _ ← retireSession key
    pure ()
  | .reap => reap
  | .shutdown => shutdown

end Programs

section Sections

namespace Manager

def initial : Manager := ⟨.empty, [], [], [], 0, none, none, .absent⟩

def live (s : Manager) : List ℕ := s.sessions.members.map Prod.snd

-- The section in which a new session is put into the table, or straight among the retired ones.
def emplace (s : Manager) (key : SessionKey) (session : ℕ) : Bool × Manager :=
  if kMaxSessions ≤ s.sessions.members.length ∨ (s.sessions.find? key).isSome then
    (false, { s with retired := s.retired ++ [session] })
  else (true, { s with sessions := s.sessions.insert key session })

def retireFound (s : Manager) (key : SessionKey) (expected : ℕ) : Bool × Manager :=
  if s.sessions.find? key = some expected then
    (true, { s with sessions := s.sessions.erase key, retired := s.retired ++ [expected] })
  else (false, s)

def retire (s : Manager) (key : SessionKey) : Option ℕ × Manager :=
  match s.sessions.find? key with
  | none => (none, s)
  | some session =>
    (some session,
      { s with sessions := s.sessions.erase key, retired := s.retired ++ [session] })

def swapRetired (s : Manager) : Manager :=
  { s with retired := [], handed := s.handed ++ [s.retired] }

def swapAll (s : Manager) : Manager :=
  { s with sessions := .empty, retired := [], handed := s.handed ++ [s.live ++ s.retired] }

end Manager

-- What the surroundings choose: what a process, a clock or the start of one comes to.
abbrev Choice := Bool

-- An operation that waits for a lock or for the reaper cannot be made before.
def act (s : Manager) (t : ℕ) : (op : Op) → Choice → Option (Manager × Option op.Answer)
  | .ensureReaper, choice =>
    if s.lifecycleMutex.isSome then none
    else if choice then
      some ({ s with reaper := if s.reaper = .absent then .waiting else s.reaper }, some true)
    else some (s, some (s.reaper ≠ .absent : Bool))
  | .find key, _ => some (s, some (s.sessions.find? key, s.sessions.members.length))
  | .isRunning _, choice => some (s, some choice)
  | .isIdle _, choice => some (s, some choice)
  | .stopped, choice => some (s, some choice)
  | .spawn, choice =>
    if choice then some ({ s with spawned := s.spawned + 1 }, some (some s.spawned))
    else some (s, some none)
  | .retireNew session, _ =>
    some ({ s with retired := s.retired ++ [session] }, some ())
  | .emplace key session, _ =>
    some ((s.emplace key session).2, some (s.emplace key session).1)
  | .retireFound key expected, _ =>
    some ((s.retireFound key expected).2, some (s.retireFound key expected).1)
  | .retire key, _ => some ((s.retire key).2, some (s.retire key).1)
  | .requestTermination _, _ => some (s, some ())
  | .execute _, choice => some (s, some choice)
  | .snapshot, _ => some (s, some s.sessions.members)
  | .lockCleanup, _ =>
    if s.cleanupMutex.isSome then none else some ({ s with cleanupMutex := some t }, some ())
  | .unlockCleanup, _ => some ({ s with cleanupMutex := none }, some ())
  | .swapRetired, _ => some (s.swapRetired, some (s.handed.length, s.retired))
  | .swapAll, _ => some (s.swapAll, some (s.handed.length, s.live, s.retired))
  | .cleanup handOver session, _ =>
    some ({ s with cleaned := (handOver, session) :: s.cleaned }, some ())
  | .lockLifecycle, _ =>
    if s.lifecycleMutex.isSome then none else some ({ s with lifecycleMutex := some t }, some ())
  | .unlockLifecycle, _ => some ({ s with lifecycleMutex := none }, some ())
  | .joinReaper, _ =>
    match s.reaper with
    | .busy _ => none
    | _ => some ({ s with reaper := .absent }, some ())

-- A round of the reaper begins when the last one is over.
def begins (s : Manager) (t : ℕ) : Call → Option Manager
  | .reap => if s.reaper = .waiting then some { s with reaper := .busy t } else none
  | _ => some s

def ends (s : Manager) (t : ℕ) : Manager :=
  if s.reaper = .busy t then { s with reaper := .waiting } else s

def system : System Manager Call Choice Op Op.Answer Empty :=
  ⟨program, begins, act, ends, fun _ _ => none⟩

end Sections

end Glider.Ibash

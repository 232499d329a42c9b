import Glider.Lib.Threads
import Glider.Work.Jobs

namespace Glider.Llm.Outbound

open Glider.Lib
open Work (Lane)

-- What the promise of an operation is set to. `invoke` holds on to the promise while it waits, so
-- that a promise is not broken when the closure is destroyed.
inductive Outcome (V E : Type) where
  | value (v : V)
  | exception (e : E)
  | cancelled

-- What the caller of `invoke` is told.
inductive Report (V E : Type) where
  | returned (value : Option V)
  | threw (thrown : Option E)
  deriving DecidableEq

-- What happens to the lane besides. The work of others takes the same steps as an operation.
inductive Elsewhere where
  | tick (elapsed : ℕ)
  | submitWork (owner : String) (delay : ℕ)
  | monitor
  | cancelOwner (owner : String)
  | cancelWork (owner : String) (id : ℕ)
  | shutDown

inductive Op (V E : Type) where
  | stopRequested
  | submitCommandWork
  | waitFor (id : ℕ)
  | givesUp
  | pause
  | cancelCommandWork (id : ℕ)
  | get (id : ℕ)
  | report (report : Report V E)
  | take
  | checkDeadline (id : ℕ)
  | checkStop (id : ℕ)
  | enter (id : ℕ)
  | operation (id : ℕ)
  | set (id : ℕ) (outcome : Outcome V E)
  | complete (id : ℕ)
  | erase (id : ℕ)
  | elsewhere (event : Elsewhere)

abbrev Op.Answer {V E : Type} : Op V E → Type
  | .stopRequested | .waitFor _ | .givesUp | .checkStop _ | .enter _ => Bool
  | .submitCommandWork => Option ℕ
  | .pause => Empty
  | .get _ => Outcome V E
  | .take => ℕ
  | .operation _ => Except E V
  | _ => Unit

section Programs

variable {V E : Type}

abbrev Routine (V E α : Type) := Program (Op V E) Op.Answer Unit α

namespace Routine

open Program (perform)

-- `future.get()`.
def reportOf : Outcome V E → Report V E
  | .value v => .returned (some v)
  | .exception e => .threw (some e)
  | .cancelled => .threw none

-- The waiting loop, as far as the given number of rounds.
def await (id : ℕ) : ℕ → Routine V E (Report V E)
  | 0 => do nomatch ← perform (Op.pause : Op V E)
  | rounds + 1 => do
      if ← perform (Op.waitFor id) then
        let outcome ← perform (Op.get id)
        pure (reportOf outcome)
      else if ← perform Op.givesUp then
        perform (Op.cancelCommandWork id)
        pure (.returned none)
      else await id rounds

def invoke (rounds : ℕ) : Routine V E (Report V E) := do
  if ← perform Op.stopRequested then pure (.returned none)
  else
    match ← perform Op.submitCommandWork with
    | none => pure (.returned none)
    | some id => await id rounds

-- The closure that is submitted. The operation starts when it enters without a stop request.
def work (id : ℕ) : Routine V E Unit := do
  if ← perform (Op.enter id) then perform (Op.set id .cancelled)
  else
    match ← perform (Op.operation id) with
    | .ok v => perform (Op.set id (.value v))
    | .error e => perform (Op.set id (.exception e))

-- One round of the worker loop.
def workerLoop : Routine V E Unit := do
  let id ← perform Op.take
  perform (Op.checkDeadline id)
  if ← perform (Op.checkStop id) then
    work id
    perform (Op.complete id)
    perform (Op.erase id)
  else
    perform (Op.erase id)

end Routine

end Programs

def kOwner : String := "ask"

-- The deadline of the outbound lane in milliseconds.
def defaultDeadline : ℕ := 30000

structure State (V E : Type) where
  now : ℕ
  nextId : ℕ
  lane : Lane
  promises : ℕ → Option (Outcome V E)

inductive Call where
  | invoke (rounds : ℕ)
  | work
  | elsewhere (event : Elsewhere)

-- What is up to the callers and to the operation.
inductive Choice (V E : Type) where
  | no
  | yes
  | comes (result : Except E V)

namespace State

variable {V E : Type}

def initial (queuedCapacity : ℕ) : State V E :=
  ⟨0, 1, .create 1 queuedCapacity defaultDeadline, fun _ => none⟩

variable (s : State V E)

def submit (owner : String) (delay : ℕ) : State V E × Option ℕ :=
  let due := s.now + delay
  let r := s.lane.submit s.nextId owner due (some (due + defaultDeadline))
  ({ s with lane := r.2, nextId := s.nextId + 1 }, if r.1 then some s.nextId else none)

def elsewhere : Elsewhere → State V E
  | .tick elapsed => { s with now := s.now + elapsed }
  | .submitWork owner delay => (s.submit owner delay).1
  | .monitor => { s with lane := { s.lane with active := s.lane.active.map (Lane.monitor s.now) } }
  | .cancelOwner owner => { s with lane := s.lane.cancelOwner owner }
  | .cancelWork owner id => { s with lane := (s.lane.cancel owner id).2 }
  | .shutDown =>
    { s with lane := { s.lane with
        stopping := true, queue := [], active := s.lane.active.map Lane.requestStop } }

end State

section Act

variable {V E : Type}

def act (s : State V E) : (op : Op V E) → Choice V E → Option (State V E × Option op.Answer)
  | .stopRequested, choice | .givesUp, choice =>
    match choice with
    | .no => some (s, some false)
    | .yes => some (s, some true)
    | .comes _ => none
  | .submitCommandWork, .no => some (s, some none)
  | .submitCommandWork, _ =>
    some ((s.submit kOwner 0).1, some (s.submit kOwner 0).2)
  | .waitFor id, _ => some (s, some (s.promises id).isSome)
  | .pause, _ => none
  | .cancelCommandWork id, _ => some ({ s with lane := (s.lane.cancel kOwner id).2 }, some ())
  | .get id, _ => (s.promises id).map fun outcome => (s, some outcome)
  | .report _, _ => some (s, some ())
  | .take, _ =>
    match s.lane.queue, s.lane.take s.now with
    | task :: _, some lane => some ({ s with lane := lane }, some task.id)
    | _, _ => none
  | .checkDeadline id, _ =>
    (s.lane.step s.now (.checkDeadline id)).map fun lane => ({ s with lane := lane }, some ())
  | .checkStop id, _ =>
    (s.lane.step s.now (.checkStop id)).map fun lane =>
      ({ s with lane := lane }, some ((lane.lookup id).any fun a => a.phase == .running))
  | .enter id, _ =>
    match s.lane.lookup id with
    | some ⟨_, stop, _, .running⟩ => some (s, some stop)
    | _ => none
  | .operation _, .comes result => some (s, some result)
  | .operation _, _ => none
  | .set id outcome, _ =>
    some ({ s with promises := Function.update s.promises id (some outcome) }, some ())
  | .complete id, _ =>
    (s.lane.step s.now (.complete id)).map fun lane => ({ s with lane := lane }, some ())
  | .erase id, _ =>
    (s.lane.step s.now (.erase id)).map fun lane => ({ s with lane := lane }, some ())
  | .elsewhere event, _ => some (s.elsewhere event, some ())

def system (V E : Type) : System (State V E) Call (Choice V E) (Op V E) Op.Answer Unit where
  program
    | .invoke rounds => do
        let report ← Routine.invoke rounds
        Program.perform (Op.report report)
    | .work => Routine.workerLoop
    | .elsewhere event => Program.perform (Op.elsewhere event)
  begins s _ _ := some s
  act s _ op choice := act s op choice
  ends s _ := s
  hangsUp _ _ := none

abbrev World (V E : Type) := Threads (State V E) Call (Op V E) Op.Answer Unit

abbrev Step (V E : Type) := Move Call (Choice V E)

abbrev Happening (V E : Type) := ℕ × Lib.Event Call (Op V E) Op.Answer Unit

def step : Transition (World V E) (Step V E) := Threads.step (system V E)

def World.initial (queuedCapacity : ℕ) : World V E := Threads.initial (.initial queuedCapacity)

end Act

open Glider.Lib.Threads

section Conduct

variable {V E : Type}

def outcomeOf : Except E V → Outcome V E
  | .ok v => .value v
  | .error e => .exception e

-- The first half is where an `invoke` is, the second half where a worker is in its round.
inductive Stage (V E : Type) where
  | called
  | refused
  | waiting (id : ℕ)
  | ready (id : ℕ)
  | leaving (id : ℕ)
  | left (id : ℕ)
  | got (id : ℕ) (outcome : Outcome V E)
  | idle
  | taken (id : ℕ)
  | passed (id : ℕ)
  | entering (id : ℕ)
  | discarding (id : ℕ)
  | stopped (id : ℕ)
  | running (id : ℕ)
  | ran (id : ℕ) (result : Except E V)
  | settled (id : ℕ) (outcome : Outcome V E)
  | outside

def next : Stage V E → (op : Op V E) → op.Answer → Stage V E
  | .called, .stopRequested, true => .refused
  | .called, .submitCommandWork, none => .refused
  | .called, .submitCommandWork, some id => .waiting id
  | .waiting id, .waitFor _, true => .ready id
  | .waiting id, .givesUp, true => .leaving id
  | .leaving id, .cancelCommandWork _, _ => .left id
  | .ready id, .get _, outcome => .got id outcome
  | .idle, .take, id => .taken id
  | .taken id, .checkDeadline _, _ => .passed id
  | .passed id, .checkStop _, true => .entering id
  | .passed id, .checkStop _, false => .discarding id
  | .entering id, .enter _, true => .stopped id
  | .entering id, .enter _, false => .running id
  | .running id, .operation _, result => .ran id result
  | .stopped id, .set _ outcome, _ => .settled id outcome
  | .ran id _, .set _ outcome, _ => .settled id outcome
  | m, _, _ => m

-- What the caller is told at a stage.
def Tells (m : Stage V E) (report : Report V E) : Prop :=
  (m = .refused ∨ ∃ id, m = .left id) ∧ report = .returned none ∨
    ∃ id outcome, m = .got id outcome ∧ report = Routine.reportOf outcome

def Allows (m : Stage V E) : Op V E → Prop
  | .stopRequested | .submitCommandWork => m = .called
  | .waitFor id => m = .waiting id
  | .givesUp | .pause => ∃ id, m = .waiting id
  | .cancelCommandWork id => m = .leaving id
  | .get id => m = .ready id
  | .report report => Tells m report
  | .take => m = .idle
  | .checkDeadline id => m = .taken id
  | .checkStop id => m = .passed id
  | .enter id => m = .entering id
  | .operation id => m = .running id
  | .set id outcome => m = .stopped id ∧ outcome = .cancelled ∨
      ∃ result, m = .ran id result ∧ outcome = outcomeOf result
  | .complete id => ∃ outcome, m = .settled id outcome
  | .erase id => m = .discarding id ∨ ∃ outcome, m = .settled id outcome
  | .elsewhere _ => m = .outside

def discipline (V E : Type) : Discipline Call (Op V E) Op.Answer Unit (Stage V E) where
  monitor := ⟨Allows, next⟩
  start
    | .invoke _ => .called
    | .work => .idle
    | .elsewhere _ => .outside
  post _ _ := True

abbrev Meets {α : Type} (post : Stage V E → Except Unit α → Prop) (p : Routine V E α)
    (m : Stage V E) : Prop :=
  p.Meets (discipline V E).monitor post m

abbrev TellsResult (m : Stage V E) : Except Unit (Report V E) → Prop
  | .ok report => Tells m report
  | .error _ => True

theorem meets_await (id rounds : ℕ) :
    Meets TellsResult (Routine.await id rounds) (.waiting id : Stage V E) := by
  induction rounds with
  | zero => exact ⟨⟨id, rfl⟩, fun answer => nomatch answer⟩
  | succ rounds ih =>
    refine ⟨rfl, fun ready => ?_⟩
    cases ready with
    | true => exact ⟨rfl, fun outcome => .inr ⟨id, outcome, rfl, rfl⟩⟩
    | false =>
      refine ⟨⟨id, rfl⟩, fun givesUp => ?_⟩
      cases givesUp with
      | true => exact ⟨rfl, fun _ => .inl ⟨.inr ⟨id, rfl⟩, rfl⟩⟩
      | false => exact ih

theorem meets_invoke (rounds : ℕ) :
    Meets TellsResult (Routine.invoke rounds) (.called : Stage V E) := by
  refine ⟨rfl, fun stop => ?_⟩
  cases stop with
  | true => exact .inl ⟨.inl rfl, rfl⟩
  | false =>
    refine ⟨rfl, fun id => ?_⟩
    cases id with
    | none => exact .inl ⟨.inl rfl, rfl⟩
    | some id => exact meets_await id rounds

theorem meets_work (id : ℕ) :
    Meets (fun m _ => ∃ outcome, m = .settled id outcome) (Routine.work id)
      (.entering id : Stage V E) := by
  refine ⟨rfl, fun stop => ?_⟩
  cases stop with
  | true => exact ⟨.inl ⟨rfl, rfl⟩, fun _ => ⟨.cancelled, rfl⟩⟩
  | false =>
    refine ⟨rfl, fun result => ?_⟩
    cases result with
    | ok v => exact ⟨.inr ⟨.ok v, rfl, rfl⟩, fun _ => ⟨.value v, rfl⟩⟩
    | error e => exact ⟨.inr ⟨.error e, rfl, rfl⟩, fun _ => ⟨.exception e, rfl⟩⟩

theorem meets_workerLoop :
    Meets (fun _ _ => True) Routine.workerLoop (.idle : Stage V E) := by
  refine ⟨rfl, fun id => ⟨rfl, fun _ => ⟨rfl, fun goes => ?_⟩⟩⟩
  cases goes with
  | true =>
    refine (Program.meets_bind (p := Routine.work id)).mpr ((meets_work id).mono ?_)
    rintro m (e | u) ⟨outcome, rfl⟩
    · exact trivial
    · exact ⟨⟨outcome, rfl⟩, fun _ => ⟨.inr ⟨outcome, rfl⟩, fun _ => trivial⟩⟩
  | false => exact ⟨.inl rfl, fun _ => trivial⟩

theorem governs : (discipline V E).Governs (system V E) := by
  intro call
  cases call with
  | invoke rounds =>
    refine Program.meets_bind.mpr ((meets_invoke rounds).mono ?_)
    rintro m (e | report) hm
    · exact trivial
    · exact ⟨hm, fun _ => trivial⟩
  | work => exact meets_workerLoop
  | elsewhere event => exact ⟨rfl, fun _ => trivial⟩

end Conduct

open Glider.Lib.Threads
open Work (Lane acceptedTasks Task)

variable {V E : Type}

-- The operation is started.
def startsIn (id : ℕ) : Happening V E → Bool
  | (_, .answers (.enter id') false) => id' == id
  | _ => false

def resultIn (id : ℕ) : Happening V E → Option (Except E V)
  | (_, .answers (.operation id') result) => if id' = id then some result else none
  | _ => none

def starts (w : World V E) (id : ℕ) : ℕ := w.history.countP (startsIn id)

def results (w : World V E) (id : ℕ) : List (Except E V) := w.history.filterMap (resultIn id)

-- What has become of an operation.
structure Job (V E : Type) where
  starts : ℕ
  results : List (Except E V)
  outcome : Option (Outcome V E)

def job (w : World V E) (id : ℕ) : Job V E := ⟨starts w id, results w id, w.shared.promises id⟩

-- The outcome is what the operation did.
def Fits (starts : ℕ) (results : List (Except E V)) : Outcome V E → Prop
  | .value v => starts = 1 ∧ results = [.ok v]
  | .exception e => starts = 1 ∧ results = [.error e]
  | .cancelled => starts = 0 ∧ results = []

-- The task that a worker has in hand.
def Stage.holder : Stage V E → Option ℕ
  | .taken id | .passed id | .entering id | .discarding id | .stopped id | .running id | .ran id _
  | .settled id _ => some id
  | _ => none

def Worked (j : Job V E) : Stage V E → Prop
  | .running _ => j = ⟨1, [], none⟩
  | .ran _ result => j = ⟨1, [result], none⟩
  | .settled _ outcome => j.outcome = some outcome ∧ Fits j.starts j.results outcome
  | _ => j = ⟨0, [], none⟩

def queued (s : State V E) : List ℕ := s.lane.queue.map Task.id

def State.clocked (s : State V E) : Work.Clocked := ⟨s.now, s.nextId, s.lane⟩

section Lanes

variable {s s' : State V E}

theorem moved_submit (owner : String) (delay : ℕ) :
    s.clocked.Moved (s.submit owner delay).1.clocked :=
  .submits owner (s.now + delay) (some (s.now + delay + defaultDeadline)) rfl rfl rfl

theorem moved_elsewhere (event : Elsewhere) : s.clocked.Moved (s.elsewhere event).clocked := by
  cases event with
  | tick elapsed => exact .still rfl (Nat.le_refl _) (Nat.le_add_right ..)
  | submitWork owner delay => exact moved_submit owner delay
  | monitor => exact .steps .monitor rfl rfl rfl rfl
  | cancelOwner owner => exact .steps (.cancelOwner owner) rfl rfl rfl rfl
  | cancelWork owner id => exact .steps (.cancel owner id) rfl rfl rfl rfl
  | shutDown => exact .steps .shutDown rfl rfl rfl rfl

theorem take_eq_some {now : ℕ} {l m : Lane} {task : Task} {rest : List Task}
    (hqueue : l.queue = task :: rest) (h : l.take now = some m) : m.queue = rest := by
  rw [Lane.take, hqueue] at h
  obtain ⟨-, rfl⟩ := Transition.enabled_eq_some h
  rfl

theorem moved_of_act {op : Op V E} {c : Choice V E} {answer : Option op.Answer}
    (h : act s op c = some (s', answer)) : s.clocked.Moved s'.clocked := by
  have still : s.clocked.Moved s.clocked := .still rfl (Nat.le_refl _) (Nat.le_refl _)
  cases op with
  | stopRequested | givesUp =>
    cases c <;> cases h
    · exact still
    · exact still
  | submitCommandWork =>
    cases c <;> cases h
    · exact still
    · exact moved_submit kOwner 0
    · exact moved_submit kOwner 0
  | waitFor id | report report =>
    cases h
    exact still
  | pause => cases h
  | cancelCommandWork id =>
    cases h
    exact .steps (.cancel kOwner id) rfl rfl rfl rfl
  | get id =>
    obtain ⟨outcome, -, heq⟩ := Option.map_eq_some_iff.mp h
    cases heq
    exact still
  | take =>
    simp only [act] at h
    split at h
    · next task rest lane hqueue htake =>
      cases h
      exact .steps .take rfl htake rfl rfl
    · cases h
  | checkDeadline id | checkStop id | complete id | erase id =>
    obtain ⟨lane, hstep, heq⟩ := Option.map_eq_some_iff.mp h
    cases heq
    exact .steps _ rfl hstep rfl rfl
  | enter id =>
    simp only [act] at h
    split at h <;> cases h
    exact still
  | operation id =>
    cases c <;> cases h
    exact still
  | set id outcome =>
    cases h
    exact .still rfl (Nat.le_refl _) (Nat.le_refl _)
  | elsewhere event =>
    cases h
    exact moved_elsewhere event

end Lanes

end Glider.Llm.Outbound

import Glider.Lib.Bytes
import Glider.Lib.Threads
import Glider.Work.Jobs

namespace Glider.Ubash

open Glider.Lib
open Bytes (ascii)
open Work (Lane)

def kUbashOwner : String := "ubash"

def isSpace (b : UInt8) : Bool := (ascii " \t\r\n" ++ [12, 11]).contains b

-- The extra text of the message, if there is one.
def isUbashCancel : Option Bytes → Bool
  | none => false
  | some text => ((text.dropWhile isSpace).reverse.dropWhile isSpace).reverse == ascii "cancel"

inductive Op where
  -- The critical sections of the command handler.
  | find
  | reset (id : ℕ)
  | begin
  | record (workId : Option ℕ)
  -- Its calls.
  | submitCommandWork
  | cancelCommandWork (id : ℕ)
  | sendReplyMessage (text : String)
  -- The worker. `completed` is the destructor of the completion guard, at the end of the closure.
  | take
  | checkDeadline (id : ℕ)
  | checkStop (id : ℕ)
  | completed (id : ℕ)
  | complete (id : ℕ)
  | erase (id : ℕ)
  -- Time goes by, and ids are given to the work of other lanes.
  | elsewhere (elapsed ids : ℕ)
  deriving DecidableEq

abbrev Op.Answer : Op → Type
  | .find => Option ℕ × Bool
  | .begin | .cancelCommandWork _ | .checkStop _ => Bool
  | .record _ | .submitCommandWork => Option ℕ
  | .take => ℕ
  | _ => Unit

abbrev Routine := Program Op Op.Answer Unit

namespace Routine

open Program (perform)

def requestedText (requested : Bool) : String :=
  if requested then "Cancellation requested." else "No /ubash job is running."

def busyText : String :=
  "Another /ubash job is already running. Use /ubash cancel first."

def cancelActive (id : ℕ) (submitting : Bool) : Routine Unit := do
  let requested ← perform (Op.cancelCommandWork id)
  perform (Op.reset id)
  perform (Op.sendReplyMessage (requestedText (requested || submitting)))

def cancelJob : Routine Unit := do
  let found ← perform Op.find
  match found.1 with
  | some id => cancelActive id found.2
  | none => perform (Op.sendReplyMessage (requestedText found.2))

def cancelSubmitted : Option ℕ → Routine Unit
  | none => pure ()
  | some id => do
      let _ ← perform (Op.cancelCommandWork id)
      perform (Op.reset id)

def submitJob : Routine Unit := do
  if ← perform Op.begin then perform (Op.sendReplyMessage busyText)
  else
    let workId ← perform Op.submitCommandWork
    let cancelAfterSubmit ← perform (Op.record workId)
    cancelSubmitted cancelAfterSubmit
    if workId.isNone then perform (Op.sendReplyMessage busyText)

def ubash (extraText : Option Bytes) : Routine Unit :=
  if isUbashCancel extraText then cancelJob else submitJob

-- One round of the worker loop.
def workerLoop : Routine Unit := do
  let id ← perform Op.take
  perform (Op.checkDeadline id)
  if ← perform (Op.checkStop id) then
    perform (Op.completed id)
    perform (Op.complete id)
    perform (Op.erase id)
  else perform (Op.erase id)

end Routine

-- The global `ubashJob`, and the flag of the submission that a task belongs to.
structure State where
  now : ℕ
  nextId : ℕ
  lane : Lane
  active : Option ℕ
  submitting : Bool
  cancellationRequested : Bool
  completed : ℕ → Bool

inductive Call where
  | ubash (extraText : Option Bytes)
  | work
  | elsewhere (elapsed ids : ℕ)

namespace State

def initial : State := ⟨0, 1, .create 1 0 0, none, false, false, fun _ => false⟩

variable (s : State)

def find : State × (Option ℕ × Bool) :=
  ({ s with cancellationRequested :=
      s.cancellationRequested || (s.submitting && s.active.isNone) }, (s.active, s.submitting))

def reset (id : ℕ) : State := { s with active := if s.active = some id then none else s.active }

def begin : State × Bool :=
  if s.submitting || s.active.isSome then (s, true) else ({ s with submitting := true }, false)

-- A lane without a default deadline gives none.
def submit : State × Option ℕ :=
  let r := s.lane.submit s.nextId kUbashOwner s.now none
  ({ s with lane := r.2, nextId := s.nextId + 1 }, if r.1 then some s.nextId else none)

-- The id of the job that is to be recorded, unless it has completed already.
def submittedJob (workId : Option ℕ) : Option ℕ := workId.filter fun id => !s.completed id

def record (workId : Option ℕ) : State × Option ℕ :=
  ({ s with submitting := false, active := (s.submittedJob workId).or s.active,
            cancellationRequested := false },
    if s.cancellationRequested then s.submittedJob workId else none)

def complete (id : ℕ) : State :=
  { s with completed := Function.update s.completed id true, active := none }

end State

-- A submission may be refused before it comes to the lane.
def act (s : State) : (op : Op) → Bool → Option (State × Option op.Answer)
  | .find, _ => some (s.find.1, some s.find.2)
  | .reset id, _ => some (s.reset id, some ())
  | .begin, _ => some (s.begin.1, some s.begin.2)
  | .record workId, _ => some ((s.record workId).1, some (s.record workId).2)
  | .submitCommandWork, false => some (s, some none)
  | .submitCommandWork, true => some (s.submit.1, some s.submit.2)
  | .cancelCommandWork id, _ =>
    some ({ s with lane := (s.lane.cancel kUbashOwner id).2 },
      some (s.lane.cancel kUbashOwner id).1)
  | .sendReplyMessage _, _ => some (s, some ())
  | .take, _ =>
    match s.lane.queue, s.lane.take s.now with
    | task :: _, some lane => some ({ s with lane := lane }, some task.id)
    | _, _ => none
  | .checkDeadline id, _ =>
    (s.lane.step s.now (.checkDeadline id)).map fun lane => ({ s with lane := lane }, some ())
  | .checkStop id, _ =>
    (s.lane.step s.now (.checkStop id)).map fun lane =>
      ({ s with lane := lane }, some ((lane.lookup id).any fun a => a.phase == .running))
  | .completed id, _ => some (s.complete id, some ())
  | .complete id, _ =>
    (s.lane.step s.now (.complete id)).map fun lane => ({ s with lane := lane }, some ())
  | .erase id, _ =>
    (s.lane.step s.now (.erase id)).map fun lane => ({ s with lane := lane }, some ())
  | .elsewhere elapsed ids, _ =>
    some ({ s with now := s.now + elapsed, nextId := s.nextId + ids }, some ())

def system : System State Call Bool Op Op.Answer Unit where
  program
    | .ubash extraText => Routine.ubash extraText
    | .work => Routine.workerLoop
    | .elsewhere elapsed ids => Program.perform (Op.elsewhere elapsed ids)
  begins s _ _ := some s
  act s _ op accepts := act s op accepts
  ends s _ := s
  hangsUp _ _ := none

abbrev World := Threads State Call Op Op.Answer Unit

abbrev Step := Move Call Bool

abbrev Happening := ℕ × Event Call Op Op.Answer Unit

def step : Transition World Step := Threads.step system

def World.initial : World := Threads.initial .initial

open Glider.Lib.Threads

-- Where a cancel command is, where a submitting command is, and where a worker is in its round.
inductive Stage where
  | canceller
  | cancelling (id : ℕ)
  | cancelled (id : ℕ)
  | submitter
  | begun
  | submitted (workId : Option ℕ)
  | undoing (id : ℕ)
  | undone (id : ℕ)
  | replying
  | idle
  | taken (id : ℕ)
  | passed (id : ℕ)
  | running (id : ℕ)
  | ended (id : ℕ)
  | leaving (id : ℕ)
  | gone
  | outside

def next : Stage → (op : Op) → op.Answer → Stage
  | .canceller, .find, (some id, _) => .cancelling id
  | .canceller, .find, (none, _) => .replying
  | .cancelling id, .cancelCommandWork _, _ => .cancelled id
  | .cancelled _, .reset _, _ => .replying
  | .submitter, .begin, true => .replying
  | .submitter, .begin, false => .begun
  | .begun, .submitCommandWork, workId => .submitted workId
  | .submitted _, .record _, some id => .undoing id
  | .submitted _, .record _, none => .replying
  | .undoing id, .cancelCommandWork _, _ => .undone id
  | .undone _, .reset _, _ => .replying
  | .idle, .take, id => .taken id
  | .taken id, .checkDeadline _, _ => .passed id
  | .passed id, .checkStop _, true => .running id
  | .passed id, .checkStop _, false => .leaving id
  | .running id, .completed _, _ => .ended id
  | .ended id, .complete _, _ => .leaving id
  | .leaving _, .erase _, _ => .gone
  | m, _, _ => m

def Allows (m : Stage) : Op → Prop
  | .find => m = .canceller
  | .reset id => m = .cancelled id ∨ m = .undone id
  | .begin => m = .submitter
  | .record workId => m = .submitted workId
  | .submitCommandWork => m = .begun
  | .cancelCommandWork id => m = .cancelling id ∨ m = .undoing id
  | .sendReplyMessage _ => m = .replying
  | .take => m = .idle
  | .checkDeadline id => m = .taken id
  | .checkStop id => m = .passed id
  | .completed id => m = .running id
  | .complete id => m = .ended id
  | .erase id => m = .leaving id
  | .elsewhere _ _ => m = .outside

def startOf : Call → Stage
  | .ubash extraText => if isUbashCancel extraText then .canceller else .submitter
  | .work => .idle
  | .elsewhere _ _ => .outside

-- No command ends with a job that it has cancelled and not reset.
def Ends (m : Stage) : Prop := ∀ id, ¬Allows m (.reset id)

def discipline : Discipline Call Op Op.Answer Unit Stage where
  monitor := ⟨Allows, next⟩
  start := startOf
  post m _ := Ends m

abbrev Meets {α : Type} (post : Stage → Except Unit α → Prop) (p : Routine α) (m : Stage) : Prop :=
  p.Meets discipline.monitor post m

theorem ends_replying : Ends .replying := by
  rintro id (h | h) <;> cases h

theorem meets_cancelJob : Meets (fun m _ => Ends m) Routine.cancelJob .canceller := by
  refine ⟨rfl, fun (active, submitting) => ?_⟩
  cases active with
  | none => exact ⟨rfl, fun _ => ends_replying⟩
  | some id =>
    exact ⟨.inl rfl, fun _ => ⟨.inl rfl, fun _ => ⟨rfl, fun _ => ends_replying⟩⟩⟩

-- What is left to a command after its job is recorded.
theorem meets_rest (workId cancelAfterSubmit : Option ℕ) :
    Meets (fun m _ => Ends m) (do
      Routine.cancelSubmitted cancelAfterSubmit
      if workId.isNone then Program.perform (Op.sendReplyMessage Routine.busyText))
      (next (.submitted workId) (.record workId) cancelAfterSubmit) := by
  have hreply : Meets (fun m _ => Ends m) (if workId.isNone then
      Program.perform (Op.sendReplyMessage Routine.busyText) else pure ()) .replying := by
    cases workId with
    | none => exact ⟨rfl, fun _ => ends_replying⟩
    | some id => exact ends_replying
  cases cancelAfterSubmit with
  | none => exact hreply
  | some id => exact ⟨.inr rfl, fun _ => ⟨.inr rfl, fun _ => hreply⟩⟩

theorem meets_submitJob : Meets (fun m _ => Ends m) Routine.submitJob .submitter := by
  refine ⟨rfl, fun alreadyRunning => ?_⟩
  cases alreadyRunning with
  | true => exact ⟨rfl, fun _ => ends_replying⟩
  | false => exact ⟨rfl, fun workId => ⟨rfl, meets_rest workId⟩⟩

theorem meets_workerLoop : Meets (fun m _ => Ends m) Routine.workerLoop .idle := by
  have hgone : Ends .gone := by
    rintro id (h | h) <;> cases h
  refine ⟨rfl, fun id => ⟨rfl, fun _ => ⟨rfl, fun runs => ?_⟩⟩⟩
  cases runs with
  | true => exact ⟨rfl, fun _ => ⟨rfl, fun _ => ⟨rfl, fun _ => hgone⟩⟩⟩
  | false => exact ⟨rfl, fun _ => hgone⟩

theorem governs : discipline.Governs system := by
  intro call
  cases call with
  | ubash extraText =>
    change Meets (fun m _ => Ends m)
      (if isUbashCancel extraText then Routine.cancelJob else Routine.submitJob)
      (if isUbashCancel extraText then .canceller else .submitter)
    by_cases hcancel : isUbashCancel extraText = true
    · rw [if_pos hcancel, if_pos hcancel]
      exact meets_cancelJob
    · rw [if_neg hcancel, if_neg hcancel]
      exact meets_submitJob
  | work => exact meets_workerLoop
  | elsewhere elapsed ids =>
    refine ⟨rfl, fun _ => ?_⟩
    rintro id (h | h) <;> cases h

-- Every operation that is allowed, with the stage before it and the stage after it.
inductive Goes : Stage → (op : Op) → op.Answer → Stage → Prop where
  | finds (id : ℕ) (submitting : Bool) :
      Goes .canceller .find (some id, submitting) (.cancelling id)
  | findsNone (submitting : Bool) : Goes .canceller .find (none, submitting) .replying
  | cancels (id : ℕ) (requested : Bool) :
      Goes (.cancelling id) (.cancelCommandWork id) requested (.cancelled id)
  | resets (id : ℕ) : Goes (.cancelled id) (.reset id) () .replying
  | refused : Goes .submitter .begin true .replying
  | begins : Goes .submitter .begin false .begun
  | submits (workId : Option ℕ) : Goes .begun .submitCommandWork workId (.submitted workId)
  | records (workId : Option ℕ) : Goes (.submitted workId) (.record workId) none .replying
  | undoes (workId : Option ℕ) (id : ℕ) :
      Goes (.submitted workId) (.record workId) (some id) (.undoing id)
  | cancelsOwn (id : ℕ) (requested : Bool) :
      Goes (.undoing id) (.cancelCommandWork id) requested (.undone id)
  | resetsOwn (id : ℕ) : Goes (.undone id) (.reset id) () .replying
  | replies (text : String) : Goes .replying (.sendReplyMessage text) () .replying
  | takes (id : ℕ) : Goes .idle .take id (.taken id)
  | checksDeadline (id : ℕ) : Goes (.taken id) (.checkDeadline id) () (.passed id)
  | runs (id : ℕ) : Goes (.passed id) (.checkStop id) true (.running id)
  | skips (id : ℕ) : Goes (.passed id) (.checkStop id) false (.leaving id)
  | ends (id : ℕ) : Goes (.running id) (.completed id) () (.ended id)
  | completes (id : ℕ) : Goes (.ended id) (.complete id) () (.leaving id)
  | erases (id : ℕ) : Goes (.leaving id) (.erase id) () .gone
  | passes (elapsed ids : ℕ) : Goes .outside (.elsewhere elapsed ids) () .outside

theorem goes_of_allows {m : Stage} {op : Op} (h : Allows m op) (answer : op.Answer) :
    Goes m op answer (next m op answer) := by
  cases op with
  | reset id | cancelCommandWork id =>
    obtain rfl | rfl := h
    · constructor
    · constructor
  | find =>
    obtain rfl : m = .canceller := h
    obtain ⟨_ | id, submitting⟩ := answer
    · exact .findsNone submitting
    · exact .finds id submitting
  | begin =>
    obtain rfl : m = .submitter := h
    cases answer <;> constructor
  | record workId =>
    obtain rfl : m = .submitted workId := h
    cases answer <;> constructor
  | checkStop id =>
    obtain rfl : m = .passed id := h
    cases answer <;> constructor
  | _ =>
    change m = _ at h
    subst h
    constructor

end Glider.Ubash

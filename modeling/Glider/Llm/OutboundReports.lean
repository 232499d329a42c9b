import Glider.Llm.Outbound

namespace Glider.Llm.Outbound

open Glider.Lib Glider.Lib.Threads
open Work (Lane acceptedTasks Task)

variable {V E : Type}

-- The id under which an `invoke` has submitted its work.
def submittedIn (t : ℕ) : Happening V E → Option ℕ
  | (u, .answers .submitCommandWork (some id)) => if u = t then some id else none
  | _ => none

def reportIn : Happening V E → Option (ℕ × Report V E)
  | (t, .answers (.report report) _) => some (t, report)
  | _ => none

def submitted (w : World V E) (t : ℕ) : List ℕ := w.history.filterMap (submittedIn t)

-- The report is what has been done, and what will be.
def Matches (w : World V E) (id : ℕ) : Report V E → Prop
  | .returned (some v) => starts w id = 1 ∧ results w id = [.ok v]
  | .threw (some e) => starts w id = 1 ∧ results w id = [.error e]
  | .returned none | .threw none => starts w id = 0

def Reported (w : World V E) : Prop :=
  ∀ event ∈ w.history, ∀ p ∈ reportIn event,
    (∀ id ∈ submitted w p.1, Matches w id p.2) ∧ (submitted w p.1 = [] → p.2 = .returned none)

instance [DecidableEq V] [DecidableEq E] (w : World V E) (id : ℕ) :
    ∀ report, Decidable (Matches w id report)
  | .returned (some _) | .threw (some _) => inferInstanceAs (Decidable (_ ∧ _))
  | .returned none | .threw none => inferInstanceAs (Decidable (_ = _))

instance [DecidableEq V] [DecidableEq E] (w : World V E) : Decidable (Reported w) :=
  inferInstanceAs (Decidable (∀ event ∈ w.history, ∀ p ∈ reportIn event, _))

def cancelling : Op V E → Option ℕ
  | .cancelCommandWork id => some id
  | _ => none

-- Whoever gives up finds the operation not started.
def LeavesUnstarted (w : World V E) : Step V E → Prop
  | .acts t _ => ∀ op ∈ w.asks t, ∀ id ∈ cancelling op, starts w id = 0
  | _ => True

instance : ∀ (w : World V E) (i : Step V E), Decidable (LeavesUnstarted w i)
  | w, .acts t _ => inferInstanceAs (Decidable (∀ op ∈ w.asks t, ∀ id ∈ cancelling op, _))
  | _, .begins _ | _, .ends _ | _, .hangsUp _ => .isTrue trivial

abbrev stageOf (w : World V E) (t : ℕ) : Option (Stage V E) := (discipline V E).stage w t

def Accepted (s : State V E) (id : ℕ) : Prop :=
  ∃ task ∈ acceptedTasks s.lane.history, task.id = id ∧ task.owner = kOwner

-- What an `invoke` relies on.
def Waits (w : World V E) : Stage V E → Prop
  | .waiting id | .ready id | .leaving id => Accepted w.shared id
  | .left id => w.shared.lane.Doomed id ∧ starts w id = 0
  | .got id outcome => w.shared.promises id = some outcome
  | _ => True

structure Held (w : World V E) (t id : ℕ) : Prop where
  taken : id ∉ queued w.shared
  below : id < w.shared.nextId
  only : ∀ u m, stageOf w u = some m → m.holder = some id → u = t

structure Kept (w : World V E) : Prop where
  lane : w.shared.clocked.Ok
  held : ∀ t m id, stageOf w t = some m → m.holder = some id → Held w t id ∧ Worked (job w id) m
  unheld : ∀ id, (∀ t m, stageOf w t = some m → m.holder ≠ some id) →
    job w id = ⟨0, [], none⟩
  waits : ∀ t m, stageOf w t = some m → Waits w m

section Acts

variable {s s' : State V E} {op : Op V E} {c : Choice V E} {answer : op.Answer} {m : Stage V E}

-- The operations that are about what becomes of a task.
def touches : Op V E → Option ℕ
  | .enter id | .operation id | .set id _ => some id
  | _ => none

theorem holder_of_touches (answer : op.Answer) (hallows : Allows m op) {id : ℕ}
    (h : touches op = some id) :
    m.holder = some id ∧ (next m op answer).holder = some id := by
  cases op with
  | enter id =>
    obtain rfl : m = .entering id := hallows
    obtain rfl := Option.some.inj h
    cases answer <;> exact ⟨rfl, rfl⟩
  | operation id =>
    obtain rfl : m = .running id := hallows
    obtain rfl := Option.some.inj h
    exact ⟨rfl, rfl⟩
  | set id outcome =>
    obtain rfl := Option.some.inj h
    obtain ⟨rfl, -⟩ | ⟨result, rfl, -⟩ := hallows
    · exact ⟨rfl, rfl⟩
    · exact ⟨rfl, rfl⟩
  | _ => cases h

-- A worker takes a task in hand, and nobody gets or loses one otherwise.
theorem holder_next (hallows : Allows m op) (hact : act s op c = some (s', some answer)) :
    (next m op answer).holder = m.holder ∨
      ∃ task rest, m = .idle ∧ next m op answer = .taken task.id ∧ touches op = none ∧
        s.lane.queue = task :: rest ∧ s'.lane.queue = rest ∧ s'.promises = s.promises := by
  cases op with
  | take =>
    simp only [act] at hact
    split at hact
    · next task rest lane hqueue htake =>
      cases hact
      obtain rfl : m = .idle := hallows
      exact .inr ⟨task, rest, rfl, rfl, rfl, hqueue, take_eq_some hqueue htake, rfl⟩
    · cases hact
  | set id outcome =>
    obtain ⟨rfl, -⟩ | ⟨result, rfl, -⟩ := hallows
    · exact .inl rfl
    · exact .inl rfl
  | erase id =>
    obtain rfl | ⟨outcome, rfl⟩ := hallows
    · exact .inl rfl
    · exact .inl rfl
  | report report =>
    obtain ⟨rfl | ⟨id, rfl⟩, -⟩ | ⟨id, outcome, rfl, -⟩ := hallows
    · exact .inl rfl
    · exact .inl rfl
    · exact .inl rfl
  | givesUp | pause =>
    obtain ⟨id, rfl⟩ := hallows
    cases answer <;> exact .inl rfl
  | complete id =>
    obtain ⟨outcome, rfl⟩ := hallows
    exact .inl rfl
  | stopRequested | submitCommandWork =>
    obtain rfl : m = .called := hallows
    cases answer <;> exact .inl rfl
  | waitFor id =>
    obtain rfl : m = .waiting id := hallows
    cases answer <;> exact .inl rfl
  | checkStop id =>
    obtain rfl : m = .passed id := hallows
    cases answer <;> exact .inl rfl
  | enter id =>
    obtain rfl : m = .entering id := hallows
    cases answer <;> exact .inl rfl
  | cancelCommandWork id =>
    obtain rfl : m = .leaving id := hallows
    exact .inl rfl
  | get id =>
    obtain rfl : m = .ready id := hallows
    exact .inl rfl
  | checkDeadline id =>
    obtain rfl : m = .taken id := hallows
    exact .inl rfl
  | operation id =>
    obtain rfl : m = .running id := hallows
    exact .inl rfl
  | elsewhere event =>
    obtain rfl : m = .outside := hallows
    exact .inl rfl

theorem promises_of_act (hact : act s op c = some (s', some answer)) {id : ℕ}
    (h : touches op ≠ some id) : s'.promises id = s.promises id := by
  cases op with
  | stopRequested | givesUp | submitCommandWork | operation id' =>
    cases c <;> cases hact <;> rfl
  | pause => cases hact
  | get id' | checkDeadline id' | checkStop id' | complete id' | erase id' =>
    obtain ⟨lane, -, heq⟩ := Option.map_eq_some_iff.mp hact
    cases heq
    rfl
  | take | enter id' =>
    simp only [act] at hact
    split at hact <;> cases hact
    rfl
  | set id' outcome =>
    cases hact
    exact Function.update_of_ne (fun heq => h (congrArg some heq.symm)) ..
  | elsewhere event =>
    cases hact
    cases event <;> rfl
  | _ =>
    cases hact
    rfl

theorem act_ne_none (hact : act s op c = some (s', none)) : False := by
  cases op with
  | stopRequested | givesUp | submitCommandWork | operation id => cases c <;> cases hact
  | take | enter id =>
    simp only [act] at hact
    split at hact <;> cases hact
  | get id | checkDeadline id | checkStop id | complete id | erase id =>
    obtain ⟨lane, -, heq⟩ := Option.map_eq_some_iff.mp hact
    cases heq
  | _ => cases hact

theorem not_startsIn_of_touches (answer : op.Answer) {t id : ℕ} (h : touches op ≠ some id) :
    startsIn id (t, .answers op answer) = false ∧
      resultIn id (t, .answers op answer) = none := by
  cases op with
  | enter id' =>
    cases answer with
    | true => exact ⟨rfl, rfl⟩
    | false => exact ⟨beq_false_of_ne fun heq => h (congrArg some heq), rfl⟩
  | operation id' => exact ⟨rfl, if_neg fun heq => h (congrArg some heq)⟩
  | _ => exact ⟨rfl, rfl⟩

end Acts

section Steps

variable {w w' : World V E} {i : Step V E} {t id : ℕ} {op : Op V E} {c : Choice V E}
  {answer : op.Answer} {m : Stage V E} {shared : State V E}
  {p : Option (Program (Op V E) Op.Answer Unit Unit)}

theorem job_eq {n : ℕ} {l : List (Except E V)} {outcome : Option (Outcome V E)}
    (h : job w id = ⟨n, l, outcome⟩) :
    starts w id = n ∧ results w id = l ∧ w.shared.promises id = outcome := by
  injection h with hstarts hresults houtcome
  exact ⟨hstarts, hresults, houtcome⟩

theorem starts_record {event : Lib.Event Call (Op V E) Op.Answer Unit}
    (h : startsIn id (t, event) = false) : starts (w.record t event p shared) id = starts w id :=
  List.countP_cons_of_neg (by rw [h]; exact Bool.false_ne_true)

theorem results_record {event : Lib.Event Call (Op V E) Op.Answer Unit}
    (h : resultIn id (t, event) = none) :
    results (w.record t event p shared) id = results w id :=
  List.filterMap_cons_none h

theorem job_record {event : Lib.Event Call (Op V E) Op.Answer Unit}
    (hstarts : startsIn id (t, event) = false) (hresult : resultIn id (t, event) = none) :
    job (w.record t event p shared) id = ⟨starts w id, results w id, shared.promises id⟩ := by
  unfold job
  rw [starts_record hstarts, results_record hresult]
  rfl

-- The worker's own operations on the task that it has in hand.
theorem worked_next (hallows : Allows m op)
    (hact : act w.shared op c = some (shared, some answer)) (htouches : touches op = some id)
    (h : Worked (job w id) m) :
    Worked (job (w.record t (.answers op answer) p shared) id) (next m op answer) := by
  cases op with
  | enter id' =>
    obtain rfl := Option.some.inj htouches
    obtain rfl : m = .entering id' := hallows
    simp only [act] at hact
    split at hact <;> cases hact
    obtain ⟨hstarts, hresults, houtcome⟩ := job_eq h
    cases answer with
    | true =>
      change job _ _ = _
      rw [job_record rfl rfl]
      exact h
    | false =>
      have hone : startsIn id' ((t, .answers (.enter id') false) : Happening V E) = true :=
        beq_self_eq_true id'
      have hcount : starts (w.record t (.answers (.enter id') false) p w.shared) id' = 1 := by
        rw [starts, Threads.record, List.countP_cons_of_pos hone]
        exact congrArg (· + 1) hstarts
      change Job.mk _ _ _ = _
      rw [hcount, results_record rfl, hresults]
      exact congrArg (Job.mk 1 []) houtcome
  | operation id' =>
    obtain rfl := Option.some.inj htouches
    obtain rfl : m = .running id' := hallows
    cases c <;> cases hact
    obtain ⟨hstarts, hresults, houtcome⟩ := job_eq h
    have hone : resultIn id' ((t, .answers (.operation id') answer) : Happening V E) =
      some answer := if_pos rfl
    have hlist : results (w.record t (.answers (.operation id') answer) p w.shared) id' =
        [answer] := by
      rw [results, Threads.record, List.filterMap_cons_some hone]
      exact congrArg (answer :: ·) hresults
    change Job.mk _ _ _ = _
    rw [hlist, starts_record rfl, hstarts]
    exact congrArg (Job.mk 1 [answer]) houtcome
  | set id' outcome =>
    obtain rfl := Option.some.inj htouches
    cases hact
    have hset : (Function.update w.shared.promises id' (some outcome)) id' = some outcome :=
      Function.update_self ..
    have hfits : Fits (starts w id') (results w id') outcome := by
      obtain ⟨rfl, rfl⟩ | ⟨result, rfl, rfl⟩ := hallows
      · obtain ⟨hstarts, hresults, -⟩ := job_eq h
        exact ⟨hstarts, hresults⟩
      · obtain ⟨hstarts, hresults, -⟩ := job_eq h
        cases result with
        | ok v | error e => exact ⟨hstarts, hresults⟩
    have hsettled : next m (.set id' outcome) answer = .settled id' outcome := by
      obtain ⟨rfl, rfl⟩ | ⟨result, rfl, rfl⟩ := hallows
      · rfl
      · rfl
    rw [hsettled, job_record rfl rfl]
    exact ⟨hset, hfits⟩
  | _ => cases htouches

-- All other operations leave it alone.
theorem job_of_answers (hact : act w.shared op c = some (shared, some answer))
    (htouches : touches op ≠ some id) :
    job (w.record t (.answers op answer) p shared) id = job w id := by
  obtain ⟨hstarts, hresult⟩ := not_startsIn_of_touches (t := t) answer htouches
  rw [job_record hstarts hresult, promises_of_act hact htouches]
  rfl

-- The worker's stages between its operations on the promise.
theorem worked_of_touches_ne (hallows : Allows m op) (hholder : m.holder = some id)
    (htouches : touches op ≠ some id) {j : Job V E} (h : Worked j m) :
    Worked j (next m op answer) := by
  cases op with
  | checkDeadline id' =>
    obtain rfl : m = .taken id' := hallows
    exact h
  | checkStop id' =>
    obtain rfl : m = .passed id' := hallows
    cases answer <;> exact h
  | complete id' =>
    obtain ⟨outcome, rfl⟩ := hallows
    exact h
  | erase id' =>
    obtain rfl | ⟨outcome, rfl⟩ := hallows
    · exact h
    · exact h
  | enter id' =>
    obtain rfl : m = .entering id' := hallows
    exact absurd hholder htouches
  | operation id' =>
    obtain rfl : m = .running id' := hallows
    exact absurd hholder htouches
  | set id' outcome =>
    obtain ⟨rfl, -⟩ | ⟨result, rfl, -⟩ := hallows
    · exact absurd hholder htouches
    · exact absurd hholder htouches
  | report report =>
    obtain ⟨rfl | ⟨id, rfl⟩, -⟩ | ⟨id, outcome, rfl, -⟩ := hallows
    · cases hholder
    · cases hholder
    · cases hholder
  | givesUp | pause =>
    obtain ⟨id, rfl⟩ := hallows
    cases hholder
  | _ =>
    rw [hallows] at hholder
    cases hholder

-- A task that is doomed is not started.
theorem starts_of_doomed (hs : w.shared.clocked.Ok)
    (hact : act w.shared op c = some (shared, some answer)) (h : w.shared.lane.Doomed id) :
    starts (w.record t (.answers op answer) p shared) id = starts w id := by
  by_cases htouches : touches op = some id
  · refine starts_record ?_
    cases op with
    | enter id' =>
      obtain rfl := Option.some.inj htouches
      simp only [act] at hact
      split at hact
      · next task stop reported hfound =>
        cases hact
        obtain ⟨hmem, hid⟩ := Lane.lookup_eq_some hfound
        have hstop : answer = true := h.stop hs.inv hmem hid
        rw [hstop]
        rfl
      · cases hact
    | operation id' | set id' outcome => rfl
    | _ => cases htouches
  · exact starts_record (not_startsIn_of_touches answer htouches).1

-- A promise is kept once.
theorem promise_stays (h : Kept w) (hstage : stageOf w t = some m) (hallows : Allows m op)
    (hact : act w.shared op c = some (shared, some answer)) {outcome : Outcome V E}
    (hset : w.shared.promises id = some outcome) : shared.promises id = some outcome := by
  by_cases htouches : touches op = some id
  · obtain ⟨-, hworked⟩ :=
      h.held t m id hstage (holder_of_touches answer hallows htouches).1
    cases op with
    | enter id' =>
      simp only [act] at hact
      split at hact <;> cases hact
      exact hset
    | operation id' =>
      cases c <;> cases hact
      exact hset
    | set id' outcome' =>
      obtain rfl := Option.some.inj htouches
      have hnone : w.shared.promises id' = none := by
        obtain ⟨rfl, -⟩ | ⟨result, rfl, -⟩ := hallows
        · exact (job_eq hworked).2.2
        · exact (job_eq hworked).2.2
      cases hset.symm.trans hnone
    | _ => cases htouches
  · exact (promises_of_act hact htouches).trans hset

theorem Waits.stays (h : Kept w) (hstage : stageOf w t = some m) (hallows : Allows m op)
    (hact : act w.shared op c = some (shared, some answer)) {other : Stage V E}
    (hwaits : Waits w other) : Waits (w.record t (.answers op answer) p shared) other := by
  have hmoved := moved_of_act hact
  cases other with
  | waiting id | ready id | leaving id =>
    obtain ⟨task, htask, hid⟩ := hwaits
    exact ⟨task, hmoved.accepted htask, hid⟩
  | left id =>
    obtain ⟨hdoomed, hstarts⟩ := hwaits
    exact ⟨hmoved.doomed h.lane hdoomed, (starts_of_doomed h.lane hact hdoomed).trans hstarts⟩
  | got id outcome => exact promise_stays h hstage hallows hact hwaits
  | _ => exact trivial

theorem accepted_of_submit {s : State V E} {owner : String} {delay : ℕ}
    (h : (s.submit owner delay).2 = some id) :
    ∃ task ∈ acceptedTasks (s.submit owner delay).1.lane.history,
      task.id = id ∧ task.owner = owner := by
  unfold State.submit Lane.submit at h ⊢
  dsimp only at h ⊢
  split at h
  · cases h
  · next hroom =>
    obtain rfl := Option.some.inj h
    rw [if_neg hroom]
    exact ⟨_, List.mem_cons_self, rfl, rfl⟩

theorem Waits.next (h : Kept w) (hstage : stageOf w t = some m) (hallows : Allows m op)
    (hact : act w.shared op c = some (shared, some answer))
    (hguard : ∀ id ∈ cancelling op, starts w id = 0) :
    Waits (w.record t (.answers op answer) p shared) (next m op answer) := by
  have hstays : Waits (w.record t (.answers op answer) p shared) m :=
    (h.waits t m hstage).stays h hstage hallows hact
  cases op with
  | submitCommandWork =>
    obtain rfl : m = .called := hallows
    cases answer with
    | none => exact trivial
    | some id =>
      have hid : (w.shared.submit kOwner 0).2 = some id ∧
          shared = (w.shared.submit kOwner 0).1 := by
        cases c with
        | no => cases hact
        | yes | comes result =>
          obtain ⟨hshared, hanswer⟩ := Prod.mk.inj (Option.some.inj hact)
          exact ⟨Option.some.inj hanswer, hshared.symm⟩
      obtain ⟨hid, rfl⟩ := hid
      exact accepted_of_submit hid
  | cancelCommandWork id =>
    obtain rfl : m = .leaving id := hallows
    cases hact
    obtain ⟨task, htask, rfl, howner⟩ := h.waits t _ hstage
    refine ⟨?_, ?_⟩
    · have hdoomed := Lane.doomed_cancel h.lane.inv htask
      rwa [howner] at hdoomed
    · exact (starts_record rfl).trans (hguard _ rfl)
  | get id =>
    obtain rfl : m = .ready id := hallows
    obtain ⟨outcome, hset, heq⟩ := Option.map_eq_some_iff.mp hact
    cases heq
    exact hset
  | stopRequested =>
    obtain rfl : m = .called := hallows
    cases answer <;> exact trivial
  | waitFor id =>
    obtain rfl : m = .waiting id := hallows
    cases answer <;> exact hstays
  | givesUp =>
    obtain ⟨id, rfl⟩ := hallows
    cases answer <;> exact hstays
  | pause => cases hact
  | report report =>
    obtain ⟨rfl | ⟨id, rfl⟩, -⟩ | ⟨id, outcome, rfl, -⟩ := hallows
    · exact hstays
    · exact hstays
    · exact hstays
  | take =>
    obtain rfl : m = .idle := hallows
    exact trivial
  | checkDeadline id =>
    obtain rfl : m = .taken id := hallows
    exact trivial
  | checkStop id =>
    obtain rfl : m = .passed id := hallows
    cases answer <;> exact trivial
  | enter id =>
    obtain rfl : m = .entering id := hallows
    cases answer <;> exact trivial
  | operation id =>
    obtain rfl : m = .running id := hallows
    exact trivial
  | set id outcome =>
    obtain ⟨rfl, -⟩ | ⟨result, rfl, -⟩ := hallows
    · exact trivial
    · exact trivial
  | erase id =>
    obtain rfl | ⟨outcome, rfl⟩ := hallows
    · exact trivial
    · exact trivial
  | complete id =>
    obtain ⟨outcome, rfl⟩ := hallows
    exact trivial
  | elsewhere event =>
    obtain rfl : m = .outside := hallows
    exact trivial

theorem Held.of_answers (h : Held w t id) {u : ℕ} (hstage : stageOf w u = some m)
    (hallows : Allows m op) (hact : act w.shared op c = some (shared, some answer)) :
    Held (w.record u (.answers op answer) p shared) t id where
  taken := (moved_of_act hact).not_queued h.below h.taken
  below := Nat.lt_of_lt_of_le h.below (moved_of_act hact).nextId_le
  only v m' hstage' hholder := by
    obtain ⟨rfl, rfl⟩ | ⟨-, hold⟩ := Discipline.came_of_answers hstage hstage'
    · obtain hsame | ⟨task, rest, -, htaken, -, hqueue, -⟩ := holder_next hallows hact
      · exact h.only v m hstage (hsame ▸ hholder)
      · change (next m op answer).holder = some id at hholder
        rw [htaken] at hholder
        obtain rfl := Option.some.inj hholder
        have hqueued : task.id ∈ queued w.shared := by
          rw [queued, hqueue]
          exact List.mem_cons_self
        exact absurd hqueued h.taken
    · exact h.only v m' hold hholder

-- The worker that takes a task is the only one that has it.
theorem held_of_take (h : Kept w) (hstage : stageOf w t = some m)
    (hact : act w.shared op c = some (shared, some answer)) {task : Task} {rest : List Task}
    (hnext : next m op answer = .taken task.id) (htouches : touches op = none)
    (hqueue : w.shared.lane.queue = task :: rest) (hrest : shared.lane.queue = rest)
    (hpromises : shared.promises = w.shared.promises) :
    Held (w.record t (.answers op answer) p shared) t task.id ∧
      Worked (job (w.record t (.answers op answer) p shared) task.id) (next m op answer) := by
  have hqueued : task.id ∈ queued w.shared := by
    rw [queued, hqueue]
    exact List.mem_cons_self
  have hnobody (u : ℕ) (m' : Stage V E) (hu : stageOf w u = some m') : m'.holder ≠ some task.id :=
    fun hholder => absurd hqueued (h.held u m' task.id hu hholder).1.taken
  have hlt := h.lane.accepted_lt (h.lane.inv.accepted_of_tasks (Lane.queued_subset hqueued))
  refine ⟨⟨?_, Nat.lt_of_lt_of_le hlt (moved_of_act hact).nextId_le, ?_⟩, ?_⟩
  · have hnodup : (w.shared.lane.tasks.map Task.id).Nodup := h.lane.inv.nodup
    rw [Lane.tasks, List.map_append, hqueue, List.map_cons] at hnodup
    change task.id ∉ shared.lane.queue.map Task.id
    rw [hrest]
    exact (List.nodup_cons.mp (List.nodup_append.mp hnodup).1).1
  · intro u m' hu hholder
    obtain ⟨rfl, -⟩ | ⟨-, hold⟩ := Discipline.came_of_answers hstage hu
    · rfl
    · exact absurd hholder (hnobody u m' hold)
  · have hnone : touches op ≠ some task.id := by
      rw [htouches]
      exact (Option.some_ne_none _).symm
    obtain ⟨hstarts, hresult⟩ := not_startsIn_of_touches (t := t) answer hnone
    rw [hnext, job_record hstarts hresult, hpromises]
    exact h.unheld task.id hnobody

theorem Kept.of_answers (h : Kept w) (hstage : stageOf w t = some m) (hallows : Allows m op)
    (hact : act w.shared op c = some (shared, some answer))
    (hguard : ∀ id ∈ cancelling op, starts w id = 0) :
    Kept (w.record t (.answers op answer) p shared) where
  lane := h.lane.of_moved (moved_of_act hact)
  held u m' id hu hholder := by
    obtain ⟨rfl, rfl⟩ | ⟨hne, hold⟩ := Discipline.came_of_answers hstage hu
    · obtain hsame | ⟨task, rest, -, hnext, htouches, hqueue, hrest, hpromises⟩ :=
        holder_next hallows hact
      · change (next m op answer).holder = some id at hholder
        rw [hsame] at hholder
        obtain ⟨hheld, hworked⟩ := h.held u m id hstage hholder
        refine ⟨hheld.of_answers hstage hallows hact, ?_⟩
        by_cases htouches : touches op = some id
        · exact worked_next hallows hact htouches hworked
        · rw [job_of_answers hact htouches]
          exact worked_of_touches_ne hallows hholder htouches hworked
      · change (next m op answer).holder = some id at hholder
        rw [hnext] at hholder
        obtain rfl := Option.some.inj hholder
        exact held_of_take h hstage hact hnext htouches hqueue hrest hpromises
    · obtain ⟨hheld, hworked⟩ := h.held u m' id hold hholder
      refine ⟨hheld.of_answers hstage hallows hact, ?_⟩
      have htouches : touches op ≠ some id := by
        intro htouches
        have hown := (holder_of_touches answer hallows htouches).1
        exact hne (hheld.only t m hstage hown).symm
      rw [job_of_answers hact htouches]
      exact hworked
  unheld id hnobody := by
    have hnext : (next m op answer).holder ≠ some id :=
      hnobody t _ (Discipline.stage_answers hstage ..)
    have hbefore (u : ℕ) (m' : Stage V E) (hu : stageOf w u = some m') : m'.holder ≠ some id := by
      by_cases hut : u = t
      · subst hut
        obtain rfl := Option.some.inj (hu.symm.trans hstage)
        obtain hsame | ⟨task, rest, rfl, -⟩ := holder_next hallows hact
        · rwa [← hsame]
        · exact nofun
      · exact hnobody u m' ((Discipline.stage_record_of_ne hut).trans hu)
    have htouches : touches op ≠ some id :=
      fun htouches => hnext (holder_of_touches _ hallows htouches).2
    exact (job_of_answers hact htouches).trans (h.unheld id hbefore)
  waits u m' hu := by
    obtain ⟨rfl, rfl⟩ | ⟨hne, hold⟩ := Discipline.came_of_answers hstage hu
    · exact Waits.next h hstage hallows hact hguard
    · exact (h.waits u m' hold).stays h hstage hallows hact

-- Nothing happens to the lane or to an operation, and only a new call is at a new stage.
theorem Kept.of_quiet (h : Kept w) (hshared : w'.shared = w.shared)
    (hjob : ∀ id, job w' id = job w id)
    (hstage : ∀ t m, stageOf w' t = some m → stageOf w t = some m ∨
      ∃ call, m = (discipline V E).start call)
    (hold : ∀ t m, stageOf w t = some m → stageOf w' t = some m) : Kept w' := by
  have hstart (call : Call) : ((discipline V E).start call).holder = none ∧
      Waits w' ((discipline V E).start call) := by
    cases call <;> exact ⟨rfl, trivial⟩
  have hstarts (id : ℕ) : starts w' id = starts w id := (job_eq (hjob id)).1
  refine ⟨hshared ▸ h.lane, fun t m id ht hholder => ?_, fun id hnobody => ?_, fun t m ht => ?_⟩
  · obtain ht | ⟨call, rfl⟩ := hstage t m ht
    · obtain ⟨⟨htaken, hbelow, honly⟩, hworked⟩ := h.held t m id ht hholder
      refine ⟨⟨hshared ▸ htaken, hshared ▸ hbelow, fun u m' hu hholder' => ?_⟩, hjob id ▸ hworked⟩
      obtain hu | ⟨call, rfl⟩ := hstage u m' hu
      · exact honly u m' hu hholder'
      · cases (hstart call).1.symm.trans hholder'
    · cases (hstart call).1.symm.trans hholder
  · exact (hjob id).trans (h.unheld id fun t m ht => hnobody t m (hold t m ht))
  · obtain ht | ⟨call, rfl⟩ := hstage t m ht
    · have hwaits := h.waits t m ht
      cases m with
      | waiting id | ready id | leaving id =>
        change Accepted w'.shared id
        rw [hshared]
        exact hwaits
      | left id =>
        change w'.shared.lane.Doomed id ∧ starts w' id = 0
        rw [hshared, hstarts]
        exact hwaits
      | got id outcome =>
        change w'.shared.promises id = some outcome
        rw [hshared]
        exact hwaits
      | _ => exact trivial
    · exact (hstart call).2

theorem Kept.of_moves (h : Kept w) (hs : (discipline V E).Follows w)
    (hguard : LeavesUnstarted w i) (hm : (discipline V E).Moves (system V E) w i w') :
    Kept w' := by
  cases hm with
  | begins hbegins =>
    rename_i call shared
    cases hbegins
    refine h.of_quiet rfl (fun id => ?_) (fun t m ht => ?_) (fun t m ht => ?_)
    · exact job_record (t := w.started) (p := some ((system V E).program call)) rfl rfl
    · obtain ⟨-, hstart⟩ | ⟨-, hold⟩ := Discipline.came_of_begun ht
      · exact .inr ⟨call, hstart⟩
      · exact .inl hold
    · exact (Discipline.stage_begun_of_ne (Nat.ne_of_lt (hs.stage_lt ht)) ..).trans ht
  | answers hstage hallows hact hrunning =>
    exact h.of_answers hstage hallows hact (hguard _ (asks_of_running hrunning))
  | waits hstage hallows hact hrunning =>
    cases act_ne_none hact
  | ends hstage hpost =>
    refine h.of_quiet rfl (fun id => job_record rfl rfl) (fun t m ht => .inl ?_) fun t m ht => ?_
    · exact (Discipline.stage_ends ..).symm.trans ht
    · exact (Discipline.stage_ends ..).trans ht
  | hangsUp hstage hhangs hrunning => cases hhangs

-- The task that an `invoke` waits for.
def Stage.waiter : Stage V E → Option ℕ
  | .waiting id | .ready id | .leaving id | .left id | .got id _ => some id
  | _ => none

theorem waiter_next (hallows : Allows m op) (h : (next m op answer).waiter = some id) :
    m.waiter = some id ∨ ∀ t, submittedIn t (t, .answers op answer) = some id := by
  cases op with
  | submitCommandWork =>
    obtain rfl : m = .called := hallows
    cases answer with
    | none => cases h
    | some id' =>
      obtain rfl := Option.some.inj h
      exact .inr fun t => if_pos rfl
  | stopRequested =>
    obtain rfl : m = .called := hallows
    cases answer <;> cases h
  | waitFor id' =>
    obtain rfl : m = .waiting id' := hallows
    cases answer <;> exact .inl h
  | givesUp =>
    obtain ⟨id', rfl⟩ := hallows
    cases answer <;> exact .inl h
  | cancelCommandWork id' =>
    obtain rfl : m = .leaving id' := hallows
    exact .inl h
  | get id' =>
    obtain rfl : m = .ready id' := hallows
    exact .inl h
  | report report =>
    obtain ⟨rfl | ⟨id', rfl⟩, -⟩ | ⟨id', outcome, rfl, -⟩ := hallows
    · exact .inl h
    · exact .inl h
    · exact .inl h
  | pause => exact nomatch answer
  | checkStop id' =>
    obtain rfl : m = .passed id' := hallows
    cases answer <;> cases h
  | enter id' =>
    obtain rfl : m = .entering id' := hallows
    cases answer <;> cases h
  | set id' outcome =>
    obtain ⟨rfl, -⟩ | ⟨result, rfl, -⟩ := hallows
    · cases h
    · cases h
  | erase id' =>
    obtain rfl | ⟨outcome, rfl⟩ := hallows
    · cases h
    · cases h
  | complete id' =>
    obtain ⟨outcome, rfl⟩ := hallows
    cases h
  | take | checkDeadline id' | operation id' | elsewhere event =>
    change m = _ at hallows
    subst hallows
    cases h

-- A call that has something to tell does nothing else.
theorem next_of_tells {report : Report V E} (htells : Tells m report) : next m op answer = m := by
  obtain ⟨rfl | ⟨id, rfl⟩, -⟩ | ⟨id, outcome, rfl, -⟩ := htells
  · cases op <;> rfl
  · cases op <;> rfl
  · cases op <;> rfl

theorem waiter_stays (h : m.waiter = some id) : (next m op answer).waiter = some id := by
  cases m with
  | waiting id' =>
    cases op with
    | waitFor id' | givesUp => cases answer <;> exact h
    | _ => exact h
  | ready id' | leaving id' | left id' | got id' outcome => cases op <;> exact h
  | _ => cases h

def Submits (w : World V E) : Prop :=
  ∀ t m id, stageOf w t = some m → m.waiter = some id → id ∈ submitted w t

theorem Submits.of_moves (h : Submits w) (hm : (discipline V E).Moves (system V E) w i w') :
    Submits w' := by
  intro t m id hstage hwaiter
  have hold (m : Stage V E) (ht : stageOf w t = some m) (hw : m.waiter = some id) :
      id ∈ submitted w' t :=
    List.filterMap_subset _ (Discipline.history_subset_of_moves hm) (h t m id ht hw)
  cases Discipline.came_of_moves hm hstage with
  | began hi ht =>
    rename_i call
    cases call <;> cases hwaiter
  | stayed ht => exact hold m ht hwaiter
  | went hi ht hallows hact hasks hhistory =>
    obtain hbefore | hnew := waiter_next hallows hwaiter
    · exact hold _ ht hbefore
    · refine List.mem_filterMap.mpr ⟨_, ?_, hnew t⟩
      rw [hhistory]
      exact List.mem_cons_self

-- What an event of an `invoke` says of where it is now.
def Past : Lib.Event Call (Op V E) Op.Answer Unit → Stage V E → Prop
  | .answers .submitCommandWork (some id), m => m.waiter = some id
  | .answers (.report report) _, m => Tells m report
  | _, _ => True

theorem lasts : Discipline.Lasts (discipline V E) Past where
  begins call := trivial
  ends m result _ := trivial
  hangsUp m := trivial
  answers m op answer hallows := by
    cases op with
    | submitCommandWork =>
      obtain rfl : m = .called := hallows
      cases answer with
      | none => exact trivial
      | some id => exact rfl
    | report report =>
      have htells : Tells m report := hallows
      have hsame : next m (.report report) answer = m := next_of_tells htells
      change Tells (next m (.report report) answer) report
      rwa [hsame]
    | _ => exact trivial
  goes event m op answer hallows hpast := by
    cases event with
    | answers op' answer' =>
      cases op' with
      | submitCommandWork =>
        cases answer' with
        | none => exact trivial
        | some id => exact waiter_stays hpast
      | report report =>
        have hsame : next m op answer = m := next_of_tells hpast
        change Tells (next m op answer) report
        rwa [hsame]
      | _ => exact trivial
    | _ => exact trivial

-- Whatever a promise holds is what the operation did.
theorem fits_of_promise (h : Kept w) {outcome : Outcome V E}
    (hset : w.shared.promises id = some outcome) : Fits (starts w id) (results w id) outcome := by
  by_cases hheld : ∃ t m, stageOf w t = some m ∧ m.holder = some id
  · obtain ⟨t, m, hstage, hholder⟩ := hheld
    have hworked := (h.held t m id hstage hholder).2
    cases m with
    | settled id' outcome' =>
      obtain ⟨houtcome, hfits⟩ := hworked
      obtain rfl : outcome = outcome' := Option.some.inj (hset.symm.trans houtcome)
      exact hfits
    | taken id' | passed id' | entering id' | discarding id' | stopped id' | running id'
    | ran id' result => cases hset.symm.trans (job_eq hworked).2.2
    | _ => cases hholder
  · have hnobody (t : ℕ) (m : Stage V E) (ht : stageOf w t = some m) : m.holder ≠ some id :=
      fun hholder => hheld ⟨t, m, ht, hholder⟩
    cases hset.symm.trans (job_eq (h.unheld id hnobody)).2.2

theorem matches_reportOf {outcome : Outcome V E} (h : Fits (starts w id) (results w id) outcome) :
    Matches w id (Routine.reportOf outcome) := by
  cases outcome with
  | value v | exception e => exact h
  | cancelled => exact h.1

theorem reported_of_kept (h : Kept w) (hsubmits : Submits w)
    (hrecalls : (discipline V E).Recalls Past w) : Reported w := by
  rintro ⟨t, event⟩ hmem ⟨u, report⟩ hreport
  have hevent : u = t ∧ ∃ answer, event = .answers (.report report) answer := by
    unfold reportIn at hreport
    split at hreport
    · cases hreport
      rename_i heq
      cases heq
      exact ⟨rfl, _, rfl⟩
    · cases hreport
  obtain ⟨rfl, answer, rfl⟩ := hevent
  obtain ⟨m, hstage, htells⟩ := hrecalls u _ hmem
  refine ⟨fun id hid => ?_, fun hnone => ?_⟩
  · obtain ⟨⟨u', event'⟩, hmem', hsubmitted⟩ := List.mem_filterMap.mp hid
    have hwaiter : m.waiter = some id := by
      unfold submittedIn at hsubmitted
      split at hsubmitted
      · next heq =>
        cases heq
        obtain ⟨hu, heq⟩ := Option.ite_none_right_eq_some.mp hsubmitted
        obtain rfl := Option.some.inj heq
        obtain ⟨m', hstage', hpast⟩ := hrecalls _ _ hmem'
        subst hu
        obtain rfl := Option.some.inj (hstage.symm.trans hstage')
        exact hpast
      · cases hsubmitted
    obtain ⟨rfl | ⟨id', rfl⟩, rfl⟩ | ⟨id', outcome, rfl, rfl⟩ := htells
    · cases hwaiter
    · obtain rfl := Option.some.inj hwaiter
      exact (h.waits u _ hstage).2
    · obtain rfl := Option.some.inj hwaiter
      exact matches_reportOf (fits_of_promise h (h.waits u _ hstage))
  · obtain ⟨-, rfl⟩ | ⟨id', outcome, rfl, -⟩ := htells
    · rfl
    · have hmem := hsubmits u _ id' hstage rfl
      rw [hnone] at hmem
      cases hmem

theorem kept_initial (queuedCapacity : ℕ) : Kept (World.initial queuedCapacity : World V E) where
  lane := ⟨.create .., fun _ htask => nomatch htask⟩
  held _ _ _ hstage := nomatch hstage
  unheld _ _ := rfl
  waits _ _ hstage := nomatch hstage

end Steps

-- The worker is in the first operation when the caller of the second gives up, and the first comes
-- to its value.
def leavesQueued : List (Step ℕ Unit) :=
  [.begins (.invoke 1), .acts 0 .no, .acts 0 .yes, .begins (.invoke 1), .acts 1 .no, .acts 1 .yes,
    .begins .work, .acts 2 .no, .acts 2 .no, .acts 2 .no, .acts 2 .no, .acts 1 .no, .acts 1 .yes,
    .acts 1 .no, .acts 1 .no, .acts 2 (.comes (.ok 7)), .acts 2 .no, .acts 2 .no, .acts 2 .no,
    .acts 0 .no, .acts 0 .no, .acts 0 .no]

end Glider.Llm.Outbound

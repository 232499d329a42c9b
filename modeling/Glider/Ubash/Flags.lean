import Glider.Ubash.Fates

namespace Glider.Ubash

open Glider.Lib Glider.Lib.Threads
open Work (Lane Active Task acceptedTasks)

-- The command is between its first section and the one that records its job.
def Stage.opens : Stage → Bool
  | .begun | .submitted _ => true
  | _ => false

-- The job that a command cancels, and the one that it has cancelled and is still to reset.
def Stage.cancels : Stage → Option ℕ
  | .cancelling id | .cancelled id | .undoing id | .undone id => some id
  | _ => none

def Stage.resets : Stage → Option ℕ
  | .cancelled id | .undone id => some id
  | _ => none

def Known (s : State) (id : ℕ) : Prop := id ∈ (acceptedTasks s.lane.history).map Task.id

structure Submitted (w : World) (id : ℕ) : Prop where
  known : Known w.shared id
  live : w.shared.completed id = true ∨ Live w.shared id
  alone : ∀ u m, stageOf w u = some m → m.cancels ≠ some id

-- How the flags go with the jobs and with what the commands are doing.
structure Flags (w : World) : Prop where
  opens : ∀ t m, stageOf w t = some m → m.opens = true → w.shared.submitting = true ∧
    ∀ u m', stageOf w u = some m' → m'.opens = true → u = t
  closed : w.shared.submitting = true → w.shared.active = none
  known : ∀ t m id, stageOf w t = some m → m.cancels = some id → Known w.shared id
  knownActive : ∀ id, w.shared.active = some id → Known w.shared id
  submitted : ∀ t id, stageOf w t = some (.submitted (some id)) → Submitted w id
  covered : ∀ id, Live w.shared id →
    w.shared.active = some id ∨ ∃ t, stageOf w t = some (.submitted (some id))
  recorded : ∀ id, w.shared.active = some id →
    Live w.shared id ∨ ∃ t m, stageOf w t = some m ∧ m.resets = some id
  dead : ∀ t m id, stageOf w t = some m → m.resets = some id → ¬Live w.shared id

section Acts

variable {s s' : State} {op : Op} {accepts : Bool} {answer : op.Answer} {id : ℕ}

theorem submittedJob_eq_some {workId : Option ℕ} :
    s.submittedJob workId = some id ↔ workId = some id ∧ s.completed id = false := by
  unfold State.submittedJob
  rw [Option.filter_eq_some_iff, Bool.not_eq_true']

theorem flags_of_act (hact : act s op accepts = some (s', some answer)) :
    s'.active = s.active ∧ s'.submitting = s.submitting ∨ (∃ id, op = .reset id) ∨ op = .begin ∨
      (∃ workId, op = .record workId) ∨ ∃ id, op = .completed id := by
  cases op with
  | reset id => exact .inr (.inl ⟨id, rfl⟩)
  | begin => exact .inr (.inr (.inl rfl))
  | record workId => exact .inr (.inr (.inr (.inl ⟨workId, rfl⟩)))
  | completed id => exact .inr (.inr (.inr (.inr ⟨id, rfl⟩)))
  | submitCommandWork => cases accepts <;> cases hact <;> exact .inl ⟨rfl, rfl⟩
  | take =>
    simp only [act] at hact
    split at hact <;> cases hact
    exact .inl ⟨rfl, rfl⟩
  | checkDeadline id | checkStop id | complete id | erase id =>
    obtain ⟨lane, -, heq⟩ := Option.map_eq_some_iff.mp hact
    cases heq
    exact .inl ⟨rfl, rfl⟩
  | _ =>
    cases hact
    exact .inl ⟨rfl, rfl⟩

theorem active_begin (s : State) : s.begin.1.active = s.active := by
  unfold State.begin
  split <;> rfl

theorem active_of_act (hact : act s op accepts = some (s', some answer))
    (h : s'.active = some id) :
    s.active = some id ∨ op = .record (some id) ∧ s.completed id = false := by
  obtain ⟨hactive, -⟩ | ⟨id', rfl⟩ | rfl | ⟨workId, rfl⟩ | ⟨id', rfl⟩ := flags_of_act hact
  · exact .inl (hactive.symm.trans h)
  · cases hact
    change (if s.active = some id' then none else s.active) = some id at h
    split at h
    · cases h
    · exact .inl h
  · cases hact
    exact .inl ((active_begin s).symm.trans h)
  · cases hact
    change (s.submittedJob workId).or s.active = some id at h
    obtain hjob | ⟨-, hold⟩ := Option.or_eq_some_iff.mp h
    · obtain ⟨rfl, hcompleted⟩ := submittedJob_eq_some.mp hjob
      exact .inr ⟨rfl, hcompleted⟩
    · exact .inl hold
  · cases hact
    cases h

theorem closed_of_act (hact : act s op accepts = some (s', some answer))
    (hclosed : s.submitting = true → s.active = none) (h : s'.submitting = true) :
    s'.active = none := by
  obtain ⟨hactive, hsubmitting⟩ | ⟨id', rfl⟩ | rfl | ⟨workId, rfl⟩ | ⟨id', rfl⟩ := flags_of_act hact
  · rw [hactive]
    exact hclosed (hsubmitting ▸ h)
  · cases hact
    change (if s.active = some id' then none else s.active) = none
    rw [hclosed h, ite_self]
  · cases hact
    rw [active_begin]
    unfold State.begin at h
    split at h
    · exact hclosed h
    next hfree =>
      rw [Bool.or_eq_true, not_or] at hfree
      exact Option.not_isSome_iff_eq_none.mp hfree.2
  · cases hact
    cases h
  · cases hact
    rfl

theorem completed_false (hact : act s op accepts = some (s', some answer))
    (h : s'.completed id = false) : s.completed id = false := by
  by_contra htrue
  have hafter := (completed_of_act hact).mpr (.inl (eq_true_of_ne_false htrue))
  cases h.symm.trans hafter

-- Only a submission makes a job live.
theorem live_back (hok : LaneOk s) (hact : act s op accepts = some (s', some answer))
    (hsubmit : op ≠ .submitCommandWork) (h : Live s' id) : Live s id := by
  refine ⟨completed_false hact h.1, ?_⟩
  by_cases hcancel : op = .cancelCommandWork id
  · subst hcancel
    cases hact
    exact Lane.unstopped_of_cancel h.2
  · by_cases herase : op = .erase id
    · subst herase
      obtain ⟨lane, hstep, heq⟩ := Option.map_eq_some_iff.mp hact
      cases heq
      simp only [Lane.step] at hstep
      split at hstep
      · cases hstep
        refine h.2.imp_right fun hactive => ?_
        exact List.map_subset _ (List.filter_subset_self _) hactive
      · cases hstep
    · exact (unstopped_of_act hok hact hsubmit hcancel herase).mp h.2

theorem live_submit {workId : Option ℕ}
    (hact : act s .submitCommandWork accepts = some (s', some workId)) (h : Live s' id) :
    Live s id ∨ workId = some id := by
  cases accepts with
  | false =>
    cases hact
    exact .inl h
  | true =>
    cases hact
    exact ((unstopped_submitted id).mp h.2).imp_left fun hold => ⟨h.1, hold⟩

-- A submission that is accepted gives a new id.
theorem submit_of_act (hact : act s .submitCommandWork accepts = some (s', some (some id))) :
    id = s.nextId ∧ Known s' id ∧ s'.completed = s.completed ∧ s'.lane.Unstopped id := by
  cases accepts with
  | false => cases hact
  | true =>
    obtain ⟨hshared, hanswer⟩ := Prod.mk.inj (Option.some.inj hact)
    have hanswer : s.submit.2 = some id := Option.some.inj hanswer
    subst hshared
    refine ⟨?_, ?_, rfl, (unstopped_submitted id).mpr (.inr hanswer)⟩
    · unfold State.submit at hanswer
      dsimp only at hanswer
      split at hanswer
      · exact (Option.some.inj hanswer).symm
      · cases hanswer
    · unfold Known
      unfold State.submit Lane.submit at hanswer ⊢
      dsimp only at hanswer ⊢
      split at hanswer
      · cases hanswer
      next hroom =>
        obtain rfl := Option.some.inj hanswer
        rw [if_neg hroom, Work.Lane.acceptedTasks_accepted]
        exact List.mem_cons_self

-- What a worker erases is not live any more.
theorem not_live_of_erase {w : World} (hf : Fates w)
    (hact : act w.shared (.erase id) accepts = some (s', some ())) : ¬Live w.shared id := by
  rintro ⟨hcompleted, hunstopped⟩
  obtain ⟨lane, hstep, -⟩ := Option.map_eq_some_iff.mp hact
  simp only [Lane.step] at hstep
  split at hstep
  next task stop reported hfound =>
    obtain ⟨hmem, hid⟩ := Lane.lookup_eq_some hfound
    obtain hstop | hover := (hf.entries _ hmem).finished rfl
    · obtain hqueue | hactive := hunstopped
      · obtain ⟨other, hother, heq⟩ := List.mem_map.mp hqueue
        exact hf.lane.ok.inv.queue_ne_active hother hmem (heq.trans hid.symm)
      · obtain ⟨a, ha, heq⟩ := List.mem_map.mp hactive
        obtain ⟨haid, hastop⟩ := Prod.mk.inj heq
        obtain rfl := hf.lane.ok.inv.active_inj ha hmem (haid.trans hid.symm)
        cases hastop.symm.trans hstop
    · rw [hid] at hover
      cases hcompleted.symm.trans hover
  · cases hstep

theorem live_stays {w : World} (hf : Fates w)
    (hact : act w.shared op accepts = some (s', some answer)) (h : Live w.shared id) :
    Live s' id ∨ op = .cancelCommandWork id ∨ op = .completed id := by
  by_cases hcompleted : op = .completed id
  · exact .inr (.inr hcompleted)
  · by_cases hcancel : op = .cancelCommandWork id
    · exact .inr (.inl hcancel)
    · refine .inl ⟨?_, ?_⟩
      · by_contra htrue
        obtain hover | hop := (completed_of_act hact).mp (eq_true_of_ne_false htrue)
        · cases h.1.symm.trans hover
        · exact hcompleted hop
      · by_cases hsubmit : op = .submitCommandWork
        · subst hsubmit
          cases accepts <;> cases hact
          · exact h.2
          · exact (unstopped_submitted id).mpr (.inl h.2)
        · refine (unstopped_of_act hf.lane hact hsubmit hcancel ?_).mpr h.2
          rintro rfl
          exact not_live_of_erase hf hact h

theorem not_live_of_cancel {requested : Bool} (hok : LaneOk s) (hknown : Known s id)
    (hact : act s (.cancelCommandWork id) accepts = some (s', some requested)) :
    ¬Live s' id := by
  obtain ⟨task, htask, rfl⟩ := List.mem_map.mp hknown
  have hmoved := (changes_of_act hact).moved
  cases hact
  have hdoomed := Lane.doomed_cancel hok.ok.inv htask
  rw [(hok.plain task htask).1] at hdoomed
  exact fun hlive => hdoomed.not_unstopped (hok.ok.of_moved hmoved).inv hlive.2

end Acts

section Steps

variable {w : World} {t : ℕ} {op : Op} {accepts : Bool} {answer : op.Answer} {m : Stage}
  {shared : State} {p : Option (Program Op Op.Answer Unit Unit)} {id : ℕ}

theorem Flags.active_none (h : Flags w) {u : ℕ} {m' : Stage}
    (hopens : stageOf w u = some m') (hopen : m'.opens = true) : w.shared.active = none :=
  h.closed (h.opens u m' hopens hopen).1

theorem cancels_of_resets {m : Stage} (h : m.resets = some id) : m.cancels = some id := by
  cases m with
  | cancelled id' | undone id' => exact h
  | _ => cases h

theorem op_of_submitted {workId : Option ℕ} (hallows : Allows (.submitted workId) op) :
    op = .record workId := by
  cases op with
  | record workId' => rw [Stage.submitted.inj hallows]
  | reset id' | cancelCommandWork id' => obtain hm | hm := hallows <;> cases hm
  | _ => cases hallows

theorem op_of_resets (hallows : Allows m op) (h : m.resets = some id) : op = .reset id := by
  cases op with
  | reset id' =>
    obtain rfl | rfl := hallows
    · rw [Option.some.inj h]
    · rw [Option.some.inj h]
  | cancelCommandWork id' =>
    obtain rfl | rfl := hallows
    · cases h
    · cases h
  | _ =>
    change m = _ at hallows
    subst hallows
    cases h

-- Where a command gets the job from that it cancels.
theorem cancels_of_goes {m' : Stage} (hact : act w.shared op accepts = some (shared, some answer))
    (hgoes : Goes m op answer m') (h : m'.cancels = some id) :
    m.cancels = some id ∨ w.shared.active = some id ∨ m = .submitted (some id) := by
  cases hgoes with
  | finds id' submitting =>
    obtain rfl := Option.some.inj h
    have hfound : w.shared.active = some id' := by
      obtain ⟨-, hanswer⟩ := Prod.mk.inj (Option.some.inj hact)
      exact (Prod.mk.inj (Option.some.inj hanswer)).1
    exact .inr (.inl hfound)
  | undoes workId id' =>
    obtain rfl := Option.some.inj h
    have hjob : w.shared.submittedJob workId = some id' := by
      obtain ⟨-, hanswer⟩ := Prod.mk.inj (Option.some.inj hact)
      have hanswer := Option.some.inj hanswer
      change (if _ then w.shared.submittedJob workId else none) = some id' at hanswer
      split at hanswer
      · exact hanswer
      · cases hanswer
    exact .inr (.inr (congrArg Stage.submitted (submittedJob_eq_some.mp hjob).1))
  | cancels id' requested | cancelsOwn id' requested => exact .inl h
  | _ => cases h

theorem opens_of_goes {m' : Stage} (hgoes : Goes m op answer m') (h : m'.opens = true) :
    m.opens = true ∧ op = .submitCommandWork ∨ m = .submitter ∧ op = .begin ∧ m' = .begun := by
  cases hgoes with
  | begins => exact .inr ⟨rfl, rfl, rfl⟩
  | submits workId => exact .inl ⟨rfl, rfl⟩
  | _ => cases h

theorem begin_of_act (hact : act w.shared .begin accepts = some (shared, some false)) :
    w.shared.submitting = false ∧ shared.submitting = true := by
  obtain ⟨hshared, hanswer⟩ := Prod.mk.inj (Option.some.inj hact)
  have hanswer := Option.some.inj hanswer
  subst hshared
  unfold State.begin at hanswer ⊢
  split at hanswer
  · cases hanswer
  next hfree =>
    rw [if_neg hfree]
    rw [Bool.or_eq_true, not_or] at hfree
    exact ⟨eq_false_of_ne_true hfree.1, rfl⟩

variable (h : Flags w) (hf : Fates w) (hstage : stageOf w t = some m) (hallows : Allows m op)
  (hact : act w.shared op accepts = some (shared, some answer))

include h hstage hallows hact

-- While a command is in between, no other one comes in, and its submission goes on.
theorem Flags.submitting_stays {u : ℕ} {m' : Stage} (hu : stageOf w u = some m')
    (hopen : m'.opens = true) (hne : u ≠ t ∨ op = .submitCommandWork) :
    shared.submitting = true := by
  obtain ⟨hsubmitting, honly⟩ := h.opens u m' hu hopen
  obtain ⟨-, hsame⟩ | ⟨id', rfl⟩ | rfl | ⟨workId, rfl⟩ | ⟨id', rfl⟩ := flags_of_act hact
  · exact hsame.trans hsubmitting
  · cases hact
    exact hsubmitting
  · cases hact
    unfold State.begin
    split
    · exact hsubmitting
    · rfl
  · obtain rfl : m = .submitted workId := hallows
    obtain hne | hop := hne
    · exact absurd (honly t _ hstage rfl).symm hne
    · cases hop
  · cases hact
    exact hsubmitting

theorem Flags.opens_of_answers {u : ℕ} {m' : Stage}
    (hu : stageOf (w.record t (.answers op answer) p shared) u = some m')
    (hopen : m'.opens = true) : shared.submitting = true ∧ ∀ v m'',
      stageOf (w.record t (.answers op answer) p shared) v = some m'' → m''.opens = true →
        v = u := by
  have hgoes := goes_of_allows hallows answer
  -- Whoever is in between afterwards was so before, or is the one that begins.
  have hcame {v : ℕ} {m'' : Stage}
      (hv : stageOf (w.record t (.answers op answer) p shared) v = some m'')
      (hopen : m''.opens = true) :
      (∃ m₀, stageOf w v = some m₀ ∧ m₀.opens = true ∧ (v ≠ t ∨ op = .submitCommandWork)) ∨
        v = t ∧ w.shared.submitting = false ∧ shared.submitting = true := by
    obtain ⟨rfl, hnext⟩ | ⟨hne, hold⟩ := Discipline.came_of_answers hstage hv
    · rw [hnext] at hopen
      obtain ⟨hbefore, hop⟩ | ⟨rfl, rfl, hbegun⟩ := opens_of_goes hgoes hopen
      · exact .inl ⟨m, hstage, hbefore, .inr hop⟩
      · cases answer with
        | true => cases hbegun
        | false => exact .inr ⟨rfl, begin_of_act hact⟩
    · exact .inl ⟨m'', hold, hopen, .inl hne⟩
  obtain ⟨m₀, hu₀, hopen₀, hne⟩ | ⟨rfl, hfree, hsubmitting⟩ := hcame hu hopen
  · refine ⟨h.submitting_stays hstage hallows hact hu₀ hopen₀ hne, fun v m'' hv hopen' => ?_⟩
    obtain ⟨m₁, hv₁, hopen₁, -⟩ | ⟨rfl, hfree, -⟩ := hcame hv hopen'
    · exact (h.opens u m₀ hu₀ hopen₀).2 v m₁ hv₁ hopen₁
    · cases hfree.symm.trans (h.opens u m₀ hu₀ hopen₀).1
  · refine ⟨hsubmitting, fun v m'' hv hopen' => ?_⟩
    obtain ⟨m₁, hv₁, hopen₁, -⟩ | ⟨rfl, -⟩ := hcame hv hopen'
    · cases hfree.symm.trans (h.opens v m₁ hv₁ hopen₁).1
    · rfl

theorem Flags.known_of_answers {u : ℕ} {m' : Stage}
    (hu : stageOf (w.record t (.answers op answer) p shared) u = some m')
    (hcancels : m'.cancels = some id) : Known shared id := by
  refine (changes_of_act hact).moved.accepted_ids ?_
  obtain ⟨rfl, hnext⟩ | ⟨-, hold⟩ := Discipline.came_of_answers hstage hu
  · have hgoes : Goes m op answer m' := hnext ▸ goes_of_allows hallows answer
    obtain hbefore | hactive | rfl := cancels_of_goes hact hgoes hcancels
    · exact h.known u m id hstage hbefore
    · exact h.knownActive id hactive
    · exact (h.submitted u id hstage).known
  · exact h.known u m' id hold hcancels

theorem Flags.knownActive_of_answers (hactive : shared.active = some id) : Known shared id := by
  refine (changes_of_act hact).moved.accepted_ids ?_
  obtain hbefore | ⟨rfl, -⟩ := active_of_act hact hactive
  · exact h.knownActive id hbefore
  · obtain rfl : m = .submitted (some id) := hallows
    exact (h.submitted t id hstage).known

include hf

theorem Flags.submitted_of_answers {u : ℕ}
    (hu : stageOf (w.record t (.answers op answer) p shared) u = some (.submitted (some id))) :
    Submitted (w.record t (.answers op answer) p shared) id := by
  have hmoved := (changes_of_act hact).moved
  obtain ⟨rfl, hnext⟩ | ⟨hne, hold⟩ := Discipline.came_of_answers hstage hu
  · have hgoes : Goes m op answer (.submitted (some id)) := hnext ▸ goes_of_allows hallows answer
    cases hgoes
    obtain ⟨hid, hknown, hcompleted, hunstopped⟩ := submit_of_act hact
    have hnew : ¬Known w.shared id :=
      fun hk => absurd (hf.lane.ok.accepted_lt hk) (Nat.not_lt_of_le (Nat.le_of_eq hid.symm))
    refine ⟨hknown, .inr ⟨?_, hunstopped⟩, fun v m' hv hcancels => ?_⟩
    · change shared.completed id = false
      rw [hcompleted]
      exact eq_false_of_ne_true fun hover => hnew (hf.completed id hover).2
    · obtain ⟨rfl, rfl⟩ | ⟨-, hold⟩ := Discipline.came_of_answers hstage hv
      · cases hcancels
      · exact hnew (h.known v m' id hold hcancels)
  · obtain ⟨hknown, hlive, halone⟩ := h.submitted u id hold
    refine ⟨hmoved.accepted_ids hknown, ?_, fun v m' hv hcancels => ?_⟩
    · obtain hover | hlive := hlive
      · exact .inl ((completed_of_act hact).mpr (.inl hover))
      · obtain hstays | rfl | rfl := live_stays hf hact hlive
        · exact .inr hstays
        · obtain rfl | rfl := hallows
          · exact absurd rfl (halone t _ hstage)
          · exact absurd rfl (halone t _ hstage)
        · exact .inl ((completed_of_act hact).mpr (.inr rfl))
    · obtain ⟨rfl, hnext⟩ | ⟨-, hold'⟩ := Discipline.came_of_answers hstage hv
      · have hgoes : Goes m op answer m' := hnext ▸ goes_of_allows hallows answer
        obtain hbefore | hactive | rfl := cancels_of_goes hact hgoes hcancels
        · exact halone v m hstage hbefore
        · cases hactive.symm.trans (h.active_none hold rfl)
        · exact hne ((h.opens v _ hstage rfl).2 u _ hold rfl)
      · exact halone v m' hold' hcancels

theorem Flags.covered_of_live (hbefore : Live w.shared id) (hafter : Live shared id) :
    shared.active = some id ∨
      ∃ u, stageOf (w.record t (.answers op answer) p shared) u = some (.submitted (some id)) := by
  obtain hactive | ⟨u, hu⟩ := h.covered id hbefore
  · refine .inl ?_
    obtain ⟨hsame, -⟩ | ⟨id', rfl⟩ | rfl | ⟨workId, rfl⟩ | ⟨id', rfl⟩ := flags_of_act hact
    · exact hsame.trans hactive
    · have hresets : m.resets = some id' := by
        obtain rfl | rfl := hallows
        · rfl
        · rfl
      cases hact
      change (if w.shared.active = some id' then none else w.shared.active) = some id
      split
      next hid =>
        obtain rfl := Option.some.inj (hactive.symm.trans hid)
        exact absurd hbefore (h.dead t m id hstage hresets)
      · exact hactive
    · cases hact
      exact (active_begin w.shared).trans hactive
    · obtain rfl : m = .submitted workId := hallows
      cases hactive.symm.trans (h.active_none hstage rfl)
    · -- There is no other job beside the one that is over.
      obtain rfl : m = .running id' := hallows
      have hheld : id' ∈ w.shared.lane.tasks.map Task.id :=
        List.map_subset _ (List.subset_append_right ..) (hf.held t _ id' hstage rfl).active
      obtain rfl := hf.lane.eq_of_mem hbefore.mem_tasks hheld
      have hover := (completed_of_act hact).mpr (.inr rfl)
      cases hafter.1.symm.trans hover
  · by_cases hut : u = t
    · subst hut
      obtain rfl := Option.some.inj (hu.symm.trans hstage)
      obtain rfl := op_of_submitted hallows
      have hjob := submittedJob_eq_some.mpr ⟨rfl, hbefore.1⟩
      cases hact
      refine .inl ?_
      change (w.shared.submittedJob (some id)).or w.shared.active = some id
      rw [hjob]
      rfl
    · exact .inr ⟨u, (Discipline.stage_record_of_ne hut).trans hu⟩

theorem Flags.covered_of_answers (hafter : Live shared id) :
    shared.active = some id ∨
      ∃ u, stageOf (w.record t (.answers op answer) p shared) u = some (.submitted (some id)) := by
  by_cases hsubmit : op = .submitCommandWork
  · subst hsubmit
    obtain hbefore | hnew := live_submit hact hafter
    · exact h.covered_of_live hf hstage hallows hact hbefore hafter
    · obtain rfl : m = .begun := hallows
      refine .inr ⟨t, ?_⟩
      rw [← hnew]
      exact Discipline.stage_answers hstage ..
  · exact h.covered_of_live hf hstage hallows hact (live_back hf.lane hact hsubmit hafter) hafter

theorem Flags.recorded_of_answers (hactive : shared.active = some id) :
    Live shared id ∨ ∃ u m', stageOf (w.record t (.answers op answer) p shared) u = some m' ∧
      m'.resets = some id := by
  obtain hbefore | ⟨rfl, hcompleted⟩ := active_of_act hact hactive
  · obtain hlive | ⟨u, m', hu, hresets⟩ := h.recorded id hbefore
    · obtain hstays | rfl | rfl := live_stays hf hact hlive
      · exact .inl hstays
      · refine .inr ⟨t, _, Discipline.stage_answers hstage .., ?_⟩
        obtain rfl | rfl := hallows
        · rfl
        · rfl
      · cases hact
        cases hactive
    · by_cases hut : u = t
      · subst hut
        obtain rfl := Option.some.inj (hu.symm.trans hstage)
        obtain rfl := op_of_resets hallows hresets
        cases hact
        change (if w.shared.active = some id then none else w.shared.active) = some id at hactive
        rw [if_pos hbefore] at hactive
        cases hactive
      · exact .inr ⟨u, m', (Discipline.stage_record_of_ne hut).trans hu, hresets⟩
  · obtain rfl : m = .submitted (some id) := hallows
    obtain hover | hlive := (h.submitted t id hstage).live
    · cases hcompleted.symm.trans hover
    · obtain hstays | hop | hop := live_stays hf hact hlive
      · exact .inl hstays
      · cases hop
      · cases hop

theorem Flags.dead_of_answers {u : ℕ} {m' : Stage}
    (hu : stageOf (w.record t (.answers op answer) p shared) u = some m')
    (hresets : m'.resets = some id) : ¬Live shared id := by
  intro hlive
  obtain ⟨rfl, hnext⟩ | ⟨-, hold⟩ := Discipline.came_of_answers hstage hu
  · have hgoes : Goes m op answer m' := hnext ▸ goes_of_allows hallows answer
    cases hgoes with
    | cancels id' requested | cancelsOwn id' requested =>
      obtain rfl := Option.some.inj hresets
      exact not_live_of_cancel hf.lane (h.known u _ id' hstage rfl) hact hlive
    | _ => cases hresets
  · have hdead := h.dead u m' id hold hresets
    by_cases hsubmit : op = .submitCommandWork
    · subst hsubmit
      obtain hbefore | rfl := live_submit hact hlive
      · exact hdead hbefore
      · have hknown := h.known u m' id hold (cancels_of_resets hresets)
        have hlt := hf.lane.ok.accepted_lt hknown
        have hid := (submit_of_act hact).1
        exact absurd hlt (Nat.not_lt_of_le (Nat.le_of_eq hid.symm))
    · exact hdead (live_back hf.lane hact hsubmit hlive)

theorem Flags.of_answers : Flags (w.record t (.answers op answer) p shared) where
  opens _ _ hu hopen := h.opens_of_answers hstage hallows hact hu hopen
  closed hsubmitting := closed_of_act hact h.closed hsubmitting
  known _ _ _ hu hcancels := h.known_of_answers hstage hallows hact hu hcancels
  knownActive _ hactive := h.knownActive_of_answers hstage hallows hact hactive
  submitted _ _ hu := h.submitted_of_answers hf hstage hallows hact hu
  covered _ hlive := h.covered_of_answers hf hstage hallows hact hlive
  recorded _ hactive := h.recorded_of_answers hf hstage hallows hact hactive
  dead _ _ _ hu hresets := h.dead_of_answers hf hstage hallows hact hu hresets

end Steps

end Glider.Ubash

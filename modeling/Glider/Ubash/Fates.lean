import Glider.Ubash.Jobs

namespace Glider.Ubash

open Glider.Lib Glider.Lib.Threads
open Work (Lane Active Task acceptedTasks)

-- The job is asked to stop.
def stopsIn (id : ℕ) : Happening → Bool
  | (_, .answers (.cancelCommandWork id') true) => id' == id
  | _ => false

def completesIn (id : ℕ) : Happening → Bool
  | (_, .answers (.completed id') _) => id' == id
  | _ => false

def Stopped (history : List Happening) (id : ℕ) : Prop := history.any (stopsIn id) = true

def Completed (history : List Happening) (id : ℕ) : Prop := history.any (completesIn id) = true

instance (history : List Happening) (id : ℕ) : Decidable (Stopped history id) :=
  inferInstanceAs (Decidable (_ = _))

instance (history : List Happening) (id : ℕ) : Decidable (Completed history id) :=
  inferInstanceAs (Decidable (_ = _))

abbrev stageOf (w : World) (t : ℕ) : Option Stage := discipline.stage w t

-- The job that a worker has in hand.
def Stage.holder : Stage → Option ℕ
  | .taken id | .passed id | .running id | .ended id | .leaving id => some id
  | _ => none

structure Entry (w : World) (a : Active) : Prop where
  stop : a.stop = true → Stopped w.history a.task.id
  finished : a.phase = .finished → a.stop = true ∨ w.shared.completed a.task.id = true

structure Held (w : World) (t id : ℕ) : Prop where
  active : id ∈ (w.shared.lane.active.map Active.task).map Task.id
  only : ∀ u m, stageOf w u = some m → m.holder = some id → u = t

-- A job is in the lane until it is asked to stop or over.
structure Fates (w : World) : Prop where
  lane : LaneOk w.shared
  entries : ∀ a ∈ w.shared.lane.active, Entry w a
  held : ∀ t m id, stageOf w t = some m → m.holder = some id → Held w t id
  ended : ∀ t id, stageOf w t = some (.ended id) → w.shared.completed id = true
  fates : ∀ task ∈ acceptedTasks w.shared.lane.history, task ∈ w.shared.lane.tasks ∨
    w.shared.completed task.id = true ∨ Stopped w.history task.id
  completed : ∀ id, w.shared.completed id = true →
    Completed w.history id ∧ id ∈ (acceptedTasks w.shared.lane.history).map Task.id

section Acts

variable {s s' : State} {op : Op} {accepts : Bool} {answer : op.Answer} {m : Stage}

theorem completed_of_act (hact : act s op accepts = some (s', some answer)) {id : ℕ} :
    s'.completed id = true ↔ s.completed id = true ∨ op = .completed id := by
  cases op with
  | completed id' =>
    cases hact
    by_cases hid : id = id'
    · subst hid
      exact iff_of_true (Function.update_self ..) (.inr rfl)
    · have hsame : (s.complete id').completed id = s.completed id := Function.update_of_ne hid ..
      rw [hsame]
      exact (or_iff_left fun heq => hid (Op.completed.inj heq).symm).symm
  | submitCommandWork =>
    cases accepts <;> cases hact <;> exact (or_iff_left fun heq => by cases heq).symm
  | begin =>
    cases hact
    unfold State.begin
    split <;> exact (or_iff_left fun heq => by cases heq).symm
  | take =>
    simp only [act] at hact
    split at hact <;> cases hact
    exact (or_iff_left fun heq => by cases heq).symm
  | checkDeadline id' | checkStop id' | complete id' | erase id' =>
    obtain ⟨lane, -, heq⟩ := Option.map_eq_some_iff.mp hact
    cases heq
    exact (or_iff_left fun heq => by cases heq).symm
  | _ =>
    cases hact
    exact (or_iff_left fun heq => by cases heq).symm

theorem act_ne_none (hact : act s op accepts = some (s', none)) : False := by
  cases op with
  | submitCommandWork => cases accepts <;> cases hact
  | take =>
    simp only [act] at hact
    split at hact <;> cases hact
  | checkDeadline id | checkStop id | complete id | erase id =>
    obtain ⟨lane, -, heq⟩ := Option.map_eq_some_iff.mp hact
    cases heq
  | _ => cases hact

theorem accepted_of_changes (hc : Changes op s s') {task : Task}
    (h : task ∈ acceptedTasks s'.lane.history) :
    task ∈ acceptedTasks s.lane.history ∨ task ∈ s'.lane.tasks := by
  cases hc with
  | still hlane hid hnow => exact .inl (hlane ▸ h)
  | steps i hi hstep hid hnow =>
    obtain hold | ⟨new, owner, due, deadline, rfl, -⟩ := (Lane.step_grows hstep).accepted
    · exact .inl (hold ▸ h)
    · cases not_submits_of_laneStep hi
  | submits hop hs =>
    subst hs
    unfold State.submit Lane.submit at h ⊢
    dsimp only at h ⊢
    split at h
    next hfull =>
      rw [if_pos hfull]
      exact .inl h
    next hroom =>
      rw [if_neg hroom]
      rw [Work.Lane.acceptedTasks_accepted] at h
      obtain rfl | hold := List.mem_cons.mp h
      · exact .inr (Lane.mem_tasks_of_queue (Lane.mem_emplace.mpr (.inl rfl)))
      · exact .inl hold

-- The worker is free when it takes a job.
theorem take_of_act {id : ℕ} (hok : LaneOk s) (hact : act s .take accepts = some (s', some id)) :
    s.lane.active = [] ∧ id ∈ (s'.lane.active.map Active.task).map Task.id := by
  simp only [act] at hact
  split at hact
  · next task rest lane hqueue htake =>
    cases hact
    unfold Lane.take at htake
    rw [hqueue] at htake
    obtain ⟨⟨-, hfree, -⟩, rfl⟩ := Transition.enabled_eq_some htake
    rw [hok.workers] at hfree
    refine ⟨List.length_eq_zero_iff.mp (by omega), ?_⟩
    rw [List.map_append, List.map_append]
    exact List.mem_append_right _ List.mem_cons_self
  · cases hact

theorem holder_of_goes {m' : Stage} (h : Goes m op answer m') {id : ℕ}
    (hholder : m'.holder = some id) :
    (m.holder = some id ∧ op ≠ .erase id) ∨ (op = .take ∧ m' = .taken id) := by
  cases h with
  | takes id' =>
    obtain rfl := Option.some.inj hholder
    exact .inr ⟨rfl, rfl⟩
  | checksDeadline id' | runs id' | skips id' | ends id' | completes id' =>
    exact .inl ⟨hholder, nofun⟩
  | _ => cases hholder

end Acts

section Steps

variable {w w' : World} {t : ℕ} {op : Op} {accepts : Bool} {answer : op.Answer} {m : Stage}
  {shared : State} {p : Option (Program Op Op.Answer Unit Unit)}

theorem Stopped.cons {history : List Happening} {id : ℕ} (h : Stopped history id)
    (event : Happening) : Stopped (event :: history) id := by
  rw [Stopped, List.any_cons, h, Bool.or_true]

theorem Completed.cons {history : List Happening} {id : ℕ} (h : Completed history id)
    (event : Happening) : Completed (event :: history) id := by
  rw [Completed, List.any_cons, h, Bool.or_true]

-- A cancellation that succeeds is in the history.
theorem stopped_of_cancel {id : ℕ} (hop : op = .cancelCommandWork id)
    (hact : act w.shared op accepts = some (shared, some answer))
    (hresult : (w.shared.lane.cancel kUbashOwner id).1 = true) :
    Stopped (w.record t (.answers op answer) p shared).history id := by
  subst hop
  cases hact
  change ((t, Event.answers (Op.cancelCommandWork id) _) :: w.history).any (stopsIn id) = true
  rw [List.any_cons, hresult]
  simp [stopsIn]

theorem Held.of_answers (hf : Fates w) {u id : ℕ} (h : Held w u id)
    (hstage : stageOf w t = some m) (hallows : Allows m op)
    (hact : act w.shared op accepts = some (shared, some answer)) (herase : op ≠ .erase id) :
    Held (w.record t (.answers op answer) p shared) u id where
  active := by
    obtain ⟨task, htask, rfl⟩ := List.mem_map.mp h.active
    obtain hkept | hop := active_of_changes (changes_of_act hact) htask
    · exact List.mem_map_of_mem hkept
    · exact absurd hop herase
  only v m' hv hholder := by
    obtain ⟨rfl, rfl⟩ | ⟨-, hold⟩ := Discipline.came_of_answers hstage hv
    · obtain ⟨hbefore, -⟩ | ⟨rfl, -⟩ := holder_of_goes (goes_of_allows hallows answer) hholder
      · exact h.only v m hstage hbefore
      · have hactive := h.active
        rw [(take_of_act hf.lane hact).1] at hactive
        cases hactive
    · exact h.only v m' hold hholder

theorem Fates.of_answers (h : Fates w) (hstage : stageOf w t = some m) (hallows : Allows m op)
    (hact : act w.shared op accepts = some (shared, some answer)) :
    Fates (w.record t (.answers op answer) p shared) where
  lane := h.lane.of_changes (changes_of_act hact)
  entries a' ha' := by
    obtain ⟨hstop, hphase⟩ | ⟨a, ha, hcomes⟩ := entry_of_act h.lane hact ha'
    · exact ⟨fun hs => absurd (hstop.symm.trans hs) Bool.false_ne_true, fun hp => absurd hp hphase⟩
    · obtain ⟨hstop, hfinished⟩ := h.entries a ha
      rw [hcomes.task] at hstop hfinished
      refine ⟨fun hs => ?_, fun hp => ?_⟩
      · obtain hbefore | ⟨hop, hresult⟩ := hcomes.stop hs
        · exact (hstop hbefore).cons _
        · exact stopped_of_cancel hop hact hresult
      · obtain hbefore | hs | rfl := hcomes.finished hp
        · obtain hs | hcompleted := hfinished hbefore
          · exact .inl (hcomes.keeps hs)
          · exact .inr ((completed_of_act hact).mpr (.inl hcompleted))
        · exact .inl hs
        · obtain rfl : m = .ended a'.task.id := hallows
          exact .inr ((completed_of_act hact).mpr (.inl (h.ended t _ hstage)))
  held u m' id hu hholder := by
    obtain ⟨rfl, rfl⟩ | ⟨hne, hold⟩ := Discipline.came_of_answers hstage hu
    · change (next m op answer).holder = some id at hholder
      obtain ⟨hbefore, herase⟩ | ⟨rfl, -⟩ :=
        holder_of_goes (goes_of_allows hallows answer) hholder
      · exact (h.held u m id hstage hbefore).of_answers h hstage hallows hact herase
      · have hnext : next m .take answer = .taken answer := by
          obtain rfl : m = .idle := hallows
          rfl
        rw [hnext] at hholder
        obtain rfl := Option.some.inj hholder
        obtain ⟨hfree, hactive⟩ := take_of_act h.lane hact
        refine ⟨hactive, fun v m' hv hholder' => ?_⟩
        obtain ⟨rfl, -⟩ | ⟨-, hold⟩ := Discipline.came_of_answers hstage hv
        · rfl
        · have hactive := (h.held v m' _ hold hholder').active
          rw [hfree] at hactive
          cases hactive
    · have hheld := h.held u m' id hold hholder
      refine hheld.of_answers h hstage hallows hact ?_
      rintro rfl
      obtain rfl : m = .leaving id := hallows
      exact hne (hheld.only t _ hstage rfl).symm
  ended u id hu := by
    refine (completed_of_act hact).mpr ?_
    obtain ⟨rfl, hnext⟩ | ⟨-, hold⟩ := Discipline.came_of_answers hstage hu
    · have hgoes : Goes m op answer (.ended id) := hnext ▸ goes_of_allows hallows answer
      cases hgoes
      exact .inr rfl
    · exact .inl (h.ended u id hold)
  fates task htask := by
    have hchanges := changes_of_act hact
    obtain hknown | hnew := accepted_of_changes hchanges htask
    · obtain htasks | hcompleted | hstopped := h.fates task hknown
      · obtain hkept | hop | rfl := tasks_of_changes hchanges htasks
        · exact .inl hkept
        · have hresult := Lane.cancel_eq_true h.lane.ok.inv htasks
          rw [(h.lane.plain task hknown).1] at hresult
          exact .inr (.inr (stopped_of_cancel hop hact hresult))
        · -- The worker erases what is over.
          obtain ⟨lane, hstep, -⟩ := Option.map_eq_some_iff.mp hact
          simp only [Lane.step] at hstep
          split at hstep
          next hfound =>
            obtain ⟨hmem, hid⟩ := Lane.lookup_eq_some hfound
            have hentry := h.entries _ hmem
            obtain hs | hcompleted := hentry.finished rfl
            · exact .inr (.inr ((hid ▸ hentry.stop hs).cons _))
            · exact .inr (.inl ((completed_of_act hact).mpr (.inl (hid ▸ hcompleted))))
          · cases hstep
      · exact .inr (.inl ((completed_of_act hact).mpr (.inl hcompleted)))
      · exact .inr (.inr (hstopped.cons _))
    · exact .inl hnew
  completed id hid := by
    have hmoved := (changes_of_act hact).moved
    obtain hbefore | rfl := (completed_of_act hact).mp hid
    · obtain ⟨hcompleted, hknown⟩ := h.completed id hbefore
      exact ⟨hcompleted.cons _, hmoved.accepted_ids hknown⟩
    · obtain rfl : m = .running id := hallows
      refine ⟨?_, hmoved.accepted_ids ?_⟩
      · change ((t, Event.answers (Op.completed id) answer) :: w.history).any (completesIn id) = true
        rw [List.any_cons]
        simp [completesIn]
      · have hactive := (h.held t _ id hstage rfl).active
        refine h.lane.ok.inv.accepted_of_tasks (List.map_subset _ ?_ hactive)
        exact List.subset_append_right ..

end Steps

end Glider.Ubash

import Glider.Work.Lane

namespace Glider.Work

open Glider.Lib

namespace Lane

variable {now : ℕ} {l m : Lane} {i : Step}

-- A submission is the only step that puts a task into the queue.
def Step.submits : Step → Bool
  | .submit _ _ _ _ => true
  | _ => false

theorem step_queue_sublist (hi : i.submits = false) (hm : step now l i = some m) :
    m.queue.Sublist l.queue := by
  cases i with
  | submit id owner due deadline => cases hi
  | cancel owner id =>
    obtain rfl := Option.some_inj.mp hm
    unfold Lane.cancel
    split
    · exact List.eraseP_sublist
    · split <;> exact List.Sublist.refl _
  | cancelOwner owner =>
    obtain rfl := Option.some_inj.mp hm
    exact List.filter_sublist
  | take =>
    simp only [Lane.step, Lane.take] at hm
    split at hm
    · cases hm
    next task rest hq =>
      obtain ⟨-, rfl⟩ := Transition.enabled_eq_some hm
      rw [hq]
      exact List.sublist_cons_self ..
  | shutDown =>
    obtain rfl := Option.some_inj.mp hm
    exact List.nil_sublist _
  | monitor =>
    obtain rfl := Option.some_inj.mp hm
    exact List.Sublist.refl _
  | _ =>
    simp only [Lane.step] at hm
    split at hm <;> cases hm <;> exact List.Sublist.refl _

theorem step_history_suffix (hm : step now l i = some m) : l.history <:+ m.history := by
  cases i with
  | submit id owner due deadline =>
    obtain rfl := Option.some_inj.mp hm
    unfold Lane.submit
    dsimp only
    split <;> exact List.suffix_cons ..
  | cancel owner id =>
    obtain rfl := Option.some_inj.mp hm
    unfold Lane.cancel
    split
    · exact List.suffix_cons ..
    · split <;> exact List.suffix_cons ..
  | cancelOwner owner =>
    obtain rfl := Option.some_inj.mp hm
    exact List.suffix_cons ..
  | take =>
    simp only [Lane.step, Lane.take] at hm
    split at hm
    · cases hm
    · obtain ⟨-, rfl⟩ := Transition.enabled_eq_some hm
      exact List.suffix_cons ..
  | shutDown | monitor =>
    obtain rfl := Option.some_inj.mp hm
    exact List.suffix_refl _
  | checkStop id =>
    simp only [Lane.step] at hm
    split at hm
    · cases hm
      exact List.suffix_refl _
    · cases hm
      exact List.suffix_cons ..
    · cases hm
  | _ =>
    simp only [Lane.step] at hm
    split at hm
    · cases hm
      exact List.suffix_refl _
    · cases hm

theorem accepted_of_step {task : Task} (hm : step now l i = some m)
    (h : task ∈ acceptedTasks l.history) : task ∈ acceptedTasks m.history := by
  obtain ⟨newer, hnewer⟩ := step_history_suffix hm
  rw [← hnewer, acceptedTasks, List.filterMap_append]
  exact List.mem_append_right _ h

theorem cancelledIds_of_step {id : ℕ} (hm : step now l i = some m)
    (h : id ∈ cancelledIds l.history) : id ∈ cancelledIds m.history := by
  obtain ⟨newer, hnewer⟩ := step_history_suffix hm
  rw [← hnewer, cancelledIds, List.flatMap_append]
  exact List.mem_append_right _ h

theorem nodup_accepted {history : List Event} (h : Explained Lawful history) :
    ((acceptedTasks history).map Task.id).Nodup := by
  induction history with
  | nil => exact List.nodup_nil
  | cons event older ih =>
    obtain ⟨hlawful, holder⟩ := h
    cases event with
    | accepted task =>
      rw [acceptedTasks_accepted, List.map_cons]
      exact List.nodup_cons.mpr ⟨hlawful.2, ih holder⟩
    | _ => exact ih holder

theorem Inv.accepted_inj (h : Inv now l) {a b : Task} (ha : a ∈ acceptedTasks l.history)
    (hb : b ∈ acceptedTasks l.history) (hid : a.id = b.id) : a = b :=
  List.inj_on_of_nodup_map (nodup_accepted h.explained) ha hb hid

theorem Inv.accepted_of_tasks (h : Inv now l) {id : ℕ} (hid : id ∈ l.tasks.map Task.id) :
    id ∈ (acceptedTasks l.history).map Task.id := by
  obtain ⟨task, htask, rfl⟩ := List.mem_map.mp hid
  exact List.mem_map_of_mem (h.known task htask)

theorem queued_subset : l.queue.map Task.id ⊆ l.tasks.map Task.id :=
  List.map_subset _ (List.subset_append_left ..)

-- No worker starts the task any more: it was cancelled, or it has left the lane.
def Doomed (l : Lane) (id : ℕ) : Prop :=
  id ∈ cancelledIds l.history ∨
    id ∈ (acceptedTasks l.history).map Task.id ∧ id ∉ l.tasks.map Task.id

theorem Doomed.accepted {id : ℕ} (h : l.Doomed id) (hl : Inv now l) :
    id ∈ (acceptedTasks l.history).map Task.id := by
  obtain hcancelled | ⟨haccepted, -⟩ := h
  · exact hl.past id (.inl hcancelled)
  · exact haccepted

theorem Doomed.stop {id : ℕ} (h : l.Doomed id) (hl : Inv now l) {a : Active} (ha : a ∈ l.active)
    (hid : a.task.id = id) : a.stop = true := by
  obtain hcancelled | ⟨-, hgone⟩ := h
  · exact (hl.active a ha).cancelled (hid ▸ hcancelled)
  · exact absurd (hid ▸ List.mem_map_of_mem (mem_tasks_of_active ha)) hgone

theorem Doomed.of_step {id : ℕ} (h : l.Doomed id) (hl : Inv now l) (hf : l.Fresh i)
    (hm : step now l i = some m) : m.Doomed id := by
  have hknown := h.accepted hl
  obtain hcancelled | ⟨haccepted, hgone⟩ := h
  · exact .inl (cancelledIds_of_step hm hcancelled)
  · refine .inr ⟨?_, fun htasks => ?_⟩
    · obtain ⟨task, htask, rfl⟩ := List.mem_map.mp haccepted
      exact List.mem_map_of_mem (accepted_of_step hm htask)
    · obtain ⟨task, htask, rfl⟩ := List.mem_map.mp htasks
      obtain hold | ⟨owner, due, deadline, rfl⟩ := (step_grows hm).mem_tasks htask
      · exact hgone (List.mem_map_of_mem hold)
      · exact hf hknown

theorem cancel_history (l : Lane) (owner : String) (id : ℕ) :
    (l.cancel owner id).2.history = .cancel owner id (l.cancel owner id).1 :: l.history := by
  unfold Lane.cancel
  split
  · rfl
  · split <;> rfl

theorem cancel_eq_true (h : Inv now l) {task : Task} (ht : task ∈ l.tasks) :
    (l.cancel task.owner task.id).1 = true := by
  unfold Lane.cancel
  split
  · rfl
  next hqueue =>
    have hactive : ∃ a ∈ l.active, a.task = task := by
      obtain ht | ht := List.mem_append.mp ht
      · exact absurd (List.any_eq_true.mpr ⟨task, ht, by simp⟩) hqueue
      · exact List.mem_map.mp ht
    obtain ⟨a, ha, rfl⟩ := hactive
    have hfound : l.active.find? (fun b => b.task.id == a.task.id) = some a := by
      have hsome : (l.active.find? fun b => b.task.id == a.task.id).isSome :=
        List.find?_isSome.mpr ⟨a, ha, beq_self_eq_true a.task.id⟩
      obtain ⟨b, hb⟩ := Option.isSome_iff_exists.mp hsome
      obtain ⟨hmem, hid⟩ := lookup_eq_some (l := l) hb
      rw [hb, h.active_inj hmem ha hid]
    rw [hfound, if_pos]
    exact beq_self_eq_true _

-- Whoever cancels a task under its owner's name dooms it.
theorem doomed_cancel (h : Inv now l) {task : Task} (ht : task ∈ acceptedTasks l.history) :
    (l.cancel task.owner task.id).2.Doomed task.id := by
  by_cases hgone : task.id ∈ l.tasks.map Task.id
  · obtain ⟨other, hother, hid⟩ := List.mem_map.mp hgone
    obtain rfl := h.accepted_inj (h.known other hother) ht hid
    refine .inl ?_
    rw [cancel_history, cancel_eq_true h hother]
    exact mem_cancelledIds_cancel.mpr (.inl rfl)
  · have hstep : step now l (.cancel task.owner task.id) = some (l.cancel task.owner task.id).2 := rfl
    have hbefore : l.Doomed task.id := .inr ⟨List.mem_map_of_mem ht, hgone⟩
    exact hbefore.of_step h (i := .cancel task.owner task.id) trivial hstep

-- The task is in the lane, and nobody has asked it to stop.
def Unstopped (l : Lane) (id : ℕ) : Prop :=
  id ∈ l.queue.map Task.id ∨ (id, false) ∈ l.active.map fun a => (a.task.id, a.stop)

theorem Unstopped.mem_tasks {id : ℕ} (h : l.Unstopped id) : id ∈ l.tasks.map Task.id := by
  rw [tasks, List.map_append, List.map_map]
  obtain hqueue | hactive := h
  · exact List.mem_append_left _ hqueue
  · obtain ⟨a, ha, heq⟩ := List.mem_map.mp hactive
    obtain ⟨rfl, -⟩ := Prod.mk.inj heq
    exact List.mem_append_right _ (List.mem_map_of_mem (f := Task.id ∘ Active.task) ha)

theorem Doomed.not_unstopped {id : ℕ} (h : l.Doomed id) (hl : Inv now l) : ¬l.Unstopped id := by
  rintro (hqueue | hactive)
  · obtain hcancelled | ⟨-, hgone⟩ := h
    · obtain ⟨task, htask, rfl⟩ := List.mem_map.mp hqueue
      exact (hl.waiting task htask).1 hcancelled
    · exact hgone (queued_subset hqueue)
  · obtain ⟨a, ha, heq⟩ := List.mem_map.mp hactive
    obtain ⟨hid, hstop⟩ := Prod.mk.inj heq
    cases (h.stop hl ha hid).symm.trans hstop

-- An entry moves on, and the stop request stays as it is.
theorem map_stop_onActive {id : ℕ} {f : Active → Active}
    (hf : ∀ a ∈ l.active, a.task.id = id → ((f a).task.id, (f a).stop) = (a.task.id, a.stop)) :
    ((l.onActive id f).map fun a => (a.task.id, a.stop)) =
      l.active.map fun a => (a.task.id, a.stop) := by
  rw [onActive, List.map_map]
  refine List.map_congr_left fun a ha => ?_
  by_cases hid : a.task.id = id
  · simp only [Function.comp_apply, if_pos hid]
    exact hf a ha hid
  · simp only [Function.comp_apply, if_neg hid]

theorem unstopped_submit (id : ℕ) (owner : String) (due : ℕ) (deadline : Option ℕ) (other : ℕ) :
    (l.submit id owner due deadline).2.Unstopped other ↔
      l.Unstopped other ∨ (l.submit id owner due deadline).1 = true ∧ other = id := by
  unfold Lane.submit
  dsimp only
  split
  · simp only [Unstopped, Bool.false_eq_true, false_and, or_false]
  · have hperm := (emplace_perm
      (Task.mk id owner due deadline (acceptedTasks l.history).length) l.queue).map Task.id
    simp only [Unstopped, hperm.mem_iff, List.map_cons, List.mem_cons, true_and]
    exact ⟨by rintro ((h | h) | h) <;> simp [h], by rintro ((h | h) | h) <;> simp [h]⟩

theorem unstopped_take (h : l.take now = some m) (id : ℕ) : m.Unstopped id ↔ l.Unstopped id := by
  unfold Lane.take at h
  split at h
  · cases h
  · next task rest hqueue =>
    obtain ⟨-, rfl⟩ := Transition.enabled_eq_some h
    simp only [Unstopped, hqueue, List.map_cons, List.mem_cons, List.map_append, List.mem_append,
      List.map_nil, List.not_mem_nil, or_false, Prod.mk.injEq, and_true]
    exact ⟨by rintro (h | h | h) <;> simp [h], by rintro ((h | h) | h) <;> simp [h]⟩

theorem unstopped_cancel_of_ne {owner : String} {id other : ℕ} (h : other ≠ id) :
    (l.cancel owner id).2.Unstopped other ↔ l.Unstopped other := by
  unfold Lane.cancel
  split
  · refine or_congr ?_ Iff.rfl
    simp only [List.mem_map]
    refine exists_congr fun task => and_congr_left fun hid => ?_
    refine List.mem_eraseP_of_neg ?_
    simp [hid, h]
  · split
    · refine or_congr Iff.rfl ?_
      simp only [onActive, List.map_map, List.mem_map]
      refine exists_congr fun a => and_congr_right fun _ => ?_
      by_cases hid : a.task.id = id
      · simp [hid, requestStop, h.symm]
      · simp [hid]
    · exact Iff.rfl

theorem unstopped_onActive {id : ℕ} {f : Active → Active} {history : List Event}
    (hf : ∀ a ∈ l.active, a.task.id = id → ((f a).task.id, (f a).stop) = (a.task.id, a.stop))
    (other : ℕ) : { l with active := l.onActive id f, history := history }.Unstopped other ↔
      l.Unstopped other := by
  unfold Unstopped
  rw [map_stop_onActive hf]

theorem unstopped_pass (id : ℕ) (phase : Phase) (history : List Event) (other : ℕ) :
    { l with active := l.onActive id fun a => { a with phase := phase },
             history := history }.Unstopped other ↔ l.Unstopped other :=
  unstopped_onActive (f := fun a => { a with phase := phase }) (fun _ _ _ => rfl) other

theorem unstopped_erase_of_ne {id other : ℕ} (h : other ≠ id) :
    { l with active := l.active.filter fun a => a.task.id != id }.Unstopped other ↔
      l.Unstopped other := by
  refine or_congr Iff.rfl ?_
  simp only [List.mem_map, List.mem_filter]
  refine exists_congr fun a => ?_
  constructor
  · rintro ⟨⟨ha, -⟩, heq⟩
    exact ⟨ha, heq⟩
  · rintro ⟨ha, heq⟩
    obtain ⟨rfl, -⟩ := Prod.mk.inj heq
    exact ⟨⟨ha, bne_iff_ne.mpr h⟩, heq⟩

theorem unstopped_of_cancel {owner : String} {id other : ℕ}
    (h : (l.cancel owner id).2.Unstopped other) : l.Unstopped other := by
  by_cases hid : other = id
  · subst hid
    unfold Lane.cancel at h
    split at h
    · exact h.imp (fun hqueue => (List.eraseP_sublist.map Task.id).subset hqueue) fun hactive => hactive
    · split at h
      · refine h.imp_right fun hactive => ?_
        obtain ⟨b, hb, heq⟩ := List.mem_map.mp hactive
        obtain ⟨a, ha, rfl⟩ := List.mem_map.mp hb
        by_cases haid : a.task.id = other
        · rw [if_pos haid] at heq
          cases (Prod.mk.inj heq).2
        · rw [if_neg haid] at heq
          exact absurd (Prod.mk.inj heq).1 haid
      · exact h
  · exact (unstopped_cancel_of_ne hid).mp h

-- A task is active until its worker is done with it.
theorem active_of_step (hm : step now l i = some m) {task : Task}
    (h : task ∈ l.active.map Active.task) :
    task ∈ m.active.map Active.task ∨ i = .erase task.id := by
  have hkeep {f : Active → Active} (id : ℕ) (hf : ∀ a, (f a).task = a.task) :
      task ∈ (l.onActive id f).map Active.task := by
    rwa [map_task_onActive hf]
  cases i with
  | submit id owner due deadline =>
    obtain rfl := Option.some_inj.mp hm
    unfold Lane.submit
    dsimp only
    split <;> exact .inl h
  | cancel owner id =>
    obtain rfl := Option.some_inj.mp hm
    unfold Lane.cancel
    split
    · exact .inl h
    · split
      · exact .inl (hkeep id fun _ => rfl)
      · exact .inl h
  | cancelOwner owner =>
    obtain rfl := Option.some_inj.mp hm
    refine .inl ?_
    unfold Lane.cancelOwner
    dsimp only
    rwa [map_task_map]
    intro a
    split <;> rfl
  | take =>
    simp only [Lane.step, Lane.take] at hm
    split at hm
    · cases hm
    next other rest hqueue =>
      obtain ⟨-, rfl⟩ := Transition.enabled_eq_some hm
      rw [List.map_append]
      exact .inl (List.mem_append_left _ h)
  | checkDeadline id =>
    simp only [Lane.step] at hm
    split at hm
    · cases hm
      refine .inl (hkeep id fun a => ?_)
      unfold Lane.checkDeadline
      split <;> rfl
    · cases hm
  | checkStop id =>
    simp only [Lane.step] at hm
    split at hm
    · cases hm
      exact .inl (hkeep id fun _ => rfl)
    · cases hm
      exact .inl (hkeep id fun _ => rfl)
    · cases hm
  | complete id =>
    simp only [Lane.step] at hm
    split at hm
    · cases hm
      exact .inl (hkeep id fun _ => rfl)
    · cases hm
  | erase id =>
    simp only [Lane.step] at hm
    split at hm
    · cases hm
      obtain ⟨a, ha, rfl⟩ := List.mem_map.mp h
      by_cases hid : a.task.id = id
      · exact .inr (congrArg Step.erase hid.symm)
      · exact .inl (List.mem_map_of_mem (List.mem_filter.mpr ⟨ha, bne_iff_ne.mpr hid⟩))
    · cases hm
  | monitor =>
    obtain rfl := Option.some_inj.mp hm
    refine .inl ?_
    dsimp only
    rwa [map_task_map]
    intro a
    unfold Lane.monitor
    split <;> rfl
  | shutDown =>
    obtain rfl := Option.some_inj.mp hm
    refine .inl ?_
    dsimp only
    rwa [map_task_map]
    exact fun _ => rfl

-- The steps that take a task out of the lane.
def Step.Drops (id : ℕ) : Step → Prop
  | .cancel _ id' | .erase id' => id' = id
  | .cancelOwner _ | .shutDown => True
  | _ => False

theorem mem_tasks_of_step (hm : step now l i = some m) {task : Task} (h : task ∈ l.tasks) :
    task ∈ m.tasks ∨ i.Drops task.id := by
  obtain hqueue | hactive := List.mem_append.mp h
  · cases i with
    | submit id owner due deadline =>
      obtain rfl := Option.some_inj.mp hm
      unfold Lane.submit
      dsimp only
      split
      · exact .inl h
      · exact .inl (mem_tasks_of_queue (mem_emplace.mpr (.inr hqueue)))
    | cancel owner id =>
      obtain rfl := Option.some_inj.mp hm
      by_cases hid : task.id = id
      · exact .inr hid.symm
      · refine .inl (mem_tasks_of_queue ?_)
        unfold Lane.cancel
        split
        · refine (List.mem_eraseP_of_neg ?_).mpr hqueue
          simp [hid]
        · split <;> exact hqueue
    | cancelOwner owner | shutDown => exact .inr trivial
    | take =>
      simp only [Lane.step, Lane.take] at hm
      split at hm
      · cases hm
      next first rest hq =>
        obtain ⟨-, rfl⟩ := Transition.enabled_eq_some hm
        rw [hq] at hqueue
        obtain rfl | hrest := List.mem_cons.mp hqueue
        · refine .inl (List.mem_append_right _ ?_)
          rw [List.map_append]
          exact List.mem_append_right _ List.mem_cons_self
        · exact .inl (mem_tasks_of_queue hrest)
    | checkStop id =>
      simp only [Lane.step] at hm
      split at hm
      · cases hm
        exact .inl (mem_tasks_of_queue hqueue)
      · cases hm
        exact .inl (mem_tasks_of_queue hqueue)
      · cases hm
    | monitor =>
      obtain rfl := Option.some_inj.mp hm
      exact .inl (mem_tasks_of_queue hqueue)
    | _ =>
      simp only [Lane.step] at hm
      split at hm
      · cases hm
        exact .inl (mem_tasks_of_queue hqueue)
      · cases hm
  · obtain hactive | rfl := active_of_step hm hactive
    · exact .inl (List.mem_append_right _ hactive)
    · exact .inr rfl

theorem fresh_of_not_submits (hi : i.submits = false) : l.Fresh i := by
  cases i with
  | submit id owner due deadline => cases hi
  | _ => exact trivial

end Lane

-- A lane with the clock and the counter that gives its tasks their ids.
structure Clocked where
  now : ℕ
  nextId : ℕ
  lane : Lane

namespace Clocked

inductive Moved (s s' : Clocked) : Prop where
  | still (hlane : s'.lane = s.lane) (hid : s.nextId ≤ s'.nextId) (hnow : s.now ≤ s'.now)
  | steps (i : Lane.Step) (hi : i.submits = false) (hstep : Lane.step s.now s.lane i = some s'.lane)
      (hid : s'.nextId = s.nextId) (hnow : s'.now = s.now)
  | submits (owner : String) (due : ℕ) (deadline : Option ℕ)
      (hlane : s'.lane = (s.lane.submit s.nextId owner due deadline).2)
      (hid : s'.nextId = s.nextId + 1) (hnow : s'.now = s.now)

structure Ok (s : Clocked) : Prop where
  inv : s.lane.Inv s.now
  below : ∀ task ∈ acceptedTasks s.lane.history, task.id < s.nextId

variable {s s' : Clocked}

theorem Ok.fresh (h : Ok s) (owner : String) (due : ℕ) (deadline : Option ℕ) :
    s.lane.Fresh (.submit s.nextId owner due deadline) := by
  intro hmem
  obtain ⟨task, htask, hid⟩ := List.mem_map.mp hmem
  exact absurd hid (Nat.ne_of_lt (h.below task htask))

theorem Ok.accepted_lt (h : Ok s) {id : ℕ} (hid : id ∈ (acceptedTasks s.lane.history).map Task.id) :
    id < s.nextId := by
  obtain ⟨task, htask, rfl⟩ := List.mem_map.mp hid
  exact h.below task htask

theorem Ok.of_moved (h : Ok s) (hm : Moved s s') : Ok s' := by
  cases hm with
  | still hlane hid hnow =>
    refine ⟨hlane ▸ h.inv.mono hnow, fun task htask => ?_⟩
    exact Nat.lt_of_lt_of_le (h.below task (hlane ▸ htask)) hid
  | steps i hi hstep hid hnow =>
    refine ⟨hnow ▸ h.inv.step i (Lane.fresh_of_not_submits hi) hstep, fun task htask => ?_⟩
    rw [hid]
    obtain hold | ⟨new, owner, due, deadline, rfl, -⟩ := (Lane.step_grows hstep).accepted
    · exact h.below task (hold ▸ htask)
    · cases hi
  | submits owner due deadline hlane hid hnow =>
    have hstep : Lane.step s.now s.lane (.submit s.nextId owner due deadline) = some s'.lane :=
      congrArg some hlane.symm
    refine ⟨hnow ▸ h.inv.step _ (h.fresh owner due deadline) hstep, fun task htask => ?_⟩
    rw [hid]
    obtain hold | ⟨new, owner', due', deadline', hi, hnew⟩ := (Lane.step_grows hstep).accepted
    · exact Nat.lt_succ_of_lt (h.below task (hold ▸ htask))
    · rw [hnew] at htask
      obtain ⟨hnext, -⟩ := Lane.Step.submit.inj hi
      obtain rfl | htask := List.mem_cons.mp htask
      · omega
      · exact Nat.lt_succ_of_lt (h.below task htask)

theorem Moved.nextId_le (hm : Moved s s') : s.nextId ≤ s'.nextId := by
  cases hm with
  | still hlane hid hnow => exact hid
  | steps i hi hstep hid hnow | submits owner due deadline hlane hid hnow => omega

theorem Moved.accepted (hm : Moved s s') {task : Task} (h : task ∈ acceptedTasks s.lane.history) :
    task ∈ acceptedTasks s'.lane.history := by
  cases hm with
  | still hlane hid hnow => rwa [hlane]
  | steps i hi hstep hid hnow => exact Lane.accepted_of_step hstep h
  | submits owner due deadline hlane hid hnow =>
    have hstep : Lane.step s.now s.lane (.submit s.nextId owner due deadline) = some s'.lane :=
      congrArg some hlane.symm
    exact Lane.accepted_of_step hstep h

theorem Moved.accepted_ids (hm : Moved s s') {id : ℕ}
    (h : id ∈ (acceptedTasks s.lane.history).map Task.id) :
    id ∈ (acceptedTasks s'.lane.history).map Task.id := by
  obtain ⟨task, htask, rfl⟩ := List.mem_map.mp h
  exact List.mem_map_of_mem (hm.accepted htask)

-- Only a new task comes into the queue.
theorem Moved.not_queued (hm : Moved s s') {id : ℕ} (hlt : id < s.nextId)
    (h : id ∉ s.lane.queue.map Task.id) : id ∉ s'.lane.queue.map Task.id := by
  cases hm with
  | still hlane hid hnow => rwa [hlane]
  | steps i hi hstep hid hnow =>
    exact fun hmem => h (((Lane.step_queue_sublist hi hstep).map Task.id).subset hmem)
  | submits owner due deadline hlane hid hnow =>
    intro hmem
    obtain ⟨task, htask, rfl⟩ := List.mem_map.mp hmem
    have hqueue : task.id = s.nextId ∨ task ∈ s.lane.queue := by
      rw [hlane, Lane.submit] at htask
      split at htask
      · exact .inr htask
      · obtain rfl | htask := Lane.mem_emplace.mp htask
        · exact .inl rfl
        · exact .inr htask
    obtain hid | hold := hqueue
    · omega
    · exact h (List.mem_map_of_mem hold)

theorem Moved.doomed (hm : Moved s s') (hs : Ok s) {id : ℕ} (h : s.lane.Doomed id) :
    s'.lane.Doomed id := by
  cases hm with
  | still hlane hid hnow => rwa [hlane]
  | steps i hi hstep hid hnow => exact h.of_step hs.inv (Lane.fresh_of_not_submits hi) hstep
  | submits owner due deadline hlane hid hnow =>
    have hstep : Lane.step s.now s.lane (.submit s.nextId owner due deadline) = some s'.lane :=
      congrArg some hlane.symm
    exact h.of_step hs.inv (hs.fresh owner due deadline) hstep

end Clocked

end Glider.Work

import Glider.Ubash.Commands

namespace Glider.Ubash

open Glider.Lib Glider.Lib.Threads
open Work (Lane Active Task acceptedTasks)

def State.clocked (s : State) : Work.Clocked := ⟨s.now, s.nextId, s.lane⟩

-- The lane is the one for `/ubash` jobs: one worker and no queue, and no job has a deadline.
structure LaneOk (s : State) : Prop where
  ok : s.clocked.Ok
  workers : s.lane.workers = 1
  capacity : s.lane.queuedCapacity = 0
  plain : ∀ task ∈ acceptedTasks s.lane.history,
    task.owner = kUbashOwner ∧ task.deadline = none

section Acts

variable {s s' : State} {op : Op} {accepts : Bool} {answer : Option op.Answer}

-- The step of the lane that an operation makes.
def laneStep : Op → Option Lane.Step
  | .cancelCommandWork id => some (.cancel kUbashOwner id)
  | .take => some .take
  | .checkDeadline id => some (.checkDeadline id)
  | .checkStop id => some (.checkStop id)
  | .complete id => some (.complete id)
  | .erase id => some (.erase id)
  | _ => none

-- How an operation changes the lane. Only a submission brings a task, and not one with a deadline.
inductive Changes (op : Op) (s s' : State) : Prop where
  | still (hlane : s'.lane = s.lane) (hid : s.nextId ≤ s'.nextId) (hnow : s.now ≤ s'.now)
  | steps (i : Lane.Step) (hi : laneStep op = some i)
      (hstep : Lane.step s.now s.lane i = some s'.lane) (hid : s'.nextId = s.nextId)
      (hnow : s'.now = s.now)
  | submits (hop : op = .submitCommandWork) (hs : s' = s.submit.1)

theorem not_submits_of_laneStep {i : Lane.Step} (h : laneStep op = some i) : i.submits = false := by
  cases op with
  | cancelCommandWork id | take | checkDeadline id | checkStop id | complete id | erase id =>
    obtain rfl := Option.some.inj h
    rfl
  | _ => cases h

theorem changes_of_act (h : act s op accepts = some (s', answer)) : Changes op s s' := by
  cases op with
  | submitCommandWork =>
    cases accepts <;> cases h
    · exact .still rfl (Nat.le_refl _) (Nat.le_refl _)
    · exact .submits rfl rfl
  | cancelCommandWork id =>
    cases h
    exact .steps (.cancel kUbashOwner id) rfl rfl rfl rfl
  | begin =>
    cases h
    unfold State.begin
    split <;> exact .still rfl (Nat.le_refl _) (Nat.le_refl _)
  | take =>
    simp only [act] at h
    split at h
    · next task rest lane hqueue htake =>
      cases h
      exact .steps .take rfl htake rfl rfl
    · cases h
  | checkDeadline id | checkStop id | complete id | erase id =>
    obtain ⟨lane, hstep, heq⟩ := Option.map_eq_some_iff.mp h
    cases heq
    exact .steps _ rfl hstep rfl rfl
  | elsewhere elapsed ids =>
    cases h
    exact .still rfl (Nat.le_add_right ..) (Nat.le_add_right ..)
  | _ =>
    cases h
    exact .still rfl (Nat.le_refl _) (Nat.le_refl _)

theorem Changes.moved (h : Changes op s s') : s.clocked.Moved s'.clocked := by
  cases h with
  | still hlane hid hnow => exact .still hlane hid hnow
  | steps i hi hstep hid hnow => exact .steps i (not_submits_of_laneStep hi) hstep hid hnow
  | submits hop hs =>
    subst hs
    exact .submits kUbashOwner s.now none rfl rfl rfl

theorem LaneOk.of_changes (h : LaneOk s) (hc : Changes op s s') : LaneOk s' := by
  have hok := h.ok.of_moved hc.moved
  cases hc with
  | still hlane hid hnow =>
    exact ⟨hok, by rw [hlane, h.workers], by rw [hlane, h.capacity], by rw [hlane]; exact h.plain⟩
  | steps i hi hstep hid hnow =>
    have hgrows := Lane.step_grows hstep
    refine ⟨hok, hgrows.workers.trans h.workers, hgrows.capacity.trans h.capacity, ?_⟩
    obtain hold | ⟨task, owner, due, deadline, rfl, -⟩ := hgrows.accepted
    · rw [hold]
      exact h.plain
    · cases not_submits_of_laneStep hi
  | submits hop hs =>
    subst hs
    have hstep : Lane.step s.now s.lane (.submit s.nextId kUbashOwner s.now none) =
      some s.submit.1.lane := rfl
    have hgrows := Lane.step_grows hstep
    refine ⟨hok, hgrows.workers.trans h.workers, hgrows.capacity.trans h.capacity, ?_⟩
    intro task htask
    unfold State.submit Lane.submit at htask
    dsimp only at htask
    split at htask
    · exact h.plain task htask
    · rw [Work.Lane.acceptedTasks_accepted] at htask
      obtain rfl | hold := List.mem_cons.mp htask
      · exact ⟨rfl, rfl⟩
      · exact h.plain task hold

theorem active_of_changes (hc : Changes op s s') {task : Task}
    (h : task ∈ s.lane.active.map Active.task) :
    task ∈ s'.lane.active.map Active.task ∨ op = .erase task.id := by
  cases hc with
  | still hlane hid hnow => exact .inl (hlane ▸ h)
  | steps i hi hstep hid hnow =>
    obtain hkept | rfl := Lane.active_of_step hstep h
    · exact .inl hkept
    · cases op with
      | erase id =>
        obtain rfl := Lane.Step.erase.inj (Option.some.inj hi)
        exact .inr rfl
      | _ => cases hi
  | submits hop hs =>
    subst hs
    have hstep : Lane.step s.now s.lane (.submit s.nextId kUbashOwner s.now none) =
      some s.submit.1.lane := rfl
    obtain hkept | hi := Lane.active_of_step hstep h
    · exact .inl hkept
    · cases hi

theorem tasks_of_changes (hc : Changes op s s') {task : Task} (h : task ∈ s.lane.tasks) :
    task ∈ s'.lane.tasks ∨ op = .cancelCommandWork task.id ∨ op = .erase task.id := by
  cases hc with
  | still hlane hid hnow => exact .inl (hlane ▸ h)
  | steps i hi hstep hid hnow =>
    obtain hkept | hdrops := Lane.mem_tasks_of_step hstep h
    · exact .inl hkept
    · cases op with
      | cancelCommandWork id =>
        obtain rfl := Option.some.inj hi
        exact .inr (.inl (congrArg Op.cancelCommandWork hdrops))
      | erase id =>
        obtain rfl := Option.some.inj hi
        exact .inr (.inr (congrArg Op.erase hdrops))
      | take | checkDeadline id | checkStop id | complete id =>
        obtain rfl := Option.some.inj hi
        exact hdrops.elim
      | _ => cases hi
  | submits hop hs =>
    subst hs
    have hstep : Lane.step s.now s.lane (.submit s.nextId kUbashOwner s.now none) =
      some s.submit.1.lane := rfl
    obtain hkept | hdrops := Lane.mem_tasks_of_step hstep h
    · exact .inl hkept
    · exact hdrops.elim

-- There is never more than one job.
theorem LaneOk.eq_of_mem (h : LaneOk s) {id id' : ℕ} (hid : id ∈ s.lane.tasks.map Task.id)
    (hid' : id' ∈ s.lane.tasks.map Task.id) : id = id' := by
  have hlength : (s.lane.tasks.map Task.id).length ≤ 1 := by
    have hsize : s.lane.depth ≤ s.lane.maximumOutstanding := h.ok.inv.size
    rw [Lane.depth, Lane.maximumOutstanding, h.workers, h.capacity] at hsize
    rwa [List.length_map, Lane.tasks, List.length_append, List.length_map]
  generalize s.lane.tasks.map Task.id = ids at hid hid' hlength
  cases ids with
  | nil => cases hid
  | cons first rest =>
    have hrest : rest = [] := by
      rw [List.length_cons] at hlength
      exact List.length_eq_zero_iff.mp (by omega)
    subst hrest
    rw [List.mem_singleton.mp hid, List.mem_singleton.mp hid']

-- A job that is neither over nor asked to stop.
def Live (s : State) (id : ℕ) : Prop := s.completed id = false ∧ s.lane.Unstopped id

theorem Live.mem_tasks {id : ℕ} (h : Live s id) : id ∈ s.lane.tasks.map Task.id := h.2.mem_tasks

end Acts

section Unstopped

variable {s s' : State} {op : Op} {accepts : Bool} {answer : op.Answer} {id : ℕ}

theorem unstopped_submitted (id : ℕ) :
    s.submit.1.lane.Unstopped id ↔ s.lane.Unstopped id ∨ s.submit.2 = some id := by
  have hsubmit := Lane.unstopped_submit (l := s.lane) s.nextId kUbashOwner s.now none id
  refine hsubmit.trans (or_congr Iff.rfl ?_)
  unfold State.submit
  dsimp only
  split
  next haccepted => simp only [haccepted, true_and, Option.some.injEq, eq_comm]
  next hrejected => simp only [hrejected, false_and, reduceCtorEq]

-- Only a submission, a cancellation and the end of a job make a difference.
theorem unstopped_of_act (hok : LaneOk s) (hact : act s op accepts = some (s', some answer))
    (hsubmit : op ≠ .submitCommandWork) (hcancel : op ≠ .cancelCommandWork id)
    (herase : op ≠ .erase id) : s'.lane.Unstopped id ↔ s.lane.Unstopped id := by
  cases op with
  | submitCommandWork => exact absurd rfl hsubmit
  | cancelCommandWork id' =>
    cases hact
    exact Lane.unstopped_cancel_of_ne fun heq => hcancel (congrArg Op.cancelCommandWork heq.symm)
  | begin =>
    cases hact
    unfold State.begin
    split <;> exact Iff.rfl
  | take =>
    simp only [act] at hact
    split at hact
    · next task rest lane hqueue htake =>
      cases hact
      exact Lane.unstopped_take htake id
    · cases hact
  | checkDeadline id' =>
    obtain ⟨lane, hstep, heq⟩ := Option.map_eq_some_iff.mp hact
    cases heq
    simp only [Lane.step] at hstep
    split at hstep
    · cases hstep
      refine Lane.unstopped_onActive (fun a ha _ => ?_) id
      have hknown := hok.ok.inv.known _ (Lane.mem_tasks_of_active ha)
      simp [Lane.checkDeadline, Lane.expired, (hok.plain _ hknown).2]
    · cases hstep
  | checkStop id' =>
    obtain ⟨lane, hstep, heq⟩ := Option.map_eq_some_iff.mp hact
    cases heq
    simp only [Lane.step] at hstep
    split at hstep
    · cases hstep
      exact Lane.unstopped_pass ..
    · cases hstep
      exact Lane.unstopped_pass ..
    · cases hstep
  | complete id' =>
    obtain ⟨lane, hstep, heq⟩ := Option.map_eq_some_iff.mp hact
    cases heq
    simp only [Lane.step] at hstep
    split at hstep
    · cases hstep
      exact Lane.unstopped_pass ..
    · cases hstep
  | erase id' =>
    obtain ⟨lane, hstep, heq⟩ := Option.map_eq_some_iff.mp hact
    cases heq
    simp only [Lane.step] at hstep
    split at hstep
    · cases hstep
      exact Lane.unstopped_erase_of_ne fun heq => herase (congrArg Op.erase heq.symm)
    · cases hstep
  | _ =>
    cases hact
    exact Iff.rfl

end Unstopped

section Entries

variable {s s' : State} {op : Op} {accepts : Bool} {answer : op.Answer}

-- Where an entry of the active table comes from: only a cancellation has asked it to stop, and it
-- is over when it was stopped or has been completed.
structure Comes (s : State) (op : Op) (a a' : Active) : Prop where
  task : a.task = a'.task
  keeps : a.stop = true → a'.stop = true
  stop : a'.stop = true → a.stop = true ∨ op = .cancelCommandWork a'.task.id ∧
    (s.lane.cancel kUbashOwner a'.task.id).1 = true
  finished : a'.phase = .finished → a.phase = .finished ∨ a'.stop = true ∨
    op = .complete a'.task.id

theorem Comes.refl (a : Active) : Comes s op a a := ⟨rfl, id, .inl, .inl⟩

theorem comes_onActive {id : ℕ} {f : Active → Active}
    (hf : ∀ a ∈ s.lane.active, a.task.id = id → Comes s op a (f a)) {a' : Active}
    (h : a' ∈ s.lane.onActive id f) : ∃ a ∈ s.lane.active, Comes s op a a' := by
  obtain ⟨a, ha, rfl⟩ := List.mem_map.mp h
  refine ⟨a, ha, ?_⟩
  by_cases hid : a.task.id = id
  · rw [if_pos hid]
    exact hf a ha hid
  · rw [if_neg hid]
    exact .refl a

theorem entry_of_act (hok : LaneOk s) (hact : act s op accepts = some (s', some answer))
    {a' : Active} (h : a' ∈ s'.lane.active) :
    a'.stop = false ∧ a'.phase ≠ .finished ∨ ∃ a ∈ s.lane.active, Comes s op a a' := by
  cases op with
  | submitCommandWork =>
    refine .inr ⟨a', ?_, .refl a'⟩
    cases accepts <;> cases hact
    · exact h
    · unfold State.submit Lane.submit at h
      dsimp only at h
      split at h <;> exact h
  | begin =>
    refine .inr ⟨a', ?_, .refl a'⟩
    cases hact
    unfold State.begin at h
    split at h <;> exact h
  | cancelCommandWork id =>
    cases hact
    refine .inr ?_
    by_cases hresult : (s.lane.cancel kUbashOwner id).1 = true
    · have hactive : a' ∈ s.lane.active ∨ a' ∈ s.lane.onActive id Lane.requestStop := by
        unfold Lane.cancel at h
        dsimp only at h
        split at h
        · exact .inl h
        · split at h
          · exact .inr h
          · exact .inl h
      obtain hold | hnew := hactive
      · exact ⟨a', hold, .refl a'⟩
      · refine comes_onActive (fun a ha hid => ?_) hnew
        subst hid
        exact ⟨rfl, fun _ => rfl, fun _ => .inr ⟨rfl, hresult⟩, .inl⟩
    · have hactive : a' ∈ s.lane.active := by
        unfold Lane.cancel at h hresult
        dsimp only at h hresult
        split at h
        next hqueue =>
          rw [if_pos hqueue] at hresult
          exact absurd rfl hresult
        next hqueue =>
          split at h
          next hentry =>
            rw [if_neg hqueue, if_pos hentry] at hresult
            exact absurd rfl hresult
          · exact h
      exact ⟨a', hactive, .refl a'⟩
  | take =>
    simp only [act] at hact
    split at hact
    · next task rest lane hqueue htake =>
      cases hact
      unfold Lane.take at htake
      split at htake
      · cases htake
      · obtain ⟨-, rfl⟩ := Transition.enabled_eq_some htake
        obtain hold | hnew := List.mem_append.mp h
        · exact .inr ⟨a', hold, .refl a'⟩
        · obtain rfl := List.mem_singleton.mp hnew
          exact .inl ⟨rfl, fun he => by cases he⟩
    · cases hact
  | checkDeadline id =>
    obtain ⟨lane, hstep, heq⟩ := Option.map_eq_some_iff.mp hact
    cases heq
    simp only [Lane.step] at hstep
    split at hstep
    · cases hstep
      refine .inr (comes_onActive (fun a ha _ => ?_) h)
      have hknown := hok.ok.inv.known _ (Lane.mem_tasks_of_active ha)
      have hcheck : Lane.checkDeadline s.now a = { a with phase := .checked s.now } := by
        simp [Lane.checkDeadline, Lane.expired, (hok.plain _ hknown).2]
      rw [hcheck]
      exact ⟨rfl, fun hs => hs, .inl, fun he => by cases he⟩
    · cases hstep
  | checkStop id =>
    obtain ⟨lane, hstep, heq⟩ := Option.map_eq_some_iff.mp hact
    cases heq
    simp only [Lane.step] at hstep
    split at hstep
    next hfound =>
      cases hstep
      refine .inr (comes_onActive (fun a ha hid => ?_) h)
      obtain ⟨hmem, hfid⟩ := Lane.lookup_eq_some hfound
      have hsame := hok.ok.inv.active_inj ha hmem (hid.trans hfid.symm)
      have hstop : a.stop = true := hsame ▸ rfl
      exact ⟨rfl, fun hs => hs, .inl, fun _ => .inr (.inl hstop)⟩
    · cases hstep
      refine .inr (comes_onActive (fun a ha _ => ?_) h)
      exact ⟨rfl, fun hs => hs, .inl, fun he => by cases he⟩
    · cases hstep
  | complete id =>
    obtain ⟨lane, hstep, heq⟩ := Option.map_eq_some_iff.mp hact
    cases heq
    simp only [Lane.step] at hstep
    split at hstep
    · cases hstep
      refine .inr (comes_onActive (fun a ha hid => ?_) h)
      subst hid
      exact ⟨rfl, fun hs => hs, .inl, fun _ => .inr (.inr rfl)⟩
    · cases hstep
  | erase id =>
    obtain ⟨lane, hstep, heq⟩ := Option.map_eq_some_iff.mp hact
    cases heq
    simp only [Lane.step] at hstep
    split at hstep
    · cases hstep
      exact .inr ⟨a', List.mem_of_mem_filter h, .refl a'⟩
    · cases hstep
  | _ =>
    cases hact
    exact .inr ⟨a', h, .refl a'⟩

end Entries

end Glider.Ubash

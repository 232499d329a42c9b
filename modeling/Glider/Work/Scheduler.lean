import Mathlib.Logic.Function.Basic
import Glider.Work.Lane

namespace Glider.Work

open Glider.Lib

inductive WorkClass where
  | Llm
  | Media
  | Process
  | Outbound
  | UnboundedProcess
deriving DecidableEq

namespace WorkClass

-- The order in which `cancel` and `cancelAndDrain` go through the lanes.
def all : List WorkClass := [.Llm, .Media, .Process, .Outbound, .UnboundedProcess]

theorem mem_all (c : WorkClass) : c ∈ all := by cases c <;> decide

end WorkClass

structure LaneConfig where
  workers : ℕ
  queuedCapacity : ℕ
  defaultDeadline : ℤ

-- The lanes of the program, with their default deadlines in milliseconds.
def lanesOfProgram : WorkClass → LaneConfig
  | .Llm => ⟨2, 8, 180000⟩
  | .Media => ⟨1, 2, 60000⟩
  | .Process => ⟨1, 4, 10000⟩
  | .Outbound => ⟨1, 64, 30000⟩
  | .UnboundedProcess => ⟨1, 0, 0⟩

structure WorkOptions where
  delay : ℤ
  deadline : ℤ

-- A call that is under way, with the lanes it has not visited yet. `before` are the tasks of the
-- owner that were accepted when `cancelAndDrain` was called.
inductive Call where
  | submit (workClass : WorkClass) (id : ℕ) (owner : String) (due : ℕ) (deadline : Option ℕ)
  | cancel (owner : String) (id : ℕ) (remaining : List WorkClass)
  | cancelAndDrain (owner : String) (cancelling draining : List WorkClass) (before : List ℕ)

inductive Answer where
  | submitted (id : Option ℕ)
  | cancelled (owner : String) (id : ℕ) (result : Bool)
  | drained (owner : String) (before : List ℕ)
deriving DecidableEq

structure Scheduler where
  now : ℕ
  nextId : ℕ
  lanes : WorkClass → Lane
  calls : List Call
  answers : List Answer

namespace Scheduler

def start (config : WorkClass → LaneConfig) (now : ℕ) : Scheduler :=
  ⟨now, 1, fun c => Lane.create (config c).workers (config c).queuedCapacity
    (config c).defaultDeadline, [], []⟩

-- The first part of `submit`: a task with a new id is made, the lane is not locked yet.
def prepare (s : Scheduler) (owner : String) (workClass : WorkClass) (hasWork : Bool)
    (options : WorkOptions) : Scheduler :=
  if owner.isEmpty ∨ hasWork = false then
    { s with answers := .submitted none :: s.answers }
  else
    let deadlineDuration :=
      if options.deadline > 0 then options.deadline else (s.lanes workClass).defaultDeadline
    let due := s.now + (max options.delay 0).toNat
    let deadline := if deadlineDuration > 0 then some (due + deadlineDuration.toNat) else none
    { s with nextId := s.nextId + 1,
             calls := s.calls ++ [.submit workClass s.nextId owner due deadline] }

def acceptedOf (s : Scheduler) (owner : String) : List ℕ :=
  WorkClass.all.flatMap fun c =>
    ((acceptedTasks (s.lanes c).history).filter fun task => task.owner == owner).map Task.id

def setLane (s : Scheduler) (c : WorkClass) (l : Lane) : Scheduler :=
  { s with lanes := Function.update s.lanes c l }

def setCall (s : Scheduler) (k : ℕ) (call : Call) : Scheduler := { s with calls := s.calls.set k call }

def return' (s : Scheduler) (k : ℕ) (answer : Answer) : Scheduler :=
  { s with calls := s.calls.eraseIdx k, answers := answer :: s.answers }

inductive Step where
  | tick (elapsed : ℕ)
  | submit (owner : String) (workClass : WorkClass) (hasWork : Bool) (options : WorkOptions)
  | cancel (owner : String) (id : ℕ)
  | cancelAndDrain (owner : String)
  | advance (call : ℕ)
  | lane (workClass : WorkClass) (i : Lane.Step)

-- The steps of the workers, the monitor and the destructor of a lane. The others are made by calls.
def internal : Lane.Step → Bool
  | .submit .. | .cancel .. | .cancelOwner .. => false
  | .take | .checkDeadline _ | .checkStop _ | .complete _ | .erase _ | .monitor | .shutDown => true

-- The next locked section of a call.
def advance (s : Scheduler) (k : ℕ) : Call → Option Scheduler
  | .submit c id owner due deadline =>
    let r := (s.lanes c).submit id owner due deadline
    some ((s.setLane c r.2).return' k (.submitted (if r.1 then some id else none)))
  | .cancel owner id (c :: rest) =>
    let r := (s.lanes c).cancel owner id
    if r.1 then some ((s.setLane c r.2).return' k (.cancelled owner id true))
    else some ((s.setLane c r.2).setCall k (.cancel owner id rest))
  | .cancel owner id [] => some (s.return' k (.cancelled owner id false))
  | .cancelAndDrain owner (c :: rest) draining before =>
    some ((s.setLane c ((s.lanes c).cancelOwner owner)).setCall k
      (.cancelAndDrain owner rest draining before))
  | .cancelAndDrain owner [] (c :: rest) before =>
    if (s.lanes c).drained owner then some (s.setCall k (.cancelAndDrain owner [] rest before))
    else none
  | .cancelAndDrain owner [] [] before => some (s.return' k (.drained owner before))

def step : Transition Scheduler Step
  | s, .tick elapsed => some { s with now := s.now + elapsed }
  | s, .submit owner workClass hasWork options => some (s.prepare owner workClass hasWork options)
  | s, .cancel owner id => some { s with calls := s.calls ++ [.cancel owner id WorkClass.all] }
  | s, .cancelAndDrain owner =>
    some { s with calls := s.calls ++
      [.cancelAndDrain owner WorkClass.all WorkClass.all (s.acceptedOf owner)] }
  | s, .advance k => s.calls[k]?.bind (s.advance k)
  | s, .lane c i =>
    if internal i then ((s.lanes c).step s.now i).map (s.setLane c) else none

def submitId : Call → Option ℕ
  | .submit _ id _ _ _ => some id
  | _ => none

def Accepted (s : Scheduler) (c : WorkClass) (task : Task) : Prop :=
  task ∈ acceptedTasks (s.lanes c).history

-- No task of `before` is left in a lane that satisfies `cleared`.
def Cleared (s : Scheduler) (owner : String) (before : List ℕ) (cleared : WorkClass → Prop) : Prop :=
  (∀ id ∈ before, ∃ c task, s.Accepted c task ∧ task.id = id ∧ task.owner = owner) ∧
    ∀ c, cleared c → ∀ task ∈ (s.lanes c).tasks, task.id ∉ before

structure Inv (config : WorkClass → LaneConfig) (s : Scheduler) : Prop where
  lanes : ∀ c, (s.lanes c).Inv s.now
  sizes : ∀ c, (s.lanes c).workers = (config c).workers ∧
    (s.lanes c).queuedCapacity = (config c).queuedCapacity
  bounded : ∀ c task, s.Accepted c task → task.id < s.nextId
  unique : ∀ c c' task task', s.Accepted c task → s.Accepted c' task' → task.id = task'.id →
    c = c' ∧ task = task'
  pending : ∀ call ∈ s.calls, ∀ id, submitId call = some id → id < s.nextId ∧
    ∀ c task, s.Accepted c task → task.id ≠ id
  distinct : (s.calls.filterMap submitId).Nodup
  draining : ∀ owner cancelling draining before,
    .cancelAndDrain owner cancelling draining before ∈ s.calls →
    s.Cleared owner before fun c => c ∉ draining
  cancelled : ∀ owner id, .cancelled owner id true ∈ s.answers →
    ∃ c task, s.Accepted c task ∧ task.id = id ∧ task.owner = owner
  drained : ∀ owner before, .drained owner before ∈ s.answers →
    s.Cleared owner before fun _ => True

variable {config : WorkClass → LaneConfig} {s t : Scheduler}

theorem Inv.start (config : WorkClass → LaneConfig) (now : ℕ) : Inv config (start config now) where
  lanes := fun c => Lane.Inv.create now _ _ _
  sizes := fun _ => ⟨rfl, rfl⟩
  bounded := by simp [Scheduler.start, Accepted, Lane.create, acceptedTasks]
  unique := by simp [Scheduler.start, Accepted, Lane.create, acceptedTasks]
  pending := by simp [Scheduler.start]
  distinct := by simp [Scheduler.start]
  draining := by simp [Scheduler.start]
  cancelled := by simp [Scheduler.start]
  drained := by simp [Scheduler.start]

theorem setLane_self (s : Scheduler) (c : WorkClass) (m : Lane) : (s.setLane c m).lanes c = m := by
  simp only [setLane, Function.update_self]

theorem setLane_of_ne (s : Scheduler) {c other : WorkClass} (h : other ≠ c) (m : Lane) :
    (s.setLane c m).lanes other = s.lanes other := by
  simp only [setLane, Function.update_of_ne h]

theorem accepted_setLane {c : WorkClass} {m : Lane}
    (hacc : acceptedTasks m.history = acceptedTasks (s.lanes c).history) (other : WorkClass)
    (task : Task) : (s.setLane c m).Accepted other task ↔ s.Accepted other task := by
  unfold Accepted
  by_cases he : other = c
  · subst he
    rw [setLane_self, hacc]
  · rw [setLane_of_ne s he]

theorem lanes_setLane {c : WorkClass} {m : Lane} {p : WorkClass → Lane → Prop}
    (h : ∀ c, p c (s.lanes c)) (hm : p c m) (other : WorkClass) :
    p other ((s.setLane c m).lanes other) := by
  by_cases he : other = c
  · subst he
    rw [setLane_self]
    exact hm
  · rw [setLane_of_ne s he]
    exact h other

-- A lane that accepts nothing and keeps at most the tasks it has.
theorem Cleared.setLane {owner : String} {before : List ℕ} {cleared : WorkClass → Prop}
    (h : s.Cleared owner before cleared) {c : WorkClass} {m : Lane}
    (hacc : acceptedTasks m.history = acceptedTasks (s.lanes c).history)
    (htasks : ∀ task ∈ m.tasks, task ∈ (s.lanes c).tasks) :
    (s.setLane c m).Cleared owner before cleared := by
  refine ⟨fun id hid => ?_, fun other ho => ?_⟩
  · obtain ⟨other, task, ha, hi⟩ := h.1 id hid
    exact ⟨other, task, (accepted_setLane hacc other task).mpr ha, hi⟩
  · by_cases he : other = c
    · subst he
      rw [setLane_self]
      exact fun task ht => h.2 other ho task (htasks task ht)
    · rw [setLane_of_ne s he]
      exact h.2 other ho

theorem Inv.lane (h : Inv config s) {c : WorkClass} {i : Lane.Step} {m : Lane}
    (hi : ∀ id owner due deadline, i ≠ .submit id owner due deadline)
    (hm : (s.lanes c).step s.now i = some m) : Inv config (s.setLane c m) := by
  have hg := Lane.step_grows hm
  have hacc : acceptedTasks m.history = acceptedTasks (s.lanes c).history := by
    rcases hg.accepted with hacc | ⟨task, owner, due, deadline, he, -⟩
    · exact hacc
    · exact absurd he (hi _ _ _ _)
  have htasks : ∀ task ∈ m.tasks, task ∈ (s.lanes c).tasks := by
    intro task ht
    rcases hg.mem_tasks ht with ht | ⟨owner, due, deadline, he⟩
    · exact ht
    · exact absurd he (hi _ _ _ _)
  have hfresh : (s.lanes c).Fresh i := by
    cases i with
    | submit id owner due deadline => exact absurd rfl (hi id owner due deadline)
    | _ => trivial
  have hiff := accepted_setLane hacc
  refine ⟨?_, ?_, ?_, ?_, ?_, h.distinct, ?_, ?_, ?_⟩
  · exact lanes_setLane (p := fun _ l => l.Inv s.now) h.lanes ((h.lanes c).step i hfresh hm)
  · refine lanes_setLane (p := fun c l => l.workers = (config c).workers ∧
      l.queuedCapacity = (config c).queuedCapacity) h.sizes ?_
    rw [hg.workers, hg.capacity]
    exact h.sizes c
  · exact fun other task ha => h.bounded other task ((hiff other task).mp ha)
  · exact fun a b x y hx hy => h.unique a b x y ((hiff a x).mp hx) ((hiff b y).mp hy)
  · intro call hc id hid
    obtain ⟨hlt, hne⟩ := h.pending call hc id hid
    exact ⟨hlt, fun other task ha => hne other task ((hiff other task).mp ha)⟩
  · exact fun owner cs ds before hc => (h.draining owner cs ds before hc).setLane hacc htasks
  · intro owner id ha
    obtain ⟨other, task, hx, hi⟩ := h.cancelled owner id ha
    exact ⟨other, task, (hiff other task).mpr hx, hi⟩
  · exact fun owner before ha => (h.drained owner before ha).setLane hacc htasks

-- The calls and answers change, the lanes do not.
theorem Inv.of_calls (h : Inv config s) {nextId : ℕ} {calls : List Call} {answers : List Answer}
    (hnext : s.nextId ≤ nextId)
    (hpending : ∀ call ∈ calls, ∀ id, submitId call = some id → id < nextId ∧
      ∀ c task, s.Accepted c task → task.id ≠ id)
    (hdistinct : (calls.filterMap submitId).Nodup)
    (hdraining : ∀ owner cancelling draining before,
      .cancelAndDrain owner cancelling draining before ∈ calls →
      s.Cleared owner before fun c => c ∉ draining)
    (hcancelled : ∀ owner id, .cancelled owner id true ∈ answers →
      ∃ c task, s.Accepted c task ∧ task.id = id ∧ task.owner = owner)
    (hdrained : ∀ owner before, .drained owner before ∈ answers →
      s.Cleared owner before fun _ => True) :
    Inv config { s with nextId := nextId, calls := calls, answers := answers } :=
  ⟨h.lanes, h.sizes, fun c task ha => Nat.lt_of_lt_of_le (h.bounded c task ha) hnext, h.unique,
    hpending, hdistinct, hdraining, hcancelled, hdrained⟩

-- A call goes on; it is no submission, neither before nor after.
theorem Inv.setCall (h : Inv config s) {k : ℕ} {old new : Call} (hk : s.calls[k]? = some old)
    (hold : submitId old = none) (hnew : submitId new = none)
    (hdraining : ∀ owner cancelling draining before,
      new = .cancelAndDrain owner cancelling draining before →
      s.Cleared owner before fun c => c ∉ draining) : Inv config (s.setCall k new) := by
  refine h.of_calls (Nat.le_refl _) ?_ ?_ ?_ h.cancelled h.drained
  · intro call hc id hid
    rcases List.mem_or_eq_of_mem_set hc with hc | rfl
    · exact h.pending call hc id hid
    · rw [hnew] at hid
      exact absurd hid nofun
  · have hsame : (s.calls.set k new).filterMap submitId = s.calls.filterMap submitId := by
      obtain ⟨hlt, rfl⟩ := List.getElem?_eq_some_iff.mp hk
      conv_rhs => rw [← List.take_append_drop k s.calls, List.drop_eq_getElem_cons hlt]
      rw [List.set_eq_take_append_cons_drop, if_pos hlt]
      simp only [List.filterMap_append, List.filterMap_cons, hnew, hold]
    rw [hsame]
    exact h.distinct
  · intro owner cs ds before hc
    rcases List.mem_or_eq_of_mem_set hc with hc | he
    · exact h.draining owner cs ds before hc
    · exact hdraining owner cs ds before he.symm

theorem Inv.return' (h : Inv config s) (k : ℕ) (answer : Answer)
    (hcancelled : ∀ owner id, answer = .cancelled owner id true →
      ∃ c task, s.Accepted c task ∧ task.id = id ∧ task.owner = owner)
    (hdrained : ∀ owner before, answer = .drained owner before →
      s.Cleared owner before fun _ => True) : Inv config (s.return' k answer) := by
  have hsub : (s.calls.eraseIdx k).Sublist s.calls := List.eraseIdx_sublist _ _
  refine h.of_calls (Nat.le_refl _) (fun call hc => h.pending call (hsub.subset hc))
    (h.distinct.sublist (hsub.filterMap submitId))
    (fun owner cs ds before hc => h.draining owner cs ds before (hsub.subset hc)) ?_ ?_
  · intro owner id ha
    rcases List.mem_cons.mp ha with ha | ha
    · exact hcancelled owner id ha.symm
    · exact h.cancelled owner id ha
  · intro owner before ha
    rcases List.mem_cons.mp ha with ha | ha
    · exact hdrained owner before ha.symm
    · exact h.drained owner before ha

theorem Inv.push (h : Inv config s) {call : Call} (hcall : submitId call = none)
    (hdraining : ∀ owner cancelling draining before,
      call = .cancelAndDrain owner cancelling draining before →
      s.Cleared owner before fun c => c ∉ draining) :
    Inv config { s with calls := s.calls ++ [call] } := by
  refine h.of_calls (Nat.le_refl _) ?_ ?_ ?_ h.cancelled h.drained
  · intro other ho id hid
    rcases List.mem_append.mp ho with ho | ho
    · exact h.pending other ho id hid
    · rw [List.mem_singleton.mp ho, hcall] at hid
      exact absurd hid nofun
  · simpa only [List.filterMap_append, List.filterMap_cons, hcall, List.filterMap_nil,
      List.append_nil] using h.distinct
  · intro owner cs ds before ho
    rcases List.mem_append.mp ho with ho | ho
    · exact h.draining owner cs ds before ho
    · exact hdraining owner cs ds before (List.mem_singleton.mp ho).symm

theorem cleared_acceptedOf (s : Scheduler) (owner : String) :
    s.Cleared owner (s.acceptedOf owner) fun c => c ∉ WorkClass.all := by
  refine ⟨fun id hid => ?_, fun c hc => absurd (WorkClass.mem_all c) hc⟩
  obtain ⟨c, -, hid⟩ := List.mem_flatMap.mp hid
  obtain ⟨task, ht, rfl⟩ := List.mem_map.mp hid
  obtain ⟨ht, ho⟩ := List.mem_filter.mp ht
  exact ⟨c, task, ht, rfl, by simpa using ho⟩

theorem Inv.prepare (h : Inv config s) (owner : String) (c : WorkClass) (hasWork : Bool)
    (options : WorkOptions) : Inv config (s.prepare owner c hasWork options) := by
  unfold Scheduler.prepare
  split
  · refine h.of_calls (Nat.le_refl _) h.pending h.distinct h.draining ?_ ?_
    · intro o id ha
      rcases List.mem_cons.mp ha with ha | ha
      · exact absurd ha nofun
      · exact h.cancelled o id ha
    · intro o before ha
      rcases List.mem_cons.mp ha with ha | ha
      · exact absurd ha nofun
      · exact h.drained o before ha
  · dsimp only
    generalize s.now + (max options.delay 0).toNat = due
    generalize (if (if options.deadline > 0 then options.deadline else
      (s.lanes c).defaultDeadline) > 0 then _ else _) = deadline
    refine h.of_calls (Nat.le_succ _) ?_ ?_ ?_ h.cancelled h.drained
    · intro call hc id hid
      rcases List.mem_append.mp hc with hc | hc
      · obtain ⟨hlt, hne⟩ := h.pending call hc id hid
        exact ⟨Nat.lt_succ_of_lt hlt, hne⟩
      · rw [List.mem_singleton.mp hc] at hid
        obtain rfl := Option.some_inj.mp hid
        exact ⟨Nat.lt_succ_self _, fun c task ha => Nat.ne_of_lt (h.bounded c task ha)⟩
    · simp only [List.filterMap_append, List.filterMap_cons, submitId, List.filterMap_nil]
      refine List.nodup_append.mpr ⟨h.distinct, List.nodup_singleton _, ?_⟩
      intro a ha b hb
      obtain ⟨call, hc, hid⟩ := List.mem_filterMap.mp ha
      rw [List.mem_singleton.mp hb]
      exact Nat.ne_of_lt (h.pending call hc a hid).1
    · intro o cs ds before hc
      rcases List.mem_append.mp hc with hc | hc
      · exact h.draining o cs ds before hc
      · exact absurd (List.mem_singleton.mp hc) nofun

theorem mem_lane_setLane {c other : WorkClass} {m : Lane} {p : Lane → Prop}
    (h : p ((s.setLane c m).lanes other)) : other = c ∧ p m ∨ p (s.lanes other) := by
  by_cases he : other = c
  · subst he
    rw [setLane_self] at h
    exact .inl ⟨rfl, h⟩
  · rw [setLane_of_ne s he] at h
    exact .inr h

-- What a lane records when it is given a task: nothing, or that one task.
theorem accepted_of_submit {c : WorkClass} {m : Lane} {id due : ℕ} {owner : String}
    {deadline : Option ℕ}
    (hm : (s.lanes c).step s.now (.submit id owner due deadline) = some m) :
    ∃ new : Task, new.id = id ∧
      (∀ other task, s.Accepted other task → (s.setLane c m).Accepted other task) ∧
      ∀ other task, (s.setLane c m).Accepted other task →
        s.Accepted other task ∨ other = c ∧ task = new := by
  rcases (Lane.step_grows hm).accepted with hacc | ⟨new, _, _, _, he, hacc⟩
  · refine ⟨⟨id, owner, due, deadline, 0⟩, rfl, ?_, ?_⟩
    · exact fun other task => (accepted_setLane hacc other task).mpr
    · exact fun other task ha => .inl ((accepted_setLane hacc other task).mp ha)
  · obtain ⟨rfl, -, -, -⟩ := Lane.Step.submit.inj he
    refine ⟨new, rfl, fun other task ha => ?_, fun other task ha => ?_⟩
    · unfold Accepted at ha ⊢
      by_cases ho : other = c
      · subst ho
        rw [setLane_self, hacc]
        exact List.mem_cons_of_mem _ ha
      · rwa [setLane_of_ne s ho]
    · rcases mem_lane_setLane (p := fun l => task ∈ acceptedTasks l.history) ha with ⟨ho, ha⟩ | ha
      · rw [hacc] at ha
        rcases List.mem_cons.mp ha with rfl | ha
        · exact .inr ⟨ho, rfl⟩
        · exact .inl (ho ▸ ha)
      · exact .inl ha

theorem Inv.submitLane (h : Inv config s) {c : WorkClass} {id due : ℕ} {owner : String}
    {deadline : Option ℕ} {m : Lane} (hlt : id < s.nextId)
    (hnew : ∀ other task, s.Accepted other task → task.id ≠ id)
    (hfree : ∀ call ∈ s.calls, submitId call ≠ some id)
    (hm : (s.lanes c).step s.now (.submit id owner due deadline) = some m) :
    Inv config (s.setLane c m) := by
  obtain ⟨new, rfl, hkept, hback⟩ := accepted_of_submit hm
  have hg := Lane.step_grows hm
  have hfresh : (s.lanes c).Fresh (.submit new.id owner due deadline) := by
    intro hmem
    obtain ⟨task, ht, he⟩ := List.mem_map.mp hmem
    exact hnew c task ht he
  -- A cleared lane gets at most the new task, which was not accepted when the call began.
  have hclear : ∀ {o before cleared}, s.Cleared o before cleared →
      (s.setLane c m).Cleared o before cleared := by
    intro o before cleared hc
    refine ⟨fun i hi => ?_, fun other ho task ht => ?_⟩
    · obtain ⟨c', task, ha, hx⟩ := hc.1 i hi
      exact ⟨c', task, hkept c' task ha, hx⟩
    · rcases mem_lane_setLane (p := fun l => task ∈ l.tasks) ht with ⟨hoc, hm'⟩ | hs
      · rcases hg.mem_tasks hm' with hs | ⟨_, _, _, he⟩
        · exact hc.2 other ho task (hoc ▸ hs)
        · obtain ⟨heq, -, -, -⟩ := Lane.Step.submit.inj he
          intro hb
          obtain ⟨c', task', ha, hid, -⟩ := hc.1 _ hb
          exact hnew c' task' ha (hid.trans heq.symm)
      · exact hc.2 other ho task hs
  refine ⟨?_, ?_, ?_, ?_, ?_, h.distinct, ?_, ?_, ?_⟩
  · exact lanes_setLane (p := fun _ l => l.Inv s.now) h.lanes ((h.lanes c).step _ hfresh hm)
  · refine lanes_setLane (p := fun c l => l.workers = (config c).workers ∧
      l.queuedCapacity = (config c).queuedCapacity) h.sizes ?_
    rw [hg.workers, hg.capacity]
    exact h.sizes c
  · intro other task ha
    rcases hback other task ha with ha | ⟨-, rfl⟩
    · exact h.bounded other task ha
    · exact hlt
  · intro a b x y hx hy he
    rcases hback a x hx with hxs | ⟨hac, hxn⟩ <;> rcases hback b y hy with hys | ⟨hbc, hyn⟩
    · exact h.unique a b x y hxs hys he
    · exact absurd (hyn ▸ he) (hnew a x hxs)
    · exact absurd (hxn ▸ he.symm) (hnew b y hys)
    · exact ⟨hac.trans hbc.symm, hxn.trans hyn.symm⟩
  · intro call hc i hi
    obtain ⟨hlt', hne⟩ := h.pending call hc i hi
    refine ⟨hlt', fun other task ha => ?_⟩
    rcases hback other task ha with ha | ⟨-, rfl⟩
    · exact hne other task ha
    · rintro rfl
      exact hfree call hc hi
  · exact fun o cs ds before hc => hclear (h.draining o cs ds before hc)
  · intro o i ha
    obtain ⟨other, task, hx, hi⟩ := h.cancelled o i ha
    exact ⟨other, task, hkept other task hx, hi⟩
  · exact fun o before ha => hclear (h.drained o before ha)

theorem not_mem_eraseIdx_of_nodup {calls : List Call} {k id : ℕ} {call : Call}
    (hn : (calls.filterMap submitId).Nodup) (hk : calls[k]? = some call)
    (hid : submitId call = some id) : ∀ other ∈ calls.eraseIdx k, submitId other ≠ some id := by
  obtain ⟨hlt, rfl⟩ := List.getElem?_eq_some_iff.mp hk
  have hsplit : calls = calls.take k ++ calls[k] :: calls.drop (k + 1) := by
    rw [← List.drop_eq_getElem_cons hlt, List.take_append_drop]
  rw [hsplit, List.filterMap_append, List.filterMap_cons, hid] at hn
  rw [List.nodup_middle, ← List.filterMap_append, ← List.eraseIdx_eq_take_drop_succ] at hn
  intro other ho he
  exact (List.nodup_cons.mp hn).1 (List.mem_filterMap.mpr ⟨other, ho, he⟩)

-- A lane that `drainOwner` has found empty holds nothing of the owner, so nothing of the call.
theorem Inv.cleared_drained (h : Inv config s) {owner : String} {c : WorkClass}
    {rest : List WorkClass} {before : List ℕ}
    (hc : s.Cleared owner before fun other => other ∉ c :: rest)
    (hd : (s.lanes c).drained owner = true) : s.Cleared owner before fun other => other ∉ rest := by
  refine ⟨hc.1, fun other ho task ht hb => ?_⟩
  by_cases he : other = c
  · subst he
    obtain ⟨c', task', ha, hid, hown⟩ := hc.1 _ hb
    have hacc : s.Accepted other task := (h.lanes other).known task ht
    obtain ⟨-, rfl⟩ := h.unique _ _ _ _ ha hacc hid
    simp only [Lane.drained, Bool.and_eq_true, List.all_eq_true] at hd
    rcases List.mem_append.mp ht with ht | ht
    · have := hd.1 _ ht
      simp [hown] at this
    · obtain ⟨a, hmem, rfl⟩ := List.mem_map.mp ht
      have := hd.2 a hmem
      simp [hown] at this
  · exact hc.2 other (fun hm => (List.mem_cons.mp hm).elim he ho) task ht hb

theorem acceptedTasks_cancel (l : Lane) (owner : String) (id : ℕ) :
    acceptedTasks (l.cancel owner id).2.history = acceptedTasks l.history := by
  unfold Lane.cancel
  split
  · rfl
  · split <;> rfl

theorem Inv.advance (h : Inv config s) {k : ℕ} {call : Call} (hk : s.calls[k]? = some call)
    (ht : s.advance k call = some t) : Inv config t := by
  have hcall : call ∈ s.calls := List.mem_of_getElem? hk
  cases call with
  | submit c id owner due deadline =>
    obtain rfl := Option.some_inj.mp ht
    obtain ⟨hlt, hnew⟩ := h.pending _ hcall id rfl
    have hr := h.return' k (.submitted
      (if ((s.lanes c).submit id owner due deadline).1 then some id else none))
      (fun _ _ he => by cases he) (fun _ _ he => by cases he)
    exact hr.submitLane (c := c) hlt hnew (not_mem_eraseIdx_of_nodup h.distinct hk rfl) rfl
  | cancel owner id remaining =>
    cases remaining with
    | nil =>
      obtain rfl := Option.some_inj.mp ht
      exact h.return' k _ (fun _ _ he => absurd (Answer.cancelled.inj he).2.2 Bool.false_ne_true)
        (fun _ _ he => by cases he)
    | cons c rest =>
      have hl : Inv config (s.setLane c ((s.lanes c).cancel owner id).2) :=
        h.lane (i := .cancel owner id) (fun _ _ _ _ he => by cases he) rfl
      simp only [Scheduler.advance] at ht
      cases hres : ((s.lanes c).cancel owner id).1 with
      | true =>
        rw [hres, if_pos rfl] at ht
        obtain rfl := Option.some_inj.mp ht
        refine hl.return' k _ (fun o i he => ?_) (fun _ _ he => by cases he)
        obtain ⟨rfl, rfl, -⟩ := Answer.cancelled.inj he
        obtain ⟨task, htask, hid⟩ := Lane.exists_of_cancel hres
        have hacc : s.Accepted c task := (h.lanes c).known task htask
        exact ⟨c, task, (accepted_setLane (acceptedTasks_cancel _ _ _) c task).mpr hacc, hid⟩
      | false =>
        rw [hres, if_neg Bool.false_ne_true] at ht
        obtain rfl := Option.some_inj.mp ht
        exact hl.setCall hk rfl rfl (fun _ _ _ _ he => by cases he)
  | cancelAndDrain owner cancelling draining before =>
    have hc := h.draining _ _ _ _ hcall
    cases cancelling with
    | cons c rest =>
      obtain rfl := Option.some_inj.mp ht
      have hl : Inv config (s.setLane c ((s.lanes c).cancelOwner owner)) :=
        h.lane (i := .cancelOwner owner) (fun _ _ _ _ he => by cases he) rfl
      refine hl.setCall hk rfl rfl (fun o cs ds b he => ?_)
      obtain ⟨rfl, rfl, rfl, rfl⟩ := Call.cancelAndDrain.inj he
      exact hl.draining _ _ _ _ hcall
    | nil =>
      cases draining with
      | cons c rest =>
        obtain ⟨hd, rfl⟩ := Transition.enabled_eq_some ht
        refine h.setCall hk rfl rfl (fun o cs ds b he => ?_)
        obtain ⟨rfl, rfl, rfl, rfl⟩ := Call.cancelAndDrain.inj he
        exact h.cleared_drained hc hd
      | nil =>
        obtain rfl := Option.some_inj.mp ht
        refine h.return' k _ (fun _ _ he => by cases he) (fun o b he => ?_)
        obtain ⟨rfl, rfl⟩ := Answer.drained.inj he
        exact ⟨hc.1, fun c _ => hc.2 c List.not_mem_nil⟩

theorem Inv.step (h : Inv config s) (i : Step) (ht : step s i = some t) : Inv config t := by
  cases i with
  | tick elapsed =>
    obtain rfl := Option.some_inj.mp ht
    exact ⟨fun c => (h.lanes c).mono (Nat.le_add_right _ _), h.sizes, h.bounded, h.unique, h.pending,
      h.distinct, h.draining, h.cancelled, h.drained⟩
  | submit owner c hasWork options =>
    obtain rfl := Option.some_inj.mp ht
    exact h.prepare owner c hasWork options
  | cancel owner id =>
    obtain rfl := Option.some_inj.mp ht
    exact h.push rfl (fun _ _ _ _ he => absurd he nofun)
  | cancelAndDrain owner =>
    obtain rfl := Option.some_inj.mp ht
    refine h.push rfl (fun o cs ds before he => ?_)
    obtain ⟨rfl, rfl, rfl, rfl⟩ := Call.cancelAndDrain.inj he
    exact cleared_acceptedOf s owner
  | advance k =>
    obtain ⟨call, hk, ht⟩ := Option.bind_eq_some_iff.mp ht
    exact h.advance hk ht
  | lane c i =>
    simp only [Scheduler.step] at ht
    cases hi : internal i with
    | false => simp [hi] at ht
    | true =>
      rw [hi, if_pos rfl, Option.map_eq_some_iff] at ht
      obtain ⟨m, hm, rfl⟩ := ht
      refine h.lane (fun id owner due deadline he => ?_) hm
      rw [he] at hi
      exact absurd hi Bool.false_ne_true

-- The rules of the scheduler in a state: the bound of every lane, what every lane did, who can
-- cancel, and what is left when `cancelAndDrain` has returned.
structure Sound (config : WorkClass → LaneConfig) (s : Scheduler) : Prop where
  bounded : ∀ c, (s.lanes c).queue.length + (s.lanes c).active.length ≤
    (config c).workers + (config c).queuedCapacity
  events : ∀ c newer event older, (s.lanes c).history = newer ++ event :: older →
    Lawful event older
  cancel_owner : ∀ owner id, .cancelled owner id true ∈ s.answers →
    (∃ c task, s.Accepted c task ∧ task.id = id ∧ task.owner = owner) ∧
    ∀ c task, s.Accepted c task → task.id = id → task.owner = owner
  drained : ∀ owner before, .drained owner before ∈ s.answers →
    ∀ c, ∀ task ∈ (s.lanes c).tasks, task.id ∉ before

theorem Inv.sound (h : Inv config s) : Sound config s where
  bounded := by
    intro c
    obtain ⟨hw, hq⟩ := h.sizes c
    rw [← hw, ← hq]
    exact (h.lanes c).size
  events := fun c => explained_iff.mp (h.lanes c).explained
  cancel_owner := by
    intro owner id ha
    obtain ⟨c, task, hacc, hid, ho⟩ := h.cancelled owner id ha
    refine ⟨⟨c, task, hacc, hid, ho⟩, fun c' task' hacc' hid' => ?_⟩
    obtain ⟨-, rfl⟩ := h.unique c c' task task' hacc hacc' (hid.trans hid'.symm)
    exact ho
  drained := fun owner before ha c => (h.drained owner before ha).2 c trivial

theorem scheduler_sound (config : WorkClass → LaneConfig) (now : ℕ) (steps : List Step)
    (s : Scheduler) (hp : Transition.path step (Scheduler.start config now) steps = some s) :
    Sound config s := by
  have hi : Inv config s := Transition.path_invariant_of_step (Inv config)
    (fun _ i _ h ht => h.step i ht) (Inv.start config now) hp
  exact hi.sound

-- A delayed task and one that is due at once; the owner is cancelled while the second runs.
def drainedRun : List Step :=
  [.submit "a" .Media true ⟨5, 0⟩, .submit "a" .Media true ⟨0, 7⟩, .advance 0, .advance 0,
    .lane .Media .take, .lane .Media (.checkDeadline 2), .lane .Media (.checkStop 2),
    .cancel "b" 2, .advance 0, .advance 0, .advance 0, .advance 0, .advance 0, .advance 0,
    .cancelAndDrain "a", .advance 0, .advance 0, .advance 0, .advance 0, .advance 0, .advance 0,
    .lane .Media (.complete 2), .lane .Media (.erase 2), .advance 0, .advance 0, .advance 0,
    .advance 0, .advance 0]

theorem scheduler_sound_drainedRun : ∃ s,
    Transition.path step (Scheduler.start lanesOfProgram 100) drainedRun = some s ∧
    s.answers = [.drained "a" [2, 1], .cancelled "b" 2 false, .submitted (some 2),
      .submitted (some 1)] ∧ ranIds (s.lanes .Media).history = [2] ∧ Sound lanesOfProgram s := by
  obtain ⟨s, hp, ha, hr⟩ := Transition.exists_path step (Scheduler.start lanesOfProgram 100)
    drainedRun (fun s => s.answers = [.drained "a" [2, 1], .cancelled "b" 2 false,
      .submitted (some 2), .submitted (some 1)] ∧ ranIds (s.lanes .Media).history = [2])
    (by decide)
  exact ⟨s, hp, ha, hr, scheduler_sound lanesOfProgram 100 drainedRun s hp⟩

end Scheduler

end Glider.Work

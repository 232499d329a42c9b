import Mathlib.Data.Int.Notation
import Mathlib.Data.List.Nodup
import Mathlib.Data.List.Perm.Subperm
import Glider.Lib.History
import Glider.Lib.Transition

namespace Glider.Work

open Glider.Lib

-- What a task is from its submission on. A task without a deadline has none. `order` is the number
-- of tasks that its lane accepted before it.
structure Task where
  id : ℕ
  owner : String
  due : ℕ
  deadline : Option ℕ
  order : ℕ

-- What a worker does with the task it took: it reads the clock for the deadline, checks the stop
-- request, runs the work, and takes the task out of the active table.
inductive Phase where
  | taken
  | checked (started : ℕ)
  | running
  | finished
deriving DecidableEq

structure Active where
  task : Task
  stop : Bool
  deadlineReported : Bool
  phase : Phase

inductive Event where
  | accepted (task : Task)
  | rejected (task : Task)
  | took (task : Task) (rest : List Task)
  | cancel (owner : String) (id : ℕ) (result : Bool)
  | cancelOwner (owner : String) (ids : List ℕ)
  | ran (task : Task) (started now : ℕ)

-- A queued task was never asked to stop: what cancels it removes it. Every entry of `active`
-- belongs to the worker that took it. `history` is newest first.
structure Lane where
  workers : ℕ
  queuedCapacity : ℕ
  defaultDeadline : ℤ
  stopping : Bool
  queue : List Task
  active : List Active
  history : List Event

def acceptedTasks (history : List Event) : List Task :=
  history.filterMap fun
    | .accepted task => some task
    | _ => none

def ranIds (history : List Event) : List ℕ :=
  history.filterMap fun
    | .ran task _ _ => some task.id
    | _ => none

def cancelledIds (history : List Event) : List ℕ :=
  history.flatMap fun
    | .cancel _ id true => [id]
    | .cancelOwner _ ids => ids
    | _ => []

namespace Lane

def create (workers queuedCapacity : ℕ) (defaultDeadline : ℤ) : Lane :=
  ⟨workers, queuedCapacity, defaultDeadline, false, [], [], []⟩

def maximumOutstanding (l : Lane) : ℕ := l.workers + l.queuedCapacity

def depth (l : Lane) : ℕ := l.queue.length + l.active.length

-- The multimap puts a task behind all that are due no later.
def emplace (task : Task) : List Task → List Task
  | [] => [task]
  | head :: rest => if head.due ≤ task.due then head :: emplace task rest else task :: head :: rest

def submit (l : Lane) (id : ℕ) (owner : String) (due : ℕ) (deadline : Option ℕ) : Bool × Lane :=
  let task : Task := ⟨id, owner, due, deadline, (acceptedTasks l.history).length⟩
  if l.stopping ∨ l.maximumOutstanding ≤ l.depth then
    (false, { l with history := .rejected task :: l.history })
  else
    (true, { l with queue := emplace task l.queue, history := .accepted task :: l.history })

def requestStop (a : Active) : Active := { a with stop := true }

def onActive (l : Lane) (id : ℕ) (f : Active → Active) : List Active :=
  l.active.map fun a => if a.task.id = id then f a else a

def cancel (l : Lane) (owner : String) (id : ℕ) : Bool × Lane :=
  if l.queue.any fun task => task.id == id && task.owner == owner then
    (true, { l with queue := l.queue.eraseP fun task => task.id == id && task.owner == owner,
                    history := .cancel owner id true :: l.history })
  else if (l.active.find? fun a => a.task.id == id).any fun a => a.task.owner == owner then
    (true, { l with active := l.onActive id requestStop,
                    history := .cancel owner id true :: l.history })
  else
    (false, { l with history := .cancel owner id false :: l.history })

def cancelOwner (l : Lane) (owner : String) : Lane :=
  let ids := (l.queue.filter fun task => task.owner == owner).map Task.id ++
    (l.active.filter fun a => a.task.owner == owner).map fun a => a.task.id
  { l with queue := l.queue.filter fun task => !(task.owner == owner),
           active := l.active.map fun a => if a.task.owner == owner then requestStop a else a,
           history := .cancelOwner owner ids :: l.history }

-- What `drainOwner` waits for.
def drained (l : Lane) (owner : String) : Bool :=
  (l.queue.all fun task => !(task.owner == owner)) &&
    l.active.all fun a => !(a.task.owner == owner)

-- The worker loop. A free worker takes the first task once it is due.
def take (l : Lane) (now : ℕ) : Option Lane :=
  match l.queue with
  | [] => none
  | task :: rest =>
    if l.stopping = false ∧ l.active.length < l.workers ∧ task.due ≤ now then
      some { l with queue := rest, active := l.active ++ [⟨task, false, false, .taken⟩],
                    history := .took task rest :: l.history }
    else none

def expired (task : Task) (now : ℕ) : Bool := task.deadline.any (· ≤ now)

def checkDeadline (now : ℕ) (a : Active) : Active :=
  if expired a.task now then ⟨a.task, true, true, .checked now⟩
  else { a with phase := .checked now }

def lookup (l : Lane) (id : ℕ) : Option Active := l.active.find? fun a => a.task.id == id

inductive Step where
  | submit (id : ℕ) (owner : String) (due : ℕ) (deadline : Option ℕ)
  | cancel (owner : String) (id : ℕ)
  | cancelOwner (owner : String)
  | take
  | checkDeadline (id : ℕ)
  | checkStop (id : ℕ)
  | complete (id : ℕ)
  | erase (id : ℕ)
  | monitor
  | shutDown

-- One pass of the deadline monitor over the active table.
def monitor (now : ℕ) (a : Active) : Active :=
  if expired a.task now = false ∨ a.deadlineReported then a
  else { a with stop := true, deadlineReported := true }

def step (now : ℕ) : Transition Lane Step
  | l, .submit id owner due deadline => some (l.submit id owner due deadline).2
  | l, .cancel owner id => some (l.cancel owner id).2
  | l, .cancelOwner owner => some (l.cancelOwner owner)
  | l, .take => l.take now
  | l, .checkDeadline id =>
    match l.lookup id with
    | some ⟨_, _, _, .taken⟩ => some { l with active := l.onActive id (Lane.checkDeadline now) }
    | _ => none
  | l, .checkStop id =>
    match l.lookup id with
    | some ⟨_, true, _, .checked _⟩ =>
      some { l with active := l.onActive id fun a => { a with phase := .finished } }
    | some ⟨task, false, _, .checked started⟩ =>
      some { l with active := l.onActive id fun a => { a with phase := .running },
                    history := .ran task started now :: l.history }
    | _ => none
  | l, .complete id =>
    match l.lookup id with
    | some ⟨_, _, _, .running⟩ =>
      some { l with active := l.onActive id fun a => { a with phase := .finished } }
    | _ => none
  | l, .erase id =>
    match l.lookup id with
    | some ⟨_, _, _, .finished⟩ =>
      some { l with active := l.active.filter fun a => a.task.id != id }
    | _ => none
  | l, .monitor => some { l with active := l.active.map (Lane.monitor now) }
  | l, .shutDown => some { l with stopping := true, queue := [],
                                  active := l.active.map requestStop }

def tasks (l : Lane) : List Task := l.queue ++ l.active.map Active.task

end Lane

-- Earlier in the queue: due earlier, or at the same time and accepted earlier.
def Before (a b : Task) : Prop := a.due < b.due ∨ a.due = b.due ∧ a.order < b.order

-- What the lane promises about an event, given the events before it.
def Lawful : Event → List Event → Prop
  | .accepted task, older => task.order = (acceptedTasks older).length ∧
      task.id ∉ (acceptedTasks older).map Task.id
  | .took task rest, _ => ∀ other ∈ rest, Before task other
  | .cancel owner id true, older => ∃ task ∈ acceptedTasks older, task.id = id ∧ task.owner = owner
  | .ran task started now, older => task ∈ acceptedTasks older ∧ task.id ∉ ranIds older ∧
      task.due ≤ started ∧ started ≤ now ∧ (∀ deadline, task.deadline = some deadline →
        started < deadline) ∧ task.id ∉ cancelledIds older
  | _, _ => True

structure ActiveOk (now : ℕ) (history : List Event) (a : Active) : Prop where
  due : a.task.due ≤ now
  cancelled : a.task.id ∈ cancelledIds history → a.stop = true
  fresh : (a.phase = .taken ∨ ∃ started, a.phase = .checked started) → a.task.id ∉ ranIds history
  timely : ∀ started, a.phase = .checked started → a.task.due ≤ started ∧ started ≤ now ∧
    (a.stop = false → ∀ deadline, a.task.deadline = some deadline → started < deadline)

namespace Lane

structure Inv (now : ℕ) (l : Lane) : Prop where
  size : l.depth ≤ l.maximumOutstanding
  sorted : l.queue.Pairwise Before
  nodup : (l.tasks.map Task.id).Nodup
  known : ∀ task ∈ l.tasks, task ∈ acceptedTasks l.history
  waiting : ∀ task ∈ l.queue, task.id ∉ cancelledIds l.history ∧ task.id ∉ ranIds l.history
  active : ∀ a ∈ l.active, ActiveOk now l.history a
  past : ∀ id, id ∈ cancelledIds l.history ∨ id ∈ ranIds l.history →
    id ∈ (acceptedTasks l.history).map Task.id
  orders : ∀ task ∈ acceptedTasks l.history, task.order < (acceptedTasks l.history).length
  explained : Explained Lawful l.history

variable {now : ℕ} {l m : Lane}

theorem Inv.create (now workers queuedCapacity : ℕ) (defaultDeadline : ℤ) :
    Inv now (create workers queuedCapacity defaultDeadline) where
  size := Nat.zero_le _
  sorted := List.Pairwise.nil
  nodup := List.nodup_nil
  known := by simp [Lane.create, tasks]
  waiting := by simp [Lane.create]
  active := by simp [Lane.create]
  past := by simp [Lane.create, cancelledIds, ranIds]
  orders := by simp [Lane.create, acceptedTasks]
  explained := trivial

theorem Inv.mono (h : Inv now l) {later : ℕ} (hle : now ≤ later) : Inv later l := by
  refine ⟨h.size, h.sorted, h.nodup, h.known, h.waiting, ?_, h.past, h.orders, h.explained⟩
  intro a ha
  have ok := h.active a ha
  refine ⟨Nat.le_trans ok.due hle, ok.cancelled, ok.fresh, fun started hp => ?_⟩
  obtain ⟨h1, h2, h3⟩ := ok.timely started hp
  exact ⟨h1, Nat.le_trans h2 hle, h3⟩

theorem Inv.inj (h : Inv now l) {a b : Task} (ha : a ∈ l.tasks) (hb : b ∈ l.tasks)
    (hid : a.id = b.id) : a = b := List.inj_on_of_nodup_map h.nodup ha hb hid

theorem mem_tasks_of_queue {task : Task} (h : task ∈ l.queue) : task ∈ l.tasks :=
  List.mem_append_left _ h

theorem mem_tasks_of_active {a : Active} (h : a ∈ l.active) : a.task ∈ l.tasks :=
  List.mem_append_right _ (List.mem_map_of_mem h)

theorem Inv.nodup_active (h : Inv now l) : (l.active.map fun a => a.task.id).Nodup := by
  have hn := h.nodup
  rw [tasks, List.map_append, List.map_map] at hn
  exact (List.nodup_append.mp hn).2.1

theorem Inv.active_inj (h : Inv now l) {a b : Active} (ha : a ∈ l.active) (hb : b ∈ l.active)
    (hid : a.task.id = b.task.id) : a = b := List.inj_on_of_nodup_map h.nodup_active ha hb hid

-- A queued task and an active one never share an id.
theorem Inv.queue_ne_active (h : Inv now l) {task : Task} {a : Active} (ht : task ∈ l.queue)
    (ha : a ∈ l.active) : task.id ≠ a.task.id := by
  have hn := h.nodup
  rw [tasks, List.map_append, List.map_map] at hn
  exact (List.nodup_append.mp hn).2.2 _ (List.mem_map_of_mem ht) _
    (List.mem_map_of_mem (f := Task.id ∘ Active.task) ha)

theorem lookup_eq_some {id : ℕ} {a : Active} (h : l.lookup id = some a) :
    a ∈ l.active ∧ a.task.id = id :=
  ⟨List.mem_of_find?_eq_some h, by simpa using List.find?_some h⟩

-- Tasks are dropped or asked to stop or moved on, and none is accepted. All steps but the acceptance
-- of a task and its move to the active table are of this kind.
theorem Inv.narrow (h : Inv now l) {stopping : Bool} {queue : List Task} {active : List Active}
    {history : List Event} (hqueue : queue.Sublist l.queue)
    (htasks : (active.map Active.task).Sublist (l.active.map Active.task))
    (hacc : acceptedTasks history = acceptedTasks l.history)
    (hwait : ∀ task ∈ queue, task.id ∉ cancelledIds history ∧ task.id ∉ ranIds history)
    (hactive : ∀ a ∈ active, ActiveOk now history a)
    (hpast : ∀ id, id ∈ cancelledIds history ∨ id ∈ ranIds history →
      id ∈ (acceptedTasks l.history).map Task.id)
    (hexplained : Explained Lawful history) :
    Inv now { l with stopping := stopping, queue := queue, active := active, history := history } := by
  have hsub : (queue ++ active.map Active.task).Sublist l.tasks := hqueue.append htasks
  refine ⟨?_, h.sorted.sublist hqueue, h.nodup.sublist (hsub.map Task.id), ?_, hwait, hactive,
    hacc ▸ hpast, hacc ▸ h.orders, hexplained⟩
  · have hs := h.size
    have hq := hqueue.length_le
    have ha := htasks.length_le
    simp only [depth, maximumOutstanding, List.length_map] at hs ha ⊢
    omega
  · intro task ht
    exact hacc ▸ h.known task (hsub.subset ht)

theorem map_task_map {active : List Active} {f : Active → Active} (hf : ∀ a, (f a).task = a.task) :
    (active.map f).map Active.task = active.map Active.task := by
  rw [List.map_map]
  exact List.map_congr_left fun a _ => hf a

-- The entry of one id moves on.
theorem Inv.on_active (h : Inv now l) {id : ℕ} {found : Active} {f : Active → Active}
    (hfound : l.lookup id = some found) (hf : ∀ a, (f a).task = a.task)
    (hok : ActiveOk now l.history (f found)) :
    Inv now { l with active := l.onActive id f } := by
  obtain ⟨hmem, hid⟩ := lookup_eq_some hfound
  refine h.narrow (List.Sublist.refl _) ?_ rfl h.waiting ?_ h.past h.explained
  · unfold onActive
    rw [map_task_map]
    intro a
    split
    · exact hf a
    · rfl
  · intro a ha
    obtain ⟨b, hb, rfl⟩ := List.mem_map.mp ha
    by_cases he : b.task.id = id
    · rw [if_pos he, h.active_inj hb hmem (he.trans hid.symm)]
      exact hok
    · rw [if_neg he]
      exact h.active b hb

theorem mem_emplace {task other : Task} {queue : List Task} :
    other ∈ emplace task queue ↔ other = task ∨ other ∈ queue := by
  induction queue with
  | nil => simp [emplace]
  | cons head rest ih =>
    unfold emplace
    split
    · rw [List.mem_cons, ih, List.mem_cons]
      exact or_left_comm
    · exact List.mem_cons

theorem emplace_perm (task : Task) (queue : List Task) : (emplace task queue).Perm (task :: queue) := by
  induction queue with
  | nil => exact List.Perm.refl _
  | cons head rest ih =>
    unfold emplace
    split
    · exact (ih.cons head).trans (List.Perm.swap task head rest)
    · exact List.Perm.refl _

theorem emplace_sorted {task : Task} {queue : List Task} (h : queue.Pairwise Before)
    (horder : ∀ other ∈ queue, other.order < task.order) : (emplace task queue).Pairwise Before := by
  induction queue with
  | nil => exact List.pairwise_singleton _ _
  | cons head rest ih =>
    obtain ⟨hhead, hrest⟩ := List.pairwise_cons.mp h
    unfold emplace
    split
    next hle =>
      refine List.pairwise_cons.mpr ⟨?_, ih hrest fun o ho => horder o (List.mem_cons_of_mem _ ho)⟩
      intro other ho
      rcases mem_emplace.mp ho with rfl | ho
      · have hlt := horder head List.mem_cons_self
        unfold Before
        omega
      · exact hhead other ho
    next hlt =>
      refine List.pairwise_cons.mpr ⟨?_, h⟩
      intro other ho
      rcases List.mem_cons.mp ho with rfl | ho
      · exact .inl (Nat.lt_of_not_le hlt)
      · have hb := hhead other ho
        unfold Before at hb ⊢
        omega

-- An event that accepts, cancels and runs nothing.
theorem Inv.note (h : Inv now l) {event : Event}
    (hacc : acceptedTasks (event :: l.history) = acceptedTasks l.history)
    (hcancel : cancelledIds (event :: l.history) = cancelledIds l.history)
    (hran : ranIds (event :: l.history) = ranIds l.history) (hl : Lawful event l.history) :
    Inv now { l with history := event :: l.history } := by
  refine ⟨h.size, h.sorted, h.nodup, hacc ▸ h.known, ?_, ?_, ?_, hacc ▸ h.orders, hl, h.explained⟩
  · rw [hcancel, hran]
    exact h.waiting
  · intro a ha
    have ok := h.active a ha
    exact ⟨ok.due, hcancel ▸ ok.cancelled, hran ▸ ok.fresh, ok.timely⟩
  · rw [hcancel, hran, hacc]
    exact h.past

theorem acceptedTasks_accepted (task : Task) (history : List Event) :
    acceptedTasks (.accepted task :: history) = task :: acceptedTasks history := rfl

theorem Inv.submit (h : Inv now l) {id : ℕ} (hfresh : id ∉ (acceptedTasks l.history).map Task.id)
    (owner : String) (due : ℕ) (deadline : Option ℕ) :
    Inv now (l.submit id owner due deadline).2 := by
  unfold Lane.submit
  dsimp only
  split
  · exact h.note rfl rfl rfl trivial
  next hroom =>
    simp only [not_or, Nat.not_le] at hroom
    generalize htask : Task.mk id owner due deadline (acceptedTasks l.history).length = task
    have hid : task.id = id := by rw [← htask]
    have horder : task.order = (acceptedTasks l.history).length := by rw [← htask]
    have hnew : ∀ other ∈ l.tasks, other.id ≠ id := by
      intro other ho he
      exact hfresh (List.mem_map.mpr ⟨other, h.known other ho, he⟩)
    have hperm : (emplace task l.queue ++ l.active.map Active.task).Perm (task :: l.tasks) :=
      (emplace_perm task l.queue).append_right _
    refine ⟨?_, ?_, ?_, ?_, ?_, ?_, ?_, ?_, ⟨horder, hid ▸ hfresh⟩, h.explained⟩
    · have hlen := (emplace_perm task l.queue).length_eq
      have hlt := hroom.2
      simp only [depth, maximumOutstanding, List.length_cons] at hlt hlen ⊢
      omega
    · apply emplace_sorted h.sorted
      intro other ho
      rw [horder]
      exact h.orders other (h.known other (mem_tasks_of_queue ho))
    · apply (hperm.map Task.id).nodup_iff.mpr
      refine List.nodup_cons.mpr ⟨?_, h.nodup⟩
      intro hm
      obtain ⟨other, ho, he⟩ := List.mem_map.mp hm
      exact hnew other ho (he.trans hid)
    · intro other ho
      rw [acceptedTasks_accepted]
      rcases List.mem_cons.mp (hperm.subset ho) with rfl | ho
      · exact List.mem_cons_self
      · exact List.mem_cons_of_mem _ (h.known other ho)
    · intro other ho
      rcases mem_emplace.mp ho with rfl | ho
      · exact ⟨fun hc => hfresh (hid ▸ h.past _ (.inl hc)),
          fun hr => hfresh (hid ▸ h.past _ (.inr hr))⟩
      · exact h.waiting other ho
    · intro a ha
      have ok := h.active a ha
      exact ⟨ok.due, ok.cancelled, ok.fresh, ok.timely⟩
    · intro other ho
      exact List.mem_cons_of_mem _ (h.past other ho)
    · intro other ho
      rw [acceptedTasks_accepted, List.length_cons] at *
      rcases List.mem_cons.mp ho with rfl | ho
      · omega
      · have := h.orders other ho
        omega

theorem mem_cancelledIds_cancel {id other : ℕ} {owner : String} {history : List Event} :
    other ∈ cancelledIds (.cancel owner id true :: history) ↔
      other = id ∨ other ∈ cancelledIds history := by
  simp [cancelledIds]

-- Cancelling by id: whatever has the id is out of the queue or asked to stop.
theorem Inv.cancelled (h : Inv now l) {owner : String} {task : Task} {queue : List Task}
    {active : List Active} (ht : task ∈ l.tasks) (ho : task.owner = owner)
    (hqueue : queue.Sublist l.queue) (hq : ∀ other ∈ queue, other.id ≠ task.id)
    (htasks : active.map Active.task = l.active.map Active.task)
    (hactive : ∀ a ∈ active, (a.task.id = task.id → a.stop = true) ∧ ActiveOk now l.history a) :
    Inv now { l with queue := queue, active := active,
                     history := .cancel owner task.id true :: l.history } := by
  have hknown := h.known task ht
  refine h.narrow hqueue (htasks ▸ List.Sublist.refl _) rfl ?_ ?_ ?_
    ⟨⟨task, hknown, rfl, ho⟩, h.explained⟩
  · intro other hm
    obtain ⟨hc, hr⟩ := h.waiting other (hqueue.subset hm)
    refine ⟨fun hcan => ?_, hr⟩
    rcases mem_cancelledIds_cancel.mp hcan with he | hcan
    · exact hq other hm he
    · exact hc hcan
  · intro a ha
    obtain ⟨hstop, ok⟩ := hactive a ha
    refine ⟨ok.due, fun hcan => ?_, ok.fresh, ok.timely⟩
    rcases mem_cancelledIds_cancel.mp hcan with he | hcan
    · exact hstop he
    · exact ok.cancelled hcan
  · rintro other (hcan | hr)
    · rcases mem_cancelledIds_cancel.mp hcan with rfl | hcan
      · exact List.mem_map_of_mem hknown
      · exact h.past other (.inl hcan)
    · exact h.past other (.inr hr)

theorem requestStop_ok {history : List Event} {a : Active} (h : ActiveOk now history a) :
    ActiveOk now history (requestStop a) := by
  refine ⟨h.due, fun _ => rfl, h.fresh, fun started hp => ?_⟩
  obtain ⟨h1, h2, -⟩ := h.timely started hp
  exact ⟨h1, h2, fun hs => absurd hs nofun⟩

theorem Inv.cancel (h : Inv now l) (owner : String) (id : ℕ) : Inv now (l.cancel owner id).2 := by
  unfold Lane.cancel
  split
  next hany =>
    -- The one queued task of that id is erased.
    obtain ⟨task, ht, hp⟩ := List.any_eq_true.mp hany
    obtain ⟨rfl, ho⟩ : task.id = id ∧ task.owner = owner := by simpa using hp
    refine h.cancelled (mem_tasks_of_queue ht) ho List.eraseP_sublist ?_ rfl ?_
    · obtain ⟨found, front, back, -, hp, hq, he⟩ :=
        List.exists_of_eraseP (p := fun t => t.id == task.id && t.owner == owner) ht hp
      have hid : found.id = task.id := by
        simp only [Bool.and_eq_true, beq_iff_eq] at hp
        exact hp.1
      have hn : ((front ++ found :: back).map Task.id).Nodup := by
        have hn := h.nodup
        rw [tasks, List.map_append, hq] at hn
        exact (List.nodup_append.mp hn).1
      rw [List.map_append, List.map_cons, List.nodup_middle, ← List.map_append, hid] at hn
      rw [he]
      intro other hm heq
      exact (List.nodup_cons.mp hn).1 (heq ▸ List.mem_map_of_mem hm)
    · intro a ha
      exact ⟨fun he => absurd he.symm (h.queue_ne_active ht ha), h.active a ha⟩
  · split
    next hnone hany =>
      obtain ⟨a, hfind, ho⟩ := (Option.any_eq_true _ _).mp hany
      obtain ⟨ha, rfl⟩ := lookup_eq_some (l := l) hfind
      refine h.cancelled (mem_tasks_of_active ha) (by simpa using ho) (List.Sublist.refl _) ?_ ?_ ?_
      · exact fun other hm => h.queue_ne_active hm ha
      · unfold onActive
        rw [map_task_map]
        intro b
        split <;> rfl
      · intro b hb
        obtain ⟨c, hc, rfl⟩ := List.mem_map.mp hb
        by_cases he : c.task.id = a.task.id
        · rw [if_pos he]
          exact ⟨fun _ => rfl, requestStop_ok (h.active c hc)⟩
        · rw [if_neg he]
          exact ⟨fun hid => absurd hid he, h.active c hc⟩
    · exact h.note rfl rfl rfl trivial

theorem exists_of_cancel {owner : String} {id : ℕ} (h : (l.cancel owner id).1 = true) :
    ∃ task ∈ l.tasks, task.id = id ∧ task.owner = owner := by
  unfold Lane.cancel at h
  split at h
  next hany =>
    obtain ⟨task, ht, hp⟩ := List.any_eq_true.mp hany
    exact ⟨task, mem_tasks_of_queue ht, by simpa using hp⟩
  · split at h
    next hnone hany =>
      obtain ⟨a, hfind, ho⟩ := (Option.any_eq_true _ _).mp hany
      obtain ⟨ha, hid⟩ := lookup_eq_some (l := l) hfind
      exact ⟨a.task, mem_tasks_of_active ha, hid, by simpa using ho⟩
    · exact absurd h Bool.false_ne_true

theorem Inv.cancelOwner (h : Inv now l) (owner : String) : Inv now (l.cancelOwner owner) := by
  unfold Lane.cancelOwner
  dsimp only
  generalize hids : (l.queue.filter fun task => task.owner == owner).map Task.id ++
    (l.active.filter fun a => a.task.owner == owner).map (fun a => a.task.id) = ids
  have hmem : ∀ id ∈ ids, ∃ task ∈ l.tasks, task.owner = owner ∧ task.id = id := by
    intro id hid
    rw [← hids] at hid
    rcases List.mem_append.mp hid with hid | hid
    · obtain ⟨task, ht, rfl⟩ := List.mem_map.mp hid
      obtain ⟨ht, ho⟩ := List.mem_filter.mp ht
      exact ⟨task, mem_tasks_of_queue ht, by simpa using ho, rfl⟩
    · obtain ⟨a, ha, rfl⟩ := List.mem_map.mp hid
      obtain ⟨ha, ho⟩ := List.mem_filter.mp ha
      exact ⟨a.task, mem_tasks_of_active ha, by simpa using ho, rfl⟩
  have howner : ∀ task ∈ l.tasks, task.id ∈ ids → task.owner = owner := by
    intro task ht hid
    obtain ⟨other, ho, hown, heq⟩ := hmem task.id hid
    rw [← h.inj ho ht heq]
    exact hown
  have hcan : ∀ id, id ∈ cancelledIds (.cancelOwner owner ids :: l.history) ↔
      id ∈ ids ∨ id ∈ cancelledIds l.history := by
    intro id
    simp [cancelledIds]
  refine h.narrow List.filter_sublist ?_ rfl ?_ ?_ ?_ ⟨trivial, h.explained⟩
  · rw [map_task_map]
    intro a
    split <;> rfl
  · intro task ht
    obtain ⟨ht, hne⟩ := List.mem_filter.mp ht
    obtain ⟨hc, hr⟩ := h.waiting task ht
    refine ⟨fun hm => ?_, hr⟩
    rcases (hcan _).mp hm with hm | hm
    · have ho := howner task (mem_tasks_of_queue ht) hm
      simp [ho] at hne
    · exact hc hm
  · intro b hb
    obtain ⟨a, ha, rfl⟩ := List.mem_map.mp hb
    have ok := h.active a ha
    by_cases ho : a.task.owner = owner
    · have ok' := requestStop_ok ok
      simp only [ho, beq_self_eq_true, if_true]
      exact ⟨ok'.due, fun _ => rfl, ok'.fresh, ok'.timely⟩
    · have hf : (a.task.owner == owner) = false := by simpa using ho
      simp only [hf, Bool.false_eq_true, if_false]
      refine ⟨ok.due, fun hm => ?_, ok.fresh, ok.timely⟩
      rcases (hcan _).mp hm with hm | hm
      · exact absurd (howner a.task (mem_tasks_of_active ha) hm) ho
      · exact ok.cancelled hm
  · rintro id (hm | hm)
    · rcases (hcan _).mp hm with hm | hm
      · obtain ⟨task, ht, -, rfl⟩ := hmem id hm
        exact List.mem_map_of_mem (h.known task ht)
      · exact h.past id (.inl hm)
    · exact h.past id (.inr hm)

theorem Inv.take (h : Inv now l) (hm : l.take now = some m) : Inv now m := by
  unfold Lane.take at hm
  split at hm
  · exact absurd hm nofun
  next task rest hq =>
    obtain ⟨⟨-, hfree, hdue⟩, rfl⟩ := Transition.enabled_eq_some hm
    obtain ⟨hfirst, hrest⟩ := List.pairwise_cons.mp (hq ▸ h.sorted)
    have hmem : task ∈ l.queue := hq ▸ List.mem_cons_self
    have hperm : (rest ++ (l.active ++ [Active.mk task false false .taken]).map Active.task).Perm
        l.tasks := by
      rw [tasks, hq, List.map_append, ← List.append_assoc]
      exact List.perm_append_singleton task _
    refine ⟨?_, hrest, ?_, ?_, ?_, ?_, h.past, h.orders, hfirst, h.explained⟩
    · have hs := h.size
      simp only [depth, maximumOutstanding, hq, List.length_cons, List.length_append,
        List.length_nil] at hs ⊢
      omega
    · exact (hperm.map Task.id).nodup_iff.mpr h.nodup
    · exact fun other ho => h.known other (hperm.subset ho)
    · exact fun other ho => h.waiting other (hq ▸ List.mem_cons_of_mem _ ho)
    · intro a ha
      rcases List.mem_append.mp ha with ha | ha
      · have ok := h.active a ha
        exact ⟨ok.due, ok.cancelled, ok.fresh, ok.timely⟩
      · rw [List.mem_singleton.mp ha]
        obtain ⟨hc, hr⟩ := h.waiting task hmem
        exact ⟨hdue, fun hcan => absurd hcan hc, fun _ => hr, fun _ hp => absurd hp nofun⟩

theorem expired_eq_false {task : Task} (h : expired task now = false) {deadline : ℕ}
    (hd : task.deadline = some deadline) : now < deadline := by
  simpa [expired, hd] using h

theorem Inv.checkDeadline (h : Inv now l) {id : ℕ} {found : Active}
    (hfound : l.lookup id = some found) (hp : found.phase = .taken) :
    Inv now { l with active := l.onActive id (Lane.checkDeadline now) } := by
  have ok := h.active found (lookup_eq_some hfound).1
  refine h.on_active hfound (fun a => ?_) ?_
  · unfold Lane.checkDeadline
    split <;> rfl
  · unfold Lane.checkDeadline
    cases he : expired found.task now with
    | true =>
      rw [if_pos rfl]
      refine ⟨ok.due, fun _ => rfl, fun _ => ok.fresh (.inl hp), fun started hs => ?_⟩
      obtain rfl := Phase.checked.inj hs
      exact ⟨ok.due, Nat.le_refl _, fun hstop => absurd hstop nofun⟩
    | false =>
      rw [if_neg Bool.false_ne_true]
      refine ⟨ok.due, ok.cancelled, fun _ => ok.fresh (.inl hp), fun started hs => ?_⟩
      obtain rfl := Phase.checked.inj hs
      exact ⟨ok.due, Nat.le_refl _, fun _ _ hd => expired_eq_false he hd⟩

-- An entry whose worker is past its start check makes no further promise.
theorem Inv.pass (h : Inv now l) {id : ℕ} {found : Active} (hfound : l.lookup id = some found)
    {phase : Phase} (hphase : phase = .running ∨ phase = .finished) :
    Inv now { l with active := l.onActive id fun a => { a with phase := phase } } := by
  have ok := h.active found (lookup_eq_some hfound).1
  refine h.on_active hfound (fun _ => rfl) ⟨ok.due, ok.cancelled, ?_, ?_⟩
  · rintro (hp | ⟨started, hp⟩) <;> rcases hphase with rfl | rfl <;> exact absurd hp nofun
  · intro started hp
    rcases hphase with rfl | rfl <;> exact absurd hp nofun

theorem mem_ranIds_ran {task : Task} {started at' id : ℕ} {history : List Event} :
    id ∈ ranIds (.ran task started at' :: history) ↔ id = task.id ∨ id ∈ ranIds history := by
  simp [ranIds]

theorem Inv.runs (h : Inv now l) {id started : ℕ} {found : Active}
    (hfound : l.lookup id = some found) (hp : found.phase = .checked started)
    (hstop : found.stop = false) :
    Inv now { l with active := l.onActive id fun a => { a with phase := .running },
                     history := .ran found.task started now :: l.history } := by
  obtain ⟨hmem, rfl⟩ := lookup_eq_some hfound
  have ok := h.active found hmem
  obtain ⟨hdue, hnow, hdeadline⟩ := ok.timely started hp
  have hknown := h.known _ (mem_tasks_of_active hmem)
  have hlaw : Lawful (.ran found.task started now) l.history :=
    ⟨hknown, ok.fresh (.inr ⟨started, hp⟩), hdue, hnow, hdeadline hstop,
      fun hc => absurd (hstop.symm.trans (ok.cancelled hc)) Bool.false_ne_true⟩
  refine h.narrow (List.Sublist.refl _) ?_ rfl ?_ ?_ ?_ ⟨hlaw, h.explained⟩
  · unfold onActive
    rw [map_task_map]
    intro a
    split <;> rfl
  · intro task ht
    obtain ⟨hc, hr⟩ := h.waiting task ht
    refine ⟨hc, fun hm => ?_⟩
    rcases mem_ranIds_ran.mp hm with he | hm
    · exact h.queue_ne_active ht hmem he
    · exact hr hm
  · intro b hb
    obtain ⟨a, ha, rfl⟩ := List.mem_map.mp hb
    have oka := h.active a ha
    by_cases he : a.task.id = found.task.id
    · rw [if_pos he]
      refine ⟨oka.due, oka.cancelled, ?_, fun _ hx => by cases hx⟩
      rintro (hx | ⟨_, hx⟩) <;> cases hx
    · rw [if_neg he]
      refine ⟨oka.due, oka.cancelled, fun hx hm => ?_, oka.timely⟩
      rcases mem_ranIds_ran.mp hm with heq | hm
      · exact he heq
      · exact oka.fresh hx hm
  · rintro other (hc | hr)
    · exact h.past other (.inl hc)
    · rcases mem_ranIds_ran.mp hr with rfl | hr
      · exact List.mem_map_of_mem hknown
      · exact h.past other (.inr hr)

theorem Inv.monitor (h : Inv now l) :
    Inv now { l with active := l.active.map (Lane.monitor now) } := by
  refine h.narrow (List.Sublist.refl _) ?_ rfl h.waiting ?_ h.past h.explained
  · rw [map_task_map]
    intro a
    unfold Lane.monitor
    split <;> rfl
  · intro b hb
    obtain ⟨a, ha, rfl⟩ := List.mem_map.mp hb
    have ok := h.active a ha
    unfold Lane.monitor
    split
    · exact ok
    · have ok' := requestStop_ok ok
      exact ⟨ok'.due, ok'.cancelled, ok'.fresh, ok'.timely⟩

theorem Inv.shutDown (h : Inv now l) :
    Inv now { l with stopping := true, queue := [], active := l.active.map requestStop } := by
  refine h.narrow (List.nil_sublist _) ?_ rfl (fun _ ht => absurd ht List.not_mem_nil) ?_ h.past
    h.explained
  · rw [map_task_map]
    exact fun _ => rfl
  · intro b hb
    obtain ⟨a, ha, rfl⟩ := List.mem_map.mp hb
    exact requestStop_ok (h.active a ha)

theorem Inv.erase (h : Inv now l) (id : ℕ) :
    Inv now { l with active := l.active.filter fun a => a.task.id != id } :=
  h.narrow (List.Sublist.refl _) (List.filter_sublist.map _) rfl h.waiting
    (fun a ha => h.active a (List.mem_of_mem_filter ha)) h.past h.explained

-- An id that is submitted was never accepted by the lane before.
def Fresh (l : Lane) : Step → Prop
  | .submit id _ _ _ => id ∉ (acceptedTasks l.history).map Task.id
  | _ => True

theorem Inv.step (h : Inv now l) (i : Step) (hf : l.Fresh i) (hm : step now l i = some m) :
    Inv now m := by
  cases i with
  | submit id owner due deadline =>
    obtain rfl := Option.some_inj.mp hm
    exact h.submit hf owner due deadline
  | cancel owner id =>
    obtain rfl := Option.some_inj.mp hm
    exact h.cancel owner id
  | cancelOwner owner =>
    obtain rfl := Option.some_inj.mp hm
    exact h.cancelOwner owner
  | take => exact h.take hm
  | checkDeadline id =>
    simp only [Lane.step] at hm
    split at hm
    next hfound =>
      obtain rfl := Option.some_inj.mp hm
      exact h.checkDeadline hfound rfl
    · exact absurd hm nofun
  | checkStop id =>
    simp only [Lane.step] at hm
    split at hm
    next hfound =>
      obtain rfl := Option.some_inj.mp hm
      exact h.pass hfound (.inr rfl)
    next hfound =>
      obtain rfl := Option.some_inj.mp hm
      exact h.runs hfound rfl rfl
    · exact absurd hm nofun
  | complete id =>
    simp only [Lane.step] at hm
    split at hm
    next hfound =>
      obtain rfl := Option.some_inj.mp hm
      exact h.pass hfound (.inr rfl)
    · exact absurd hm nofun
  | erase id =>
    simp only [Lane.step] at hm
    split at hm
    · obtain rfl := Option.some_inj.mp hm
      exact h.erase id
    · exact absurd hm nofun
  | monitor =>
    obtain rfl := Option.some_inj.mp hm
    exact h.monitor
  | shutDown =>
    obtain rfl := Option.some_inj.mp hm
    exact h.shutDown

-- What a step can add to the lane and to its record: only a submission adds a task, and only its own.
structure Grows (l m : Lane) (i : Step) : Prop where
  workers : m.workers = l.workers
  capacity : m.queuedCapacity = l.queuedCapacity
  tasks : m.tasks.Subperm l.tasks ∨ ∃ task due deadline,
    i = .submit task.id task.owner due deadline ∧ m.tasks.Perm (task :: l.tasks)
  accepted : acceptedTasks m.history = acceptedTasks l.history ∨
    ∃ task owner due deadline, i = .submit task.id owner due deadline ∧
      acceptedTasks m.history = task :: acceptedTasks l.history

theorem Grows.of_sublist {i : Step} (hw : m.workers = l.workers)
    (hc : m.queuedCapacity = l.queuedCapacity) (hq : m.queue.Sublist l.queue)
    (ha : m.active.map Active.task = l.active.map Active.task)
    (hacc : acceptedTasks m.history = acceptedTasks l.history) : Grows l m i where
  workers := hw
  capacity := hc
  tasks := by
    refine .inl (List.Sublist.subperm ?_)
    rw [Lane.tasks, Lane.tasks, ha]
    exact hq.append_right _
  accepted := .inl hacc

theorem Grows.mem_tasks {i : Step} (h : Grows l m i) {task : Task} (ht : task ∈ m.tasks) :
    task ∈ l.tasks ∨ ∃ owner due deadline, i = .submit task.id owner due deadline := by
  rcases h.tasks with hsub | ⟨new, due, deadline, hi, hperm⟩
  · exact .inl (hsub.subset ht)
  · rcases List.mem_cons.mp (hperm.mem_iff.mp ht) with rfl | ht
    · exact .inr ⟨task.owner, due, deadline, hi⟩
    · exact .inl ht

theorem map_task_onActive {id : ℕ} {f : Active → Active} (hf : ∀ a, (f a).task = a.task) :
    (l.onActive id f).map Active.task = l.active.map Active.task := by
  unfold onActive
  rw [map_task_map]
  intro a
  split
  · exact hf a
  · rfl

theorem step_grows {i : Step} (hm : step now l i = some m) : Grows l m i := by
  cases i with
  | submit id owner due deadline =>
    obtain rfl := Option.some_inj.mp hm
    unfold Lane.submit
    dsimp only
    split
    · exact .of_sublist rfl rfl (List.Sublist.refl _) rfl rfl
    · exact ⟨rfl, rfl, .inr ⟨⟨id, owner, due, deadline, _⟩, due, deadline, rfl,
        (emplace_perm _ l.queue).append_right (l.active.map Active.task)⟩,
        .inr ⟨_, owner, due, deadline, rfl, rfl⟩⟩
  | cancel owner id =>
    obtain rfl := Option.some_inj.mp hm
    unfold Lane.cancel
    split
    · exact .of_sublist rfl rfl List.eraseP_sublist rfl rfl
    · split
      · exact .of_sublist rfl rfl (List.Sublist.refl _) (map_task_onActive fun _ => rfl) rfl
      · exact .of_sublist rfl rfl (List.Sublist.refl _) rfl rfl
  | cancelOwner owner =>
    obtain rfl := Option.some_inj.mp hm
    refine .of_sublist rfl rfl List.filter_sublist (map_task_map ?_) rfl
    intro a
    split <;> rfl
  | take =>
    simp only [Lane.step, Lane.take] at hm
    split at hm
    · exact absurd hm nofun
    next task rest hq =>
      obtain ⟨-, rfl⟩ := Transition.enabled_eq_some hm
      refine ⟨rfl, rfl, .inl (List.Perm.subperm ?_), .inl rfl⟩
      simp only [tasks, hq, List.map_append, List.map_cons, List.map_nil, List.cons_append]
      rw [← List.append_assoc]
      exact List.perm_append_singleton _ _
  | checkDeadline id =>
    simp only [Lane.step] at hm
    split at hm
    · obtain rfl := Option.some_inj.mp hm
      refine .of_sublist rfl rfl (List.Sublist.refl _) (map_task_onActive fun a => ?_) rfl
      unfold Lane.checkDeadline
      split <;> rfl
    · exact absurd hm nofun
  | checkStop id =>
    simp only [Lane.step] at hm
    split at hm
    · obtain rfl := Option.some_inj.mp hm
      exact .of_sublist rfl rfl (List.Sublist.refl _) (map_task_onActive fun _ => rfl) rfl
    · obtain rfl := Option.some_inj.mp hm
      exact .of_sublist rfl rfl (List.Sublist.refl _) (map_task_onActive fun _ => rfl) rfl
    · exact absurd hm nofun
  | complete id =>
    simp only [Lane.step] at hm
    split at hm
    · obtain rfl := Option.some_inj.mp hm
      exact .of_sublist rfl rfl (List.Sublist.refl _) (map_task_onActive fun _ => rfl) rfl
    · exact absurd hm nofun
  | erase id =>
    simp only [Lane.step] at hm
    split at hm
    · obtain rfl := Option.some_inj.mp hm
      refine ⟨rfl, rfl, .inl (List.Sublist.subperm ?_), .inl rfl⟩
      exact (List.filter_sublist.map Active.task).append_left l.queue
    · exact absurd hm nofun
  | monitor =>
    obtain rfl := Option.some_inj.mp hm
    refine .of_sublist rfl rfl (List.Sublist.refl _) (map_task_map ?_) rfl
    intro a
    unfold Lane.monitor
    split <;> rfl
  | shutDown =>
    obtain rfl := Option.some_inj.mp hm
    exact .of_sublist rfl rfl (List.nil_sublist _) (map_task_map fun _ => rfl) rfl

end Lane

end Glider.Work

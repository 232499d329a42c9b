import Glider.Lib.Slots
import Glider.Exec.Async

namespace Glider.Exec

open Glider.Lib

-- A call of `drain` that waits. `caller` is the worker in whose task the call is made; another
-- thread has none.
structure Drain where
  caller : Option ℕ
  owner : String
  currentAllowance : ℕ

inductive Event where
  | emplaced (command : String) (attempt : Attempt)
  | started (number : ℕ)
  | cancelled (owner : String)
  | drained (owner : String)

-- The executor with its workers. A task is known by its number in the order of acceptance. The
-- history is newest first.
structure Pool where
  async : Async ℕ
  workers : List (Option (Task ℕ))
  draining : List Drain
  accepted : ℕ
  history : List Event

namespace Pool

def start (count maxQueueSize : ℕ) : Pool :=
  ⟨Async.create maxQueueSize, List.replicate count none, [], 0, []⟩

inductive Step where
  | emplaceTaskIf (command : String) (admission : Admission)
  | cancel (owner : String)
  | drain (caller : Option ℕ) (owner : String)
  | drainReturn (call : ℕ)
  | takeFront (worker : ℕ)
  | finish (worker : ℕ)
  | stop

def runs (owner : String) : Option (Task ℕ) → Bool
  | none => false
  | some task => task.1 == owner

-- The tasks of an owner that workers have taken and not yet accounted for.
def running (p : Pool) (owner : String) : ℕ := p.workers.countP (runs owner)

def allowance (p : Pool) (owner : String) : Option ℕ → ℕ
  | none => 0
  | some worker => if p.workers[worker]?.any (runs owner) then 1 else 0

-- A worker inside `drain` does nothing else until that call returns.
def idle (p : Pool) (worker : ℕ) : Bool := p.draining.all fun d => d.caller != some worker

def callable (p : Pool) : Option ℕ → Bool
  | none => true
  | some worker => p.workers[worker]?.any Option.isSome && p.idle worker

def emplaceTaskIf (p : Pool) (command : String) (admission : Admission) : Pool :=
  let r := p.async.emplaceTaskIf command p.accepted admission
  { p with async := r.2,
           accepted := if r.1.result = some .Accepted then p.accepted + 1 else p.accepted,
           history := .emplaced command r.1 :: p.history }

def drain (p : Pool) (caller : Option ℕ) (owner : String) : Pool :=
  if owner.isEmpty then
    { p with history := .drained owner :: p.history }
  else
    { p with draining := p.draining ++ [⟨caller, owner, p.allowance owner caller⟩] }

def step : Transition Pool Step
  | p, .emplaceTaskIf command admission => some (p.emplaceTaskIf command admission)
  | p, .cancel owner =>
    some { p with async := (p.async.cancel owner).2, history := .cancelled owner :: p.history }
  | p, .drain caller owner => if p.callable caller then some (p.drain caller owner) else none
  | p, .drainReturn call =>
    match p.draining[call]? with
    | none => none
    | some d =>
      if p.async.drained d.owner d.currentAllowance then
        some { p with async := p.async.unblock d.owner, draining := p.draining.eraseIdx call,
                      history := .drained d.owner :: p.history }
      else
        none
  | p, .takeFront worker =>
    match p.workers[worker]?, p.async.takeFront with
    | some none, some (front, async) =>
      some { p with async := async, workers := p.workers.set worker (some front),
                    history := .started front.2 :: p.history }
    | _, _ => none
  | p, .finish worker =>
    match p.workers[worker]? with
    | some (some task) =>
      if p.idle worker then
        some { p with async := p.async.finish task.1, workers := p.workers.set worker none }
      else
        none
    | _ => none
  | p, .stop => some { p with async := { p.async with stopWorker := true } }

end Pool

-- The numbers of the tasks in the order in which they were started.
def startOrder (history : List Event) : List ℕ :=
  (history.filterMap fun
    | .started number => some number
    | _ => none).reverse

-- The calls of `cancel` that are still open: each `drain` that returns closes one, if there is one.
def openCancels (owner : String) : List Event → ℕ
  | [] => 0
  | .cancelled other :: older => openCancels owner older + if other = owner then 1 else 0
  | .drained other :: older => openCancels owner older - if other = owner then 1 else 0
  | _ :: older => openCancels owner older

namespace Pool

structure Inv (maxQueueSize : ℕ) (p : Pool) : Prop where
  size : p.async.maxQueueSize = maxQueueSize
  bound : p.async.tasks.length ≤ maxQueueSize
  order : (startOrder p.history ++ p.async.tasks.map Prod.snd).Pairwise (· < ·)
  fresh : ∀ n ∈ startOrder p.history ++ p.async.tasks.map Prod.snd, n < p.accepted
  active_positive : p.async.activeTasks.Positive
  active : ∀ owner, p.async.activeTasks.value owner = p.running owner
  blocked_positive : p.async.blockedOwners.Positive
  blocked : ∀ owner, owner ≠ "" →
    p.async.blockedOwners.value owner = openCancels owner p.history
  unqueued : ∀ owner, 0 < p.async.blockedOwners.value owner → ∀ task ∈ p.async.tasks,
    task.1 ≠ owner
  allowed : ∀ d ∈ p.draining, d.owner ≠ "" ∧ d.currentAllowance = p.allowance d.owner d.caller
  callers : ∀ d ∈ p.draining, ∀ worker, d.caller = some worker →
    ∃ task, p.workers[worker]? = some (some task)

variable {maxQueueSize : ℕ} {p q : Pool}

theorem Inv.start (count maxQueueSize : ℕ) : Inv maxQueueSize (start count maxQueueSize) where
  size := rfl
  bound := Nat.zero_le _
  order := List.Pairwise.nil
  fresh := by simp [Pool.start, startOrder, Async.create]
  active_positive := Counts.Positive.empty
  active := by
    intro owner
    simp only [Pool.start, running, List.countP_replicate]
    rfl
  blocked_positive := Counts.Positive.empty
  blocked := fun _ _ => rfl
  unqueued := by simp [Pool.start, Async.create]
  allowed := by simp [Pool.start]
  callers := by simp [Pool.start]

theorem Inv.emplaceTaskIf (h : Inv maxQueueSize p) (command : String) (admission : Admission) :
    Inv maxQueueSize (p.emplaceTaskIf command admission) := by
  rcases p.async.emplaceTaskIf_cases command p.accepted admission with
    ⟨hr, -, evaluated, he⟩ | ⟨attempt, hne, -, -, he⟩
  · have hq : p.emplaceTaskIf command admission =
        { p with async := p.async.push command p.accepted, accepted := p.accepted + 1,
                 history := .emplaced command ⟨some .Accepted, evaluated⟩ :: p.history } := by
      simp only [Pool.emplaceTaskIf, he, if_true]
    obtain ⟨-, hfree, hlt⟩ := (Async.refuses_iff h.blocked_positive command).mp hr
    rw [hq]
    refine ⟨h.size, ?_, ?_, ?_, h.active_positive, h.active, h.blocked_positive, h.blocked, ?_,
      h.allowed, h.callers⟩
    · rw [h.size] at hlt
      simp only [Async.push_tasks, List.length_append, List.length_singleton]
      exact hlt
    · simp only [Async.push_tasks, List.map_append, List.map_cons, List.map_nil, ← List.append_assoc]
      exact List.pairwise_append.mpr ⟨h.order, List.pairwise_singleton _ _, fun n hn m hm =>
        List.mem_singleton.mp hm ▸ h.fresh n hn⟩
    · intro n hn
      simp only [Async.push_tasks, List.map_append, List.map_cons, List.map_nil,
        ← List.append_assoc] at hn
      rcases List.mem_append.mp hn with hn | hn
      · exact Nat.lt_succ_of_lt (h.fresh n hn)
      · rw [List.mem_singleton.mp hn]
        exact Nat.lt_succ_self _
    · intro owner hb task ht
      rcases List.mem_append.mp ht with ht | ht
      · exact h.unqueued owner hb task ht
      · rw [List.mem_singleton.mp ht]
        rintro rfl
        exact Nat.lt_irrefl 0 (hfree ▸ hb)
  · have hq : p.emplaceTaskIf command admission =
        { p with history := .emplaced command attempt :: p.history } := by
      simp only [Pool.emplaceTaskIf, he, if_neg hne]
    rw [hq]
    exact ⟨h.size, h.bound, h.order, h.fresh, h.active_positive, h.active, h.blocked_positive,
      h.blocked, h.unqueued, h.allowed, h.callers⟩

theorem Inv.cancel (h : Inv maxQueueSize p) (owner : String) :
    Inv maxQueueSize { p with async := (p.async.cancel owner).2,
                              history := .cancelled owner :: p.history } := by
  by_cases ho : owner = ""
  · subst ho
    rw [Async.cancel_empty]
    refine ⟨h.size, h.bound, h.order, h.fresh, h.active_positive, h.active, h.blocked_positive, ?_,
      h.unqueued, h.allowed, h.callers⟩
    intro other hne
    simp only [openCancels, if_neg (Ne.symm hne), Nat.add_zero]
    exact h.blocked other hne
  · have hsub : (p.async.tasks.filter (fun task => !(task.1 == owner))).Sublist p.async.tasks :=
      List.filter_sublist
    have hall := (hsub.map Prod.snd).append_left (startOrder p.history)
    rw [Async.cancel_of_ne ho]
    refine ⟨h.size, Nat.le_trans hsub.length_le h.bound, h.order.sublist hall,
      fun n hn => h.fresh n (hall.subset hn), h.active_positive, h.active,
      h.blocked_positive.increment owner, ?_, ?_, h.allowed, h.callers⟩
    · intro other hne
      simp only [Counts.value_increment, openCancels, h.blocked other hne, eq_comm]
    · intro other hb task ht
      obtain ⟨htask, hown⟩ := List.mem_filter.mp ht
      by_cases he : other = owner
      · subst he
        simpa using hown
      · rw [Counts.value_increment, if_neg he, Nat.add_zero] at hb
        exact h.unqueued other hb task htask

theorem callable_some {worker : ℕ} (h : p.callable (some worker) = true) :
    ∃ task, p.workers[worker]? = some (some task) := by
  simp only [callable, Bool.and_eq_true] at h
  obtain ⟨o, ho, hs⟩ := (Option.any_eq_true _ _).mp h.1
  obtain ⟨task, rfl⟩ := Option.isSome_iff_exists.mp hs
  exact ⟨task, ho⟩

theorem Inv.drain (h : Inv maxQueueSize p) {caller : Option ℕ} (hc : p.callable caller = true)
    (owner : String) : Inv maxQueueSize (p.drain caller owner) := by
  unfold Pool.drain
  by_cases ho : owner.isEmpty = true
  · rw [if_pos ho]
    have he : owner = "" := String.isEmpty_iff.mp ho
    refine ⟨h.size, h.bound, h.order, h.fresh, h.active_positive, h.active, h.blocked_positive, ?_,
      h.unqueued, h.allowed, h.callers⟩
    intro other hne
    simp only [openCancels, he, if_neg (Ne.symm hne), Nat.sub_zero]
    exact h.blocked other hne
  · rw [if_neg ho]
    refine ⟨h.size, h.bound, h.order, h.fresh, h.active_positive, h.active, h.blocked_positive,
      h.blocked, h.unqueued, ?_, ?_⟩
    · intro d hd
      rcases List.mem_append.mp hd with hd | hd
      · exact h.allowed d hd
      · rw [List.mem_singleton.mp hd]
        exact ⟨fun he => ho (String.isEmpty_iff.mpr he), rfl⟩
    · intro d hd worker hw
      rcases List.mem_append.mp hd with hd | hd
      · exact h.callers d hd worker hw
      · rw [List.mem_singleton.mp hd] at hw
        rw [show caller = some worker from hw] at hc
        exact callable_some (p := p) hc

theorem Inv.drainReturn (h : Inv maxQueueSize p) (call : ℕ) (d : Drain) :
    Inv maxQueueSize { p with async := p.async.unblock d.owner,
                              draining := p.draining.eraseIdx call,
                              history := .drained d.owner :: p.history } := by
  refine ⟨h.size, h.bound, h.order, h.fresh, h.active_positive, h.active,
    h.blocked_positive.decrement d.owner, ?_, ?_, ?_, ?_⟩
  · intro owner ho
    simp only [Async.unblock, Counts.value_decrement, openCancels, h.blocked owner ho, eq_comm]
  · intro owner hb
    simp only [Async.unblock, Counts.value_decrement] at hb
    exact h.unqueued owner (by omega)
  · exact fun other ho => h.allowed other (List.mem_of_mem_eraseIdx ho)
  · exact fun other ho => h.callers other (List.mem_of_mem_eraseIdx ho)

-- A waiting call keeps its allowance as long as the task it is made in goes on.
theorem allowance_set {w : ℕ} {new : Option (Task ℕ)} {caller : Option ℕ} (hc : caller ≠ some w)
    (owner : String) :
    ({ p with workers := p.workers.set w new }).allowance owner caller = p.allowance owner caller := by
  cases caller with
  | none => rfl
  | some v =>
    have hv : w ≠ v := fun he => hc (by rw [he])
    simp only [allowance, List.getElem?_set_ne hv]

theorem callers_set (h : ∀ d ∈ p.draining, ∀ worker, d.caller = some worker →
      ∃ task, p.workers[worker]? = some (some task)) {w : ℕ} (new : Option (Task ℕ))
    (hw : ∀ d ∈ p.draining, d.caller ≠ some w) :
    ∀ d ∈ p.draining, ∀ worker, d.caller = some worker →
      ∃ task, (p.workers.set w new)[worker]? = some (some task) := by
  intro d hd worker hc
  have hne : w ≠ worker := fun he => hw d hd (he ▸ hc)
  rw [List.getElem?_set_ne hne]
  exact h d hd worker hc

theorem Inv.takeFront (h : Inv maxQueueSize p) {worker : ℕ} {front : Task ℕ} {rest : List (Task ℕ)}
    (hw : p.workers[worker]? = some none) (ht : p.async.tasks = front :: rest) :
    Inv maxQueueSize { p with
      async := { p.async with tasks := rest,
                              activeTasks := p.async.activeTasks.increment front.1 },
      workers := p.workers.set worker (some front), history := .started front.2 :: p.history } := by
  have hidle : ∀ d ∈ p.draining, d.caller ≠ some worker := by
    intro d hd hc
    obtain ⟨task, htask⟩ := h.callers d hd worker hc
    exact absurd (hw.symm.trans htask) (by simp)
  have horder : startOrder (.started front.2 :: p.history) ++ rest.map Prod.snd =
      startOrder p.history ++ p.async.tasks.map Prod.snd := by
    rw [ht]
    simp [startOrder]
  refine ⟨h.size, ?_, horder ▸ h.order, horder ▸ h.fresh, h.active_positive.increment _, ?_,
    h.blocked_positive, h.blocked, ?_, ?_, callers_set h.callers _ hidle⟩
  · have hb := h.bound
    rw [ht, List.length_cons] at hb
    exact Nat.le_of_succ_le hb
  · intro owner
    have hset := Slots.countP_set (runs owner) hw (some front)
    rw [Counts.value_increment, h.active owner, running, running]
    simp only [runs, Bool.false_eq_true, if_false, Nat.add_zero, beq_iff_eq] at hset
    rw [hset]
    simp only [eq_comm]
  · intro owner hb task hm
    exact h.unqueued owner hb task (ht ▸ List.mem_cons_of_mem _ hm)
  · intro d hd
    refine ⟨(h.allowed d hd).1, (h.allowed d hd).2.trans ?_⟩
    exact (allowance_set (p := p) (hidle d hd) d.owner).symm

theorem Inv.finish (h : Inv maxQueueSize p) {worker : ℕ} {task : Task ℕ}
    (hw : p.workers[worker]? = some (some task)) (hidle : p.idle worker = true) :
    Inv maxQueueSize
      { p with async := p.async.finish task.1, workers := p.workers.set worker none } := by
  have hcall : ∀ d ∈ p.draining, d.caller ≠ some worker := by
    intro d hd
    simpa using List.all_eq_true.mp hidle d hd
  rw [Async.finish_eq h.active_positive]
  refine ⟨h.size, h.bound, h.order, h.fresh, h.active_positive.decrement _, ?_, h.blocked_positive,
    h.blocked, h.unqueued, ?_, callers_set h.callers _ hcall⟩
  · intro owner
    have hset := Slots.countP_set (runs owner) hw none
    rw [Counts.value_decrement, h.active owner, running, running]
    simp only [runs, Bool.false_eq_true, if_false, Nat.add_zero, beq_iff_eq] at hset
    rw [← hset]
    simp only [eq_comm, Nat.add_sub_cancel]
  · intro d hd
    refine ⟨(h.allowed d hd).1, (h.allowed d hd).2.trans ?_⟩
    exact (allowance_set (p := p) (hcall d hd) d.owner).symm

theorem Inv.step (h : Inv maxQueueSize p) (i : Step) (hq : step p i = some q) :
    Inv maxQueueSize q := by
  cases i with
  | emplaceTaskIf command admission =>
    obtain rfl := Option.some_inj.mp hq
    exact h.emplaceTaskIf command admission
  | cancel owner =>
    obtain rfl := Option.some_inj.mp hq
    exact h.cancel owner
  | drain caller owner =>
    obtain ⟨hc, rfl⟩ := Transition.enabled_eq_some hq
    exact h.drain hc owner
  | drainReturn call =>
    simp only [Pool.step] at hq
    split at hq
    · exact absurd hq nofun
    next d hd =>
      obtain ⟨-, rfl⟩ := Transition.enabled_eq_some hq
      exact h.drainReturn call d
  | takeFront worker =>
    simp only [Pool.step, Async.takeFront] at hq
    cases ht : p.async.tasks with
    | nil => simp [ht] at hq
    | cons front rest =>
      simp only [ht] at hq
      split at hq
      next hw hf =>
        obtain ⟨rfl, rfl⟩ := Prod.mk.inj (Option.some_inj.mp hf)
        obtain rfl := Option.some_inj.mp hq
        exact h.takeFront hw ht
      · exact absurd hq nofun
  | finish worker =>
    simp only [Pool.step] at hq
    split at hq
    next task hw =>
      obtain ⟨hidle, rfl⟩ := Transition.enabled_eq_some hq
      exact h.finish hw hidle
    · exact absurd hq nofun
  | stop =>
    obtain rfl := Option.some_inj.mp hq
    exact ⟨h.size, h.bound, h.order, h.fresh, h.active_positive, h.active, h.blocked_positive,
      h.blocked, h.unqueued, h.allowed, h.callers⟩

-- Two workers with tasks of one owner count twice.
theorem two_le_running {owner : String} {v w : ℕ} {first second : Task ℕ}
    (hv : p.workers[v]? = some (some first)) (hw : p.workers[w]? = some (some second))
    (hfirst : first.1 = owner) (hsecond : second.1 = owner) (hne : v ≠ w) : 2 ≤ p.running owner := by
  have hset := Slots.countP_set (runs owner) hv none
  have hmem : some second ∈ p.workers.set v none := by
    apply List.mem_of_getElem? (i := w)
    rw [List.getElem?_set_ne hne]
    exact hw
  have hpos : 0 < (p.workers.set v none).countP (runs owner) :=
    List.countP_pos_iff.mpr ⟨some second, hmem, by simp [runs, hsecond]⟩
  simp only [runs, hfirst, beq_self_eq_true, if_true, Bool.false_eq_true, if_false] at hset
  rw [running]
  omega

-- When a `drain` returns, only the task it was called from can still be running.
theorem Inv.drained_alone (h : Inv maxQueueSize p) {call : ℕ} {d : Drain}
    (hd : p.draining[call]? = some d)
    (hr : p.async.drained d.owner d.currentAllowance = true) {w : ℕ} {task : Task ℕ}
    (hw : p.workers[w]? = some (some task)) (ht : task.1 = d.owner) : d.caller = some w := by
  have hmem := List.mem_of_getElem? hd
  have hle := (p.async.drained_iff _ _).mp hr
  rw [h.active, (h.allowed d hmem).2] at hle
  have hpos : 0 < p.running d.owner :=
    List.countP_pos_iff.mpr ⟨some task, List.mem_of_getElem? hw, by simp [runs, ht]⟩
  cases hc : d.caller with
  | none =>
    rw [hc] at hle
    exact absurd hle (Nat.not_le.mpr hpos)
  | some v =>
    rw [hc] at hle
    simp only [allowance] at hle
    by_cases hv : p.workers[v]?.any (runs d.owner) = true
    · rw [if_pos hv] at hle
      obtain ⟨o, ho, hrun⟩ := (Option.any_eq_true _ _).mp hv
      cases o with
      | none => exact absurd hrun Bool.false_ne_true
      | some other =>
        by_contra hne
        have hvw : v ≠ w := fun he => hne (by rw [he])
        have htwo := two_le_running ho hw (by simpa [runs] using hrun) ht hvw
        omega
    · rw [if_neg hv] at hle
      exact absurd hle (Nat.not_le.mpr hpos)

-- The rules of the executor in one of its states. A drain that has returned is described by the
-- state it returned in.
structure Lawful (maxQueueSize : ℕ) (p : Pool) : Prop where
  queue_bounded : p.async.tasks.length ≤ maxQueueSize
  fifo : (startOrder p.history).Pairwise (· < ·)
  active_exact : ∀ owner, p.async.activeTasks.value owner = p.running owner
  admission : ∀ command asked,
    ((p.async.emplaceTaskIf command p.accepted asked).1.evaluated = true →
      asked = .returns true →
      (p.async.emplaceTaskIf command p.accepted asked).2.tasks =
        p.async.tasks ++ [(command, p.accepted)]) ∧
    ((p.async.emplaceTaskIf command p.accepted asked).1.result = some .Accepted ↔
      (p.async.emplaceTaskIf command p.accepted asked).2.tasks =
        p.async.tasks ++ [(command, p.accepted)])
  blocked_exact : ∀ owner, owner ≠ "" →
    p.async.blockedOwners.value owner = openCancels owner p.history
  blocked_excludes : ∀ owner, 0 < p.async.blockedOwners.value owner →
    (∀ task ∈ p.async.tasks, task.1 ≠ owner) ∧
    ∀ asked, (p.async.emplaceTaskIf owner p.accepted asked).1.result =
      some .QueueFullOrStopping
  cancel_keeps : ∀ owner,
    (p.async.cancel owner).2.tasks.filter (fun task => !(task.1 == owner)) =
      p.async.tasks.filter fun task => !(task.1 == owner)
  drain_alone : ∀ call d q, p.draining[call]? = some d → step p (.drainReturn call) = some q →
    ∀ w task, q.workers[w]? = some (some task) → task.1 = d.owner → d.caller = some w

theorem Inv.lawful (h : Inv maxQueueSize p) : Lawful maxQueueSize p where
  queue_bounded := h.bound
  fifo := (List.pairwise_append.mp h.order).1
  active_exact := h.active
  admission := fun command asked => p.async.emplaceTaskIf_admission command p.accepted asked
  blocked_exact := h.blocked
  blocked_excludes := by
    intro owner hb
    refine ⟨h.unqueued owner hb, fun asked => ?_⟩
    have hr : p.async.refuses owner = true := by
      by_contra hne
      have hz := (Async.refuses_iff h.blocked_positive owner).mp (Bool.not_eq_true _ ▸ hne)
      omega
    simp only [Async.emplaceTaskIf, hr, if_true]
  cancel_keeps := by
    intro owner
    by_cases ho : owner = ""
    · rw [ho, Async.cancel_empty]
    · simp [Async.cancel_of_ne ho]
  drain_alone := by
    intro call d q hd hq w task hw ht
    simp only [Pool.step, hd] at hq
    obtain ⟨hr, rfl⟩ := Transition.enabled_eq_some hq
    exact h.drained_alone hd hr hw ht

theorem pool_lawful (count maxQueueSize : ℕ) (steps : List Step) (p : Pool)
    (hp : Transition.path step (Pool.start count maxQueueSize) steps = some p) :
    Lawful maxQueueSize p := by
  have hi : Inv maxQueueSize p :=
    Transition.path_invariant_of_step (Inv maxQueueSize) (fun _ i _ h hq => h.step i hq)
      (Inv.start count maxQueueSize) hp
  exact hi.lawful

-- Two workers; one owner is cancelled while it runs, the call that waits in its own task returns.
def cancelledRun : List Step :=
  [.emplaceTaskIf "a" (.returns true), .emplaceTaskIf "b" .absent, .emplaceTaskIf "a" .throws,
    .takeFront 0, .emplaceTaskIf "a" .absent, .takeFront 1, .cancel "a", .drain (some 0) "a",
    .emplaceTaskIf "a" (.returns true), .drainReturn 0]

theorem pool_lawful_cancelledRun : ∃ p,
    Transition.path step (Pool.start 2 2) cancelledRun = some p ∧
    p.workers = [some ("a", 0), some ("b", 1)] ∧ p.async.tasks = [] ∧ Lawful 2 p := by
  obtain ⟨p, hp, hw, ht⟩ := Transition.exists_path step (Pool.start 2 2) cancelledRun
    (fun p => p.workers = [some ("a", 0), some ("b", 1)] ∧ p.async.tasks = []) (by decide)
  exact ⟨p, hp, hw, ht, pool_lawful 2 2 cancelledRun p hp⟩

-- For the empty owner `cancel` returns before it blocks anything.
theorem empty_owner_not_blocked : ¬∀ (count maxQueueSize : ℕ) (steps : List Step) (p : Pool),
    Transition.path step (Pool.start count maxQueueSize) steps = some p →
    ∀ owner, p.async.blockedOwners.value owner = openCancels owner p.history := by
  intro h
  obtain ⟨p, hp, hb, ho⟩ := Transition.exists_path step (Pool.start 1 1) [.cancel ""]
    (fun p => p.async.blockedOwners.value "" = 0 ∧ openCancels "" p.history = 1) (by decide)
  have he := h 1 1 [.cancel ""] p hp ""
  omega

end Pool

end Glider.Exec

import Glider.AnyMessage.Calls
import Glider.Modules.Management

namespace Glider.Modules

open Glider.Lib

-- A share of the execution lock is held from the lock on. It is a lease once it is granted.
def Thread.granted : Thread → Bool
  | .holding _ => true
  | .submitting _ _ => true
  | _ => false

def Thread.shares : Thread → Bool
  | .acquiring _ .locked => true
  | thread => thread.granted

def CallbackLease.shares : CallbackLease → Bool
  | .acquiring .locked => true
  | .granted => true
  | _ => false

namespace Management

def laneTotal (name : String) (lanes : Work.WorkClass → Work.Lane) : ℕ :=
  (Work.WorkClass.all.map fun c => owned name (lanes c)).sum

def holders (name : String) (s : Management) : ℕ :=
  s.threads.countP Thread.shares + s.callbackLeases.countP CallbackLease.shares +
    s.commandAsync.tasks.countP (fun task => task.1 == name) +
    s.commandWorkers.countP (fun worker => worker == .running name) + s.retired +
    laneTotal name s.lanes + s.destroying

-- Nothing of the module has a lease.
structure Free (name : String) (s : Management) : Prop where
  threads : ∀ thread ∈ s.threads, thread.granted = false
  callbacks : ∀ lease ∈ s.callbackLeases, lease ≠ .granted
  queued : ∀ task ∈ s.commandAsync.tasks, task.1 ≠ name
  running : ∀ worker ∈ s.commandWorkers, worker ≠ .running name
  retired : s.retired = 0
  lanes : ∀ c, owned name (s.lanes c) = 0
  destroying : s.destroying = 0

variable {name : String} {s s' : Management}

theorem laneTotal_update (name : String) (lanes : Work.WorkClass → Work.Lane)
    (c : Work.WorkClass) (l : Work.Lane) :
    laneTotal name (Function.update lanes c l) + owned name (lanes c) =
      laneTotal name lanes + owned name l := by
  cases c <;> simp [laneTotal, Work.WorkClass.all, Function.update_apply] <;> omega

theorem owned_le_laneTotal (name : String) (lanes : Work.WorkClass → Work.Lane)
    (c : Work.WorkClass) :
    owned name (lanes c) ≤ laneTotal name lanes := by
  cases c <;> simp [laneTotal, Work.WorkClass.all] <;> omega

theorem free_of_holders (h : holders name s = 0) : Free name s := by
  have hparts : s.threads.countP Thread.shares = 0 ∧
      s.callbackLeases.countP CallbackLease.shares = 0 ∧
      s.commandAsync.tasks.countP (fun task => task.1 == name) = 0 ∧
      s.commandWorkers.countP (fun worker => worker == .running name) = 0 ∧ s.retired = 0 ∧
      laneTotal name s.lanes = 0 ∧ s.destroying = 0 := by
    unfold holders at h
    omega
  obtain ⟨hthreads, hcallbacks, hqueued, hrunning, hretired, hlanes, hdestroying⟩ := hparts
  refine ⟨?_, ?_, ?_, ?_, hretired, ?_, hdestroying⟩
  · intro thread ht
    have hn := List.countP_eq_zero.mp hthreads thread ht
    cases thread <;> simp_all [Thread.shares, Thread.granted]
  · intro lease hl
    have hn := List.countP_eq_zero.mp hcallbacks lease hl
    rintro rfl
    exact hn rfl
  · intro task ht
    simpa using List.countP_eq_zero.mp hqueued task ht
  · intro worker hw
    simpa using List.countP_eq_zero.mp hrunning worker hw
  · intro c
    have hle := owned_le_laneTotal name s.lanes c
    omega

-- What the threads and workers do besides the control thread.
structure EnvStep (name : String) (s s' : Management) : Prop where
  control : s'.control = s.control
  dormant : s'.dormant = s.dormant
  accepting : s'.module.acceptingExecutions = s.module.acceptingExecutions
  leases : s.module.sharedLeases = holders name s → s'.module.sharedLeases = holders name s'
  free : s.module.acceptingExecutions = false → Free name s → Free name s'
  removals : s.dispatcher.Inv → s.dispatcher.Calls →
    s'.dispatcher.removals = s.dispatcher.removals
  inv : s.dispatcher.Inv → s.dispatcher.Calls → s'.dispatcher.Inv ∧ s'.dispatcher.Calls
  callbacks : s.dispatcher.Inv → s.dispatcher.Calls → Free name s →
    ∀ e' ∈ s'.dispatcher.callbacks,
      (∃ e ∈ s.dispatcher.callbacks, e'.ref = e.ref) ∨ e'.ownerCommand ≠ name

theorem EnvStep.refl (name : String) (s : Management) : EnvStep name s s :=
  ⟨rfl, rfl, rfl, id, fun _ => id, fun _ _ => rfl, fun hi hc => ⟨hi, hc⟩,
    fun _ _ _ e he => .inl ⟨e, he, rfl⟩⟩

-- A step that leaves the dispatcher alone.
theorem EnvStep.of_dispatcher (hcontrol : s'.control = s.control) (hdormant : s'.dormant = s.dormant)
    (hdispatcher : s'.dispatcher = s.dispatcher)
    (haccepting : s'.module.acceptingExecutions = s.module.acceptingExecutions)
    (hleases : s.module.sharedLeases = holders name s → s'.module.sharedLeases = holders name s')
    (hfree : s.module.acceptingExecutions = false → Free name s → Free name s') :
    EnvStep name s s' := by
  refine ⟨hcontrol, hdormant, haccepting, hleases, hfree, fun _ _ => by rw [hdispatcher], ?_, ?_⟩
  · rw [hdispatcher]
    exact fun hi hc => ⟨hi, hc⟩
  · rw [hdispatcher]
    exact fun _ _ _ e he => .inl ⟨e, he, rfl⟩

theorem Free.set_thread (h : Free name s) {t : ℕ} {new : Thread} (hnew : new.granted = false) :
    ∀ thread ∈ s.threads.set t new, thread.granted = false := by
  intro thread ht
  rcases List.mem_or_eq_of_mem_set ht with ht | rfl
  · exact h.threads thread ht
  · exact hnew

-- A thread moves on without a lease that it did not have.
theorem EnvStep.thread {t : ℕ} {old new : Thread} (ht : s.threads[t]? = some old) {mutex : Bool}
    {m : CommandModule} {nextWorkId : ℕ}
    (haccepting : m.acceptingExecutions = s.module.acceptingExecutions)
    (hleases : (if old.shares then 1 else 0) ≤ s.module.sharedLeases →
      m.sharedLeases + (if old.shares then 1 else 0) =
        s.module.sharedLeases + if new.shares then 1 else 0)
    (hgranted : s.module.acceptingExecutions = false → new.granted = true → old.granted = true) :
    EnvStep name s { s with threads := s.threads.set t new, module := m, mutex := mutex,
                            nextWorkId := nextWorkId } := by
  refine EnvStep.of_dispatcher rfl rfl rfl haccepting ?_ ?_
  · intro hl
    have hset := Slots.countP_set Thread.shares ht new
    have hle : (if old.shares then 1 else 0) ≤ s.threads.countP Thread.shares := by
      split
      next hs => exact List.countP_pos_iff.mpr ⟨old, List.mem_of_getElem? ht, hs⟩
      · exact Nat.zero_le _
    unfold holders at hl ⊢
    simp only at hl ⊢
    have hm := hleases (by omega)
    omega
  · intro ha hfree
    refine ⟨hfree.set_thread ?_, hfree.callbacks, hfree.queued, hfree.running, hfree.retired,
      hfree.lanes, hfree.destroying⟩
    cases hg : new.granted with
    | false => rfl
    | true =>
      have hold := hgranted ha hg
      rw [hfree.threads old (List.mem_of_getElem? ht)] at hold
      exact absurd hold Bool.false_ne_true

-- A thread gives its lease up: to a queue, or back to the module.
theorem EnvStep.handOver {t : ℕ} {old : Thread} (ht : s.threads[t]? = some old)
    (hold : old.granted = true) {m : CommandModule} {commandAsync : Exec.Async Unit}
    {lanes : Work.WorkClass → Work.Lane}
    (haccepting : m.acceptingExecutions = s.module.acceptingExecutions)
    (hleases : 1 ≤ s.module.sharedLeases → m.sharedLeases + 1 +
        s.commandAsync.tasks.countP (fun task => task.1 == name) + laneTotal name s.lanes =
      s.module.sharedLeases + commandAsync.tasks.countP (fun task => task.1 == name) +
        laneTotal name lanes) :
    EnvStep name s { s with threads := s.threads.set t .idle, module := m,
                            commandAsync := commandAsync, lanes := lanes } := by
  have hshares : old.shares = true := by
    cases old <;> simp_all [Thread.shares, Thread.granted]
  refine EnvStep.of_dispatcher rfl rfl rfl haccepting ?_ ?_
  · intro hl
    have hset := Slots.countP_set Thread.shares ht .idle
    have hpos : 0 < s.threads.countP Thread.shares :=
      List.countP_pos_iff.mpr ⟨old, List.mem_of_getElem? ht, hshares⟩
    rw [hshares, if_pos rfl, show Thread.idle.shares = false from rfl,
      if_neg Bool.false_ne_true] at hset
    unfold holders at hl ⊢
    simp only at hl ⊢
    have hm := hleases (by omega)
    omega
  · intro _ hfree
    rw [hfree.threads old (List.mem_of_getElem? ht)] at hold
    exact absurd hold Bool.false_ne_true

theorem EnvStep.fetch {t : ℕ} (ht : s.fetch t = some s') : EnvStep name s s' := by
  unfold Management.fetch at ht
  split at ht
  next hidle hl =>
    obtain rfl := Option.some_inj.mp ht
    exact EnvStep.thread hidle rfl (fun _ => rfl) fun _ hg => absurd hg Bool.false_ne_true
  · exact absurd ht nofun

theorem EnvStep.enter {t : ℕ} {purpose : Purpose} (ht : s.enter t purpose = some s') :
    EnvStep name s s' := by
  unfold Management.enter at ht
  split at ht
  next hidle hm =>
    split at ht
    · obtain rfl := Option.some_inj.mp ht
      exact EnvStep.thread hidle rfl (fun _ => rfl) fun _ hg => absurd hg Bool.false_ne_true
    · obtain rfl := Option.some_inj.mp ht
      exact EnvStep.refl name s
  · exact absurd ht nofun

theorem shares_acquiring (purpose : Purpose) (stage : Acquiring) :
    (if (Thread.acquiring purpose stage).shares then 1 else 0) = CommandModule.shares stage := by
  cases stage <;> rfl

theorem EnvStep.acquire {t : ℕ} (ht : s.acquire t = some s') : EnvStep name s s' := by
  unfold Management.acquire at ht
  split at ht
  next purpose stage hthread =>
    obtain ⟨⟨progress, m⟩, hm, heq⟩ := Option.map_eq_some_iff.mp ht
    obtain ⟨haccepting, hgranted⟩ := CommandModule.acquireExecutionLease_flags hm
    have hleases := CommandModule.acquireExecutionLease_leases hm
    rw [← shares_acquiring purpose stage] at hleases
    cases progress with
    | goesOn next =>
      obtain rfl := heq
      refine EnvStep.thread hthread haccepting ?_ fun _ hg => absurd hg Bool.false_ne_true
      rw [shares_acquiring purpose next]
      exact hleases
    | granted =>
      obtain rfl := heq
      refine EnvStep.thread hthread haccepting hleases fun hclosed _ => ?_
      rw [hgranted rfl] at hclosed
      exact absurd hclosed.symm Bool.false_ne_true
    | refused =>
      obtain rfl := heq
      exact EnvStep.thread hthread haccepting hleases fun _ hg => absurd hg Bool.false_ne_true
  · exact absurd ht nofun

theorem EnvStep.giveBack {t : ℕ} {old : Thread} (ht : s.threads[t]? = some old)
    (hold : old.granted = true) : EnvStep name s ((s.setThread t .idle).releaseShared 1) := by
  refine EnvStep.handOver ht hold rfl fun hpos => ?_
  simp only [setThread, CommandModule.releaseShared]
  omega

theorem EnvStep.abandon {t : ℕ} (ht : s.abandon t = some s') : EnvStep name s s' := by
  unfold Management.abandon at ht
  split at ht
  next hthread =>
    obtain rfl := Option.some_inj.mp ht
    exact EnvStep.giveBack hthread rfl
  next hthread =>
    obtain rfl := Option.some_inj.mp ht
    exact EnvStep.giveBack hthread rfl
  · exact absurd ht nofun

-- The closure is queued with the lease, or both are gone.
theorem EnvStep.emplaced {t : ℕ} {old : Thread} (ht : s.threads[t]? = some old)
    (hold : old.granted = true) (admission : Exec.Admission) :
    EnvStep name s
      (if (s.commandAsync.emplaceTaskIf name () admission).1.result = some .Accepted then
        { s.setThread t .idle with
          commandAsync := (s.commandAsync.emplaceTaskIf name () admission).2 }
      else { (s.setThread t .idle).releaseShared 1 with
        commandAsync := (s.commandAsync.emplaceTaskIf name () admission).2 }) := by
  rcases s.commandAsync.emplaceTaskIf_cases name () admission with
    ⟨-, -, evaluated, heq⟩ | ⟨attempt, hne, -, -, heq⟩
  · rw [heq, if_pos rfl]
    refine EnvStep.handOver ht hold rfl fun _ => ?_
    simp only [setThread, Exec.Async.push_tasks, List.countP_append, List.countP_singleton,
      beq_self_eq_true, if_true]
    omega
  · rw [heq, if_neg hne]
    exact EnvStep.giveBack ht hold

theorem EnvStep.emplace {t : ℕ} {admission : Exec.Admission}
    (ht : s.emplace name t admission = some s') : EnvStep name s s' := by
  unfold Management.emplace at ht
  simp only at ht
  split at ht
  next hthread =>
    obtain rfl := Option.some_inj.mp ht
    exact EnvStep.emplaced hthread rfl admission
  next hthread =>
    obtain rfl := Option.some_inj.mp ht
    exact EnvStep.emplaced hthread rfl .absent
  · exact absurd ht nofun

theorem EnvStep.draw {t : ℕ} {hasWork : Bool} (ht : s.draw name t hasWork = some s') :
    EnvStep name s s' := by
  unfold Management.draw at ht
  split at ht
  next c hthread =>
    split at ht
    · obtain rfl := Option.some_inj.mp ht
      exact EnvStep.giveBack hthread rfl
    · obtain rfl := Option.some_inj.mp ht
      exact EnvStep.thread hthread rfl (fun _ => rfl) fun _ _ => rfl
  · exact absurd ht nofun

theorem owned_submit (name : String) (l : Work.Lane) (id : ℕ) (owner : String) (due : ℕ)
    (deadline : Option ℕ) :
    owned name (l.submit id owner due deadline).2 = owned name l +
      if (l.submit id owner due deadline).1 ∧ owner = name then 1 else 0 := by
  unfold Work.Lane.submit
  simp only
  split
  · simp [owned, Work.Lane.tasks]
  · simp only [owned, Work.Lane.tasks, true_and]
    rw [((Work.Lane.emplace_perm _ l.queue).append_right _).countP_eq, List.cons_append,
      List.countP_cons]
    simp

theorem EnvStep.queue {t due : ℕ} {deadline : Option ℕ} (ht : s.queue name t due deadline = some s') :
    EnvStep name s s' := by
  unfold Management.queue at ht
  split at ht
  next c id hthread =>
    have howned := owned_submit name (s.lanes c) id name due deadline
    have htotal := laneTotal_update name s.lanes c
      ((s.lanes c).submit id name due deadline).2
    simp only at ht
    split at ht
    next haccepted =>
      obtain rfl := Option.some_inj.mp ht
      refine EnvStep.handOver hthread rfl rfl fun _ => ?_
      rw [if_pos ⟨haccepted, rfl⟩] at howned
      simp only [setThread]
      omega
    next hrejected =>
      obtain rfl := Option.some_inj.mp ht
      refine EnvStep.handOver hthread rfl rfl fun hpos => ?_
      rw [if_neg fun h => hrejected h.1] at howned
      simp only [setThread, setLane, CommandModule.releaseShared]
      omega
  · cases ht

-- What another owner puts into a queue is nothing of the module.
theorem EnvStep.emplaceOther {owner : String} {admission : Exec.Admission}
    (ht : s.emplaceOther name owner admission = some s') : EnvStep name s s' := by
  obtain ⟨hne, rfl⟩ := Transition.enabled_eq_some ht
  rcases s.commandAsync.emplaceTaskIf_cases owner () admission with
    ⟨-, -, evaluated, heq⟩ | ⟨attempt, -, -, -, heq⟩
  · rw [heq]
    refine EnvStep.of_dispatcher rfl rfl rfl rfl ?_ ?_
    · intro hl
      rw [hl]
      simp [holders, hne]
    · intro _ hfree
      refine ⟨hfree.threads, hfree.callbacks, ?_, hfree.running, hfree.retired, hfree.lanes,
        hfree.destroying⟩
      intro task htask
      rcases List.mem_append.mp htask with htask | htask
      · exact hfree.queued task htask
      · rw [List.mem_singleton.mp htask]
        exact hne
  · rw [heq]
    exact EnvStep.refl name s

theorem Free.set_lane (h : Free name s) {c : Work.WorkClass} {l : Work.Lane}
    (hl : owned name l = 0) : ∀ other, owned name (Function.update s.lanes c l other) = 0 := by
  intro other
  by_cases heq : other = c
  · subst heq
    rw [Function.update_self]
    exact hl
  · rw [Function.update_of_ne heq]
    exact h.lanes other

-- A lane changes, and the leases of the tasks that are gone are given back or kept for a while.
theorem EnvStep.lane {c : Work.WorkClass} {l : Work.Lane} (released kept : ℕ) {nextWorkId : ℕ}
    (hcount : owned name l + released + kept = owned name (s.lanes c)) :
    EnvStep name s { (s.setLane c l).releaseShared released with
      destroying := s.destroying + kept, nextWorkId := nextWorkId } := by
  have htotal := laneTotal_update name s.lanes c l
  refine EnvStep.of_dispatcher rfl rfl rfl rfl ?_ ?_
  · intro hleases
    have hle := owned_le_laneTotal name s.lanes c
    unfold holders at hleases ⊢
    simp only [setLane, releaseShared, CommandModule.releaseShared] at hleases ⊢
    omega
  · intro _ hfree
    have hzero := hfree.lanes c
    refine ⟨hfree.threads, hfree.callbacks, hfree.queued, hfree.running, hfree.retired,
      hfree.set_lane (by omega), ?_⟩
    have hd := hfree.destroying
    show s.destroying + kept = 0
    omega

theorem EnvStep.queueOther {owner : String} {c : Work.WorkClass} {due : ℕ} {deadline : Option ℕ}
    (ht : s.queueOther name owner c due deadline = some s') : EnvStep name s s' := by
  obtain ⟨hne, rfl⟩ := Transition.enabled_eq_some ht
  have howned := owned_submit name (s.lanes c) s.nextWorkId owner due deadline
  rw [if_neg fun h => hne h.2] at howned
  exact EnvStep.lane 0 0 howned

theorem owned_step_le (name : String) (now : ℕ) {l l' : Work.Lane} {i : Work.Lane.Step}
    (hi : ∀ id owner due deadline, i ≠ .submit id owner due deadline)
    (h : l.step now i = some l') : owned name l' ≤ owned name l := by
  rcases (Work.Lane.step_grows h).tasks with hsub | ⟨task, due, deadline, heq, -⟩
  · exact hsub.countP_le _
  · exact absurd heq (hi _ _ _ _)

theorem EnvStep.laneStep {c : Work.WorkClass} {now : ℕ} {i : Work.Lane.Step}
    (ht : s.laneStep name c now i = some s') : EnvStep name s s' := by
  unfold Management.laneStep at ht
  split at ht
  next hallowed =>
    obtain ⟨l, hl, rfl⟩ := Option.map_eq_some_iff.mp ht
    have hle : owned name l ≤ owned name (s.lanes c) := by
      refine owned_step_le name now ?_ hl
      rintro id owner due deadline rfl
      exact absurd hallowed Bool.false_ne_true
    exact EnvStep.lane _ 0 (by omega)
  · exact absurd ht nofun

theorem EnvStep.eraseTask {c : Work.WorkClass} {now id : ℕ}
    (ht : s.eraseTask name c now id = some s') : EnvStep name s s' := by
  obtain ⟨l, hl, rfl⟩ := Option.map_eq_some_iff.mp ht
  have hle := owned_step_le name now (by intro _ _ _ _ heq; cases heq) hl
  exact EnvStep.lane 0 _ (by omega)

theorem EnvStep.destroyTask (ht : s.destroyTask = some s') : EnvStep name s s' := by
  unfold Management.destroyTask at ht
  split at ht
  · exact absurd ht nofun
  next n hn =>
    obtain rfl := Option.some_inj.mp ht
    refine EnvStep.of_dispatcher rfl rfl rfl rfl ?_ ?_
    · intro hl
      unfold holders at hl ⊢
      simp only [releaseShared, CommandModule.releaseShared] at hl ⊢
      omega
    · intro _ hfree
      exact absurd (hn.symm.trans hfree.destroying) (Nat.succ_ne_zero n)

-- A worker of the command executor moves on, and the front of the queue may go with it.
theorem EnvStep.commandWorker {w : ℕ} {old new : CommandWorker} (hw : s.commandWorkers[w]? = some old)
    {m : CommandModule} {commandAsync : Exec.Async Unit}
    (haccepting : m.acceptingExecutions = s.module.acceptingExecutions)
    (hleases : (if old == .running name then 1 else 0) ≤ s.module.sharedLeases →
      m.sharedLeases + (if old == .running name then 1 else 0) +
        s.commandAsync.tasks.countP (fun task => task.1 == name) =
      s.module.sharedLeases + (if new == .running name then 1 else 0) +
        commandAsync.tasks.countP (fun task => task.1 == name))
    (htasks : ∀ task ∈ commandAsync.tasks, task ∈ s.commandAsync.tasks)
    (hnew : new = .running name → old = .running name ∨ ∃ task ∈ s.commandAsync.tasks, task.1 = name) :
    EnvStep name s { s with commandWorkers := s.commandWorkers.set w new, module := m,
                            commandAsync := commandAsync } := by
  refine EnvStep.of_dispatcher rfl rfl rfl haccepting ?_ ?_
  · intro hl
    have hset := Slots.countP_set (fun worker => worker == .running name) hw new
    have hle : (if old == .running name then 1 else 0) ≤
        s.commandWorkers.countP (fun worker => worker == .running name) := by
      split
      next hs => exact List.countP_pos_iff.mpr ⟨old, List.mem_of_getElem? hw, hs⟩
      · exact Nat.zero_le _
    unfold holders at hl ⊢
    simp only at hl ⊢
    have hm := hleases (by omega)
    omega
  · intro _ hfree
    refine ⟨hfree.threads, hfree.callbacks, fun task ht => hfree.queued task (htasks task ht), ?_,
      hfree.retired, hfree.lanes, hfree.destroying⟩
    intro worker hworker
    rcases List.mem_or_eq_of_mem_set hworker with hworker | rfl
    · exact hfree.running worker hworker
    · intro hr
      rcases hnew hr with hold | ⟨task, ht, heq⟩
      · exact hfree.running old (List.mem_of_getElem? hw) hold
      · exact hfree.queued task ht heq

theorem EnvStep.takeCommand {w : ℕ} (ht : s.takeCommand w = some s') : EnvStep name s s' := by
  unfold Management.takeCommand at ht
  split at ht
  next front commandAsync hw hfront =>
    obtain rfl := Option.some_inj.mp ht
    unfold Exec.Async.takeFront at hfront
    split at hfront
    · exact absurd hfront nofun
    next first rest htasks =>
      obtain ⟨rfl, rfl⟩ := Prod.mk.inj (Option.some_inj.mp hfront)
      refine EnvStep.commandWorker hw rfl ?_ ?_ ?_
      · intro _
        rw [htasks, List.countP_cons]
        simp only [beq_iff_eq, CommandWorker.running.injEq, reduceCtorEq, if_false]
        omega
      · intro task htask
        rw [htasks]
        exact List.mem_cons_of_mem _ htask
      · intro hr
        refine .inr ⟨first, htasks ▸ List.mem_cons_self, CommandWorker.running.inj hr⟩
  · exact absurd ht nofun

theorem EnvStep.destroyCommand {w : ℕ} (ht : s.destroyCommand name w = some s') :
    EnvStep name s s' := by
  unfold Management.destroyCommand at ht
  split at ht
  next owner hw =>
    obtain rfl := Option.some_inj.mp ht
    refine EnvStep.commandWorker hw rfl ?_ (fun _ htask => htask) nofun
    intro hpos
    simp only [beq_iff_eq, CommandWorker.running.injEq, reduceCtorEq, if_false, releaseShared,
      CommandModule.releaseShared] at hpos ⊢
    omega
  · cases ht

theorem EnvStep.finishCommand {w : ℕ} (ht : s.finishCommand w = some s') : EnvStep name s s' := by
  unfold Management.finishCommand at ht
  split at ht
  next owner hw =>
    obtain rfl := Option.some_inj.mp ht
    refine EnvStep.commandWorker hw rfl ?_ ?_ nofun
    · intro _
      rw [Exec.Async.finish_tasks]
      rfl
    · rw [Exec.Async.finish_tasks]
      exact fun _ htask => htask
  · exact absurd ht nofun

-- A worker of the dispatcher moves on with its module lease.
theorem EnvStep.callbackLease {w : ℕ} {old new : CallbackLease}
    (hw : s.callbackLeases[w]? = some old) {mutex : Bool} {m : CommandModule}
    (haccepting : m.acceptingExecutions = s.module.acceptingExecutions)
    (hleases : (if old.shares then 1 else 0) ≤ s.module.sharedLeases →
      m.sharedLeases + (if old.shares then 1 else 0) =
        s.module.sharedLeases + if new.shares then 1 else 0)
    (hgranted : s.module.acceptingExecutions = false → new ≠ .granted) :
    EnvStep name s { s with callbackLeases := s.callbackLeases.set w new, module := m,
                            mutex := mutex } := by
  refine EnvStep.of_dispatcher rfl rfl rfl haccepting ?_ ?_
  · intro hl
    have hset := Slots.countP_set CallbackLease.shares hw new
    have hle : (if old.shares then 1 else 0) ≤ s.callbackLeases.countP CallbackLease.shares := by
      split
      next hs => exact List.countP_pos_iff.mpr ⟨old, List.mem_of_getElem? hw, hs⟩
      · exact Nat.zero_le _
    unfold holders at hl ⊢
    simp only at hl ⊢
    have hm := hleases (by omega)
    omega
  · intro ha hfree
    refine ⟨hfree.threads, ?_, hfree.queued, hfree.running, hfree.retired, hfree.lanes,
      hfree.destroying⟩
    intro lease hlease
    rcases List.mem_or_eq_of_mem_set hlease with hlease | rfl
    · exact hfree.callbacks lease hlease
    · exact hgranted ha

theorem EnvStep.enterCallback {w : ℕ} (ht : s.enterCallback name w = some s') :
    EnvStep name s s' := by
  unfold Management.enterCallback at ht
  split at ht
  next entry hw hentry hm =>
    split at ht
    · split at ht
      · obtain rfl := Option.some_inj.mp ht
        exact EnvStep.callbackLease hw rfl (fun _ => rfl) fun _ => nofun
      · obtain rfl := Option.some_inj.mp ht
        exact EnvStep.callbackLease hw rfl (fun _ => rfl) fun _ => nofun
    · exact absurd ht nofun
  · exact absurd ht nofun

theorem shares_acquiring_callback (stage : Acquiring) :
    (if (CallbackLease.acquiring stage).shares then 1 else 0) = CommandModule.shares stage := by
  cases stage <;> rfl

theorem EnvStep.acquireCallback {w : ℕ} (ht : s.acquireCallback w = some s') :
    EnvStep name s s' := by
  unfold Management.acquireCallback at ht
  split at ht
  next stage hw =>
    obtain ⟨⟨progress, m⟩, hm, heq⟩ := Option.map_eq_some_iff.mp ht
    obtain ⟨haccepting, hgranted⟩ := CommandModule.acquireExecutionLease_flags hm
    have hleases := CommandModule.acquireExecutionLease_leases hm
    rw [← shares_acquiring_callback stage] at hleases
    cases progress with
    | goesOn next =>
      obtain rfl := heq
      refine EnvStep.callbackLease hw haccepting ?_ fun _ => nofun
      rw [shares_acquiring_callback next]
      exact hleases
    | granted =>
      obtain rfl := heq
      refine EnvStep.callbackLease hw haccepting hleases fun hclosed => ?_
      rw [hgranted rfl] at hclosed
      exact absurd hclosed.symm Bool.false_ne_true
    | refused =>
      obtain rfl := heq
      exact EnvStep.callbackLease hw haccepting hleases fun _ => nofun
  · exact absurd ht nofun

theorem EnvStep.endIteration {w : ℕ} (ht : s.endIteration w = some s') : EnvStep name s s' := by
  unfold Management.endIteration at ht
  split at ht
  next hw _ =>
    obtain rfl := Option.some_inj.mp ht
    refine EnvStep.callbackLease hw rfl ?_ fun _ => nofun
    intro hpos
    simp only [CallbackLease.shares, if_true, Bool.false_eq_true, if_false, setCallbackLease,
      CommandModule.releaseShared] at hpos ⊢
    omega
  next hw _ =>
    obtain rfl := Option.some_inj.mp ht
    exact EnvStep.callbackLease hw rfl (fun _ => rfl) fun _ => nofun
  · cases ht

theorem Free.not_runsModule (h : Free name s) : s.runsModule name = false := by
  have hactive : ∀ c, ∀ a ∈ (s.lanes c).active, a.task.owner ≠ name := by
    intro c a ha
    have hn := List.countP_eq_zero.mp (h.lanes c) a.task (Work.Lane.mem_tasks_of_active ha)
    simpa using hn
  simp only [runsModule, Bool.or_eq_false_iff]
  refine ⟨⟨?_, ?_⟩, ?_⟩
  · rw [← Bool.not_eq_true, List.contains_iff_mem]
    exact fun hm => h.running _ hm rfl
  · rw [List.any_eq_false]
    intro c _ hany
    obtain ⟨a, ha, hp⟩ := List.any_eq_true.mp hany
    exact hactive c a ha (by simpa using (Bool.and_eq_true_iff.mp hp).1)
  · rw [← Bool.not_eq_true, List.contains_iff_mem]
    exact fun hm => h.callbacks _ hm rfl

-- A step of the dispatcher leaves the callbacks under the names they have, and adds at most one that
-- it registers.
theorem dispatcher_refs {d d' : AnyMessage.Dispatcher} (hinv : d.Inv) (hcalls : d.Calls)
    {i : AnyMessage.Dispatcher.Step} (h : AnyMessage.Dispatcher.step d i = some d') :
    ∀ e' ∈ d'.callbacks, (∃ e ∈ d.callbacks, e'.ref = e.ref) ∨
      ∃ hasCallback, i = .registerCallback e'.ownerCommand hasCallback := by
  intro e' he'
  have hsame : ∀ {w : ℕ} {old new : AnyMessage.Worker},
      AnyMessage.Dispatcher.WorkerStep d d' w old new → ∃ e ∈ d.callbacks, e'.ref = e.ref := by
    intro w old new hs
    obtain ⟨e, he, href, -⟩ := hs.callbacks e' he'
    exact ⟨e, he, href⟩
  cases i with
  | registerCallback owner hasCallback =>
    obtain rfl := Option.some_inj.mp h
    unfold AnyMessage.Dispatcher.registerCallback at he'
    split at he'
    · exact .inl ⟨e', he', rfl⟩
    · rcases List.mem_append.mp he' with he' | he'
      · exact .inl ⟨e', he', rfl⟩
      · rw [List.mem_singleton.mp he']
        exact .inr ⟨hasCallback, rfl⟩
  | enqueue =>
    obtain rfl := Option.some_inj.mp h
    unfold AnyMessage.Dispatcher.enqueue at he'
    split at he'
    · exact .inl ⟨e', he', rfl⟩
    · split at he'
      · exact .inl ⟨e', he', rfl⟩
      · obtain ⟨e, he, rfl⟩ := List.mem_map.mp he'
        exact .inl ⟨e, he, AnyMessage.Dispatcher.push_ref _ e⟩
  | take w =>
    obtain ⟨_, _, _, hs, -⟩ := hcalls.take_step hinv h
    exact .inl (hsame hs)
  | finish w deregister =>
    obtain ⟨_, _, _, hs, -⟩ := AnyMessage.Dispatcher.finish_step h
    exact .inl (hsame hs)
  | drop w =>
    obtain ⟨_, _, hs, -⟩ := hcalls.drop_step h
    exact .inl (hsame hs)
  | release w =>
    obtain ⟨_, _, _, hs, -⟩ := hcalls.release_step h
    exact .inl (hsame hs)
  | erase w =>
    obtain ⟨_, hs, -⟩ := hcalls.erase_step h
    exact .inl (hsame hs)
  | publish caller command =>
    obtain ⟨current, rfl, -⟩ := AnyMessage.Dispatcher.publish_cases h
    exact .inl ⟨e', he', rfl⟩
  | section' k =>
    obtain ⟨r, removed, hs⟩ := AnyMessage.Dispatcher.section_step h
    obtain ⟨e, he, href, -⟩ := hs.callbacks e' he'
    exact .inl ⟨e, he, href⟩
  | unpublish k =>
    obtain ⟨_, _, _, _, _, -, rfl⟩ := AnyMessage.Dispatcher.unpublish_cases h
    exact .inl ⟨e', he', rfl⟩
  | await k =>
    obtain ⟨_, _, _, _, _, _, _, -, -, rfl⟩ := AnyMessage.Dispatcher.await_cases h
    exact .inl ⟨e', he', rfl⟩
  | return' k =>
    obtain ⟨_, _, _, _, _, -, rfl⟩ := AnyMessage.Dispatcher.return_cases h
    exact .inl ⟨e', he', rfl⟩

-- The steps that are not those of a removal leave the calls alone.
theorem dispatcher_removals {d' : AnyMessage.Dispatcher} {i : AnyMessage.Dispatcher.Step}
    (hallowed : s.allows name i = true) (hinv : s.dispatcher.Inv) (hcalls : s.dispatcher.Calls)
    (h : AnyMessage.Dispatcher.step s.dispatcher i = some d') :
    d'.removals = s.dispatcher.removals := by
  cases i with
  | registerCallback owner hasCallback =>
    obtain rfl := Option.some_inj.mp h
    unfold AnyMessage.Dispatcher.registerCallback
    split <;> rfl
  | enqueue =>
    obtain rfl := Option.some_inj.mp h
    unfold AnyMessage.Dispatcher.enqueue
    split
    · rfl
    · split <;> rfl
  | take w =>
    obtain ⟨_, _, _, hs, -⟩ := hcalls.take_step hinv h
    exact hs.removals
  | finish w deregister =>
    obtain ⟨_, _, _, hs, -⟩ := AnyMessage.Dispatcher.finish_step h
    exact hs.removals
  | drop w =>
    obtain ⟨_, _, hs, -⟩ := hcalls.drop_step h
    exact hs.removals
  | release w =>
    obtain ⟨_, _, _, hs, -⟩ := hcalls.release_step h
    exact hs.removals
  | erase w =>
    obtain ⟨_, hs, -⟩ := hcalls.erase_step h
    exact hs.removals
  | publish caller command => exact absurd hallowed Bool.false_ne_true
  | section' k => exact absurd hallowed Bool.false_ne_true
  | unpublish k | await k => exact absurd hallowed Bool.false_ne_true
  | return' k => exact absurd hallowed Bool.false_ne_true

theorem EnvStep.dispatch {i : AnyMessage.Dispatcher.Step} (ht : s.dispatch name i = some s') :
    EnvStep name s s' := by
  unfold Management.dispatch at ht
  split at ht
  next hallowed =>
    obtain ⟨d, hd, rfl⟩ := Option.map_eq_some_iff.mp ht
    refine ⟨rfl, rfl, rfl, id, fun _ hfree => ⟨hfree.1, hfree.2, hfree.3, hfree.4, hfree.5, hfree.6,
      hfree.7⟩, ?_, fun hi hc => ⟨hi.step i hd, hc.step hi i hd⟩, ?_⟩
    · exact fun hi hc => dispatcher_removals hallowed hi hc hd
    · intro hi hc hfree e' he'
      rcases dispatcher_refs hi hc hd e' he' with hold | ⟨hasCallback, rfl⟩
      · exact .inl hold
      · simp only [allows, hfree.not_runsModule, Bool.or_false, bne_iff_ne] at hallowed
        exact .inr hallowed
  · exact absurd ht nofun

end Management

end Glider.Modules

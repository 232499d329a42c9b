import Mathlib.Data.List.Basic
import Glider.Lib.Transition

namespace Glider.Exec.Shutdown

open Glider.Lib

-- A worker in `threadFunction`. `outside` is everything it does without the mutex: the start of the
-- loop, a running task, and a wait that was woken and has to take the mutex again. `checked` has
-- found the predicate of the wait false and still holds the mutex.
inductive Worker where
  | outside
  | locked
  | passed
  | checked
  | asleep
  | exited
deriving DecidableEq

inductive Destructor where
  | notCalled
  | stored
  | notified
  | joined
deriving DecidableEq

-- `queue` is the number of queued tasks; `holder` is the worker that holds the mutex.
structure State where
  stopWorker : Bool
  queue : ℕ
  holder : Option ℕ
  workers : List Worker
  destructor : Destructor

def start (count : ℕ) : State := ⟨false, 0, none, List.replicate count .outside, .notCalled⟩

inductive Step where
  | lock (worker : ℕ)
  | evaluate (worker : ℕ)
  | sleep (worker : ℕ)
  | proceed (worker : ℕ)
  | wake (worker : ℕ)
  | emplace (accepted : Bool)
  | cancel (retained : ℕ)
  | store
  | notifyAll
  | join

def State.move (s : State) (worker : ℕ) (target : Worker) (holder : Option ℕ) : State :=
  { s with workers := s.workers.set worker target, holder := holder }

-- The wait predicate `!tasks.empty() || stopWorker`.
def State.predicate (s : State) : Bool := s.queue != 0 || s.stopWorker

def wakeUp : Worker → Worker
  | .asleep => .outside
  | other => other

-- A step of a worker that is at `pc`; the sections of the other threads, which push at most one task
-- or drop some, need the mutex to be free. `wake` is a `notify_one` or a wake-up without a cause.
def step : Transition State Step
  | s, .lock worker =>
    if s.workers[worker]? = some .outside ∧ s.holder = none then
      some (s.move worker .locked (some worker))
    else none
  | s, .evaluate worker =>
    if s.workers[worker]? = some .locked then
      some (s.move worker (if s.predicate then .passed else .checked) s.holder)
    else none
  | s, .sleep worker =>
    if s.workers[worker]? = some .checked then some (s.move worker .asleep none) else none
  | s, .proceed worker =>
    if s.workers[worker]? = some .passed then
      if s.queue = 0 then
        some (s.move worker (if s.stopWorker then .exited else .outside) none)
      else
        some { (s.move worker .outside none) with queue := s.queue - 1 }
    else none
  | s, .wake worker =>
    if s.workers[worker]? = some .asleep then some (s.move worker .outside s.holder) else none
  | s, .emplace accepted =>
    if s.holder = none then
      some { s with queue := if s.stopWorker = false ∧ accepted then s.queue + 1 else s.queue }
    else none
  | s, .cancel retained =>
    if s.holder = none ∧ retained ≤ s.queue then some { s with queue := retained } else none
  | s, .store =>
    if s.destructor = .notCalled then
      some { s with stopWorker := true, destructor := .stored }
    else none
  | s, .notifyAll =>
    if s.destructor = .stored then
      some { s with workers := s.workers.map wakeUp, destructor := .notified }
    else none
  | s, .join =>
    if s.destructor = .notified ∧ ∀ w ∈ s.workers, w = .exited then
      some { s with destructor := .joined }
    else none

def pastNotify : Destructor → Bool
  | .notified => true
  | .joined => true
  | _ => false

-- The destructor waits for a worker that nothing will wake.
def Stranded (s : State) : Prop :=
  pastNotify s.destructor = true ∧ .asleep ∈ s.workers ∧ s.queue = 0

instance (s : State) : Decidable (Stranded s) := inferInstanceAs (Decidable (_ ∧ _))

-- No worker is between its check of the predicate and its sleep when the destructor notifies.
def NoneChecked (s : State) : Step → Prop
  | .notifyAll => .checked ∉ s.workers
  | _ => True

instance (s : State) : ∀ i, Decidable (NoneChecked s i)
  | .notifyAll => inferInstanceAs (Decidable (_ ∉ _))
  | .lock _ | .evaluate _ | .sleep _ | .proceed _ | .wake _ | .emplace _ | .cancel _ | .store
  | .join => inferInstanceAs (Decidable True)

def inside : Worker → Bool
  | .locked | .passed | .checked => true
  | .outside | .asleep | .exited => false

-- The mutex is held by the worker that is inside it, and the queue does not change under it. Once
-- the destructor has notified, nobody sleeps or is about to.
structure Inv (s : State) : Prop where
  held : ∀ w pc, s.workers[w]? = some pc → inside pc = true → s.holder = some w
  waiting : .checked ∈ s.workers → s.queue = 0
  stop : s.stopWorker = true ↔ s.destructor ≠ .notCalled

variable {s t : State}

theorem Inv.start (count : ℕ) : Inv (start count) where
  held := by
    intro w pc h hi
    have hm := List.mem_of_getElem? h
    simp only [Shutdown.start, List.mem_replicate] at hm
    rw [hm.2] at hi
    exact absurd hi Bool.false_ne_true
  waiting := by simp [Shutdown.start, List.mem_replicate]
  stop := by simp [Shutdown.start]

theorem held_set {workers : List Worker} {w : ℕ} {new : Worker} {holder : Option ℕ}
    (hnew : inside new = true → holder = some w)
    (hother : ∀ v pc, v ≠ w → workers[v]? = some pc → inside pc = true → holder = some v) :
    ∀ v pc, (workers.set w new)[v]? = some pc → inside pc = true → holder = some v := by
  intro v pc hv hi
  by_cases he : v = w
  · subst he
    have hpc : new = pc := by
      rw [List.getElem?_set_self'] at hv
      cases hg : workers[v]? with
      | none => simp [hg] at hv
      | some old => simpa [hg] using hv
    exact hnew (hpc ▸ hi)
  · rw [List.getElem?_set_ne (Ne.symm he)] at hv
    exact hother v pc he hv hi

-- The holder is the only worker inside.
theorem Inv.alone (h : Inv s) {w : ℕ} {pc : Worker} (hw : s.workers[w]? = some pc)
    (hi : inside pc = true) {holder : Option ℕ} :
    ∀ v pc', v ≠ w → s.workers[v]? = some pc' → inside pc' = true → holder = some v := by
  intro v pc' hne hv hi'
  have heq := (h.held v pc' hv hi').symm.trans (h.held w pc hw hi)
  exact absurd (Option.some_inj.mp heq) hne

theorem mem_of_mem_set {workers : List Worker} {w : ℕ} {new pc : Worker}
    (h : pc ∈ workers.set w new) (hne : pc ≠ new) : pc ∈ workers := by
  rcases List.mem_or_eq_of_mem_set h with h | h
  · exact h
  · exact absurd h hne

theorem Inv.leave (h : Inv s) {w : ℕ} {pc new : Worker} (hw : s.workers[w]? = some pc)
    (hi : inside pc = true) (hnew : inside new = false) (queue : ℕ)
    (hq : s.queue = 0 → queue = 0) : Inv { (s.move w new none) with queue := queue } where
  held := held_set (fun ht => absurd (hnew.symm.trans ht) Bool.false_ne_true) (h.alone hw hi)
  waiting := by
    intro hc
    have hne : Worker.checked ≠ new := by
      rintro rfl
      exact absurd hnew (by decide)
    exact hq (h.waiting (mem_of_mem_set hc hne))
  stop := h.stop

theorem mem_map_wakeUp {pc : Worker} {workers : List Worker} (h : pc ∈ workers.map wakeUp)
    (hne : pc ≠ .outside) : pc ∈ workers := by
  obtain ⟨old, hm, rfl⟩ := List.mem_map.mp h
  cases old with
  | asleep => exact absurd rfl hne
  | outside | locked | passed | checked | exited => exact hm

theorem Inv.step (h : Inv s) (i : Step) (ht : step s i = some t) : Inv t := by
  cases i with
  | lock w =>
    obtain ⟨⟨hw, hn⟩, rfl⟩ := Transition.enabled_eq_some ht
    refine ⟨held_set (fun _ => rfl) ?_, ?_, h.stop⟩
    · intro v pc _ hv hi
      exact absurd (hn.symm.trans (h.held v pc hv hi)) nofun
    · exact fun hc => h.waiting (mem_of_mem_set hc nofun)
  | evaluate w =>
    obtain ⟨hw, rfl⟩ := Transition.enabled_eq_some ht
    have hholder := h.held w _ hw rfl
    refine ⟨held_set (fun _ => hholder) (fun v pc _ hv hi => h.held v pc hv hi), ?_, h.stop⟩
    intro hc
    rcases List.mem_or_eq_of_mem_set hc with hc | hc
    · exact h.waiting hc
    · cases hp : s.predicate with
      | true => rw [hp] at hc; exact absurd hc nofun
      | false =>
        show s.queue = 0
        simpa using (Bool.or_eq_false_iff.mp hp).1
  | sleep w =>
    obtain ⟨hw, rfl⟩ := Transition.enabled_eq_some ht
    exact h.leave hw rfl rfl s.queue id
  | proceed w =>
    simp only [Shutdown.step] at ht
    by_cases hw : s.workers[w]? = some .passed
    · rw [if_pos hw] at ht
      by_cases hq : s.queue = 0
      · rw [if_pos hq] at ht
        obtain rfl := Option.some_inj.mp ht
        refine h.leave hw rfl ?_ s.queue id
        cases s.stopWorker <;> rfl
      · rw [if_neg hq] at ht
        obtain rfl := Option.some_inj.mp ht
        exact h.leave hw rfl rfl (s.queue - 1) (fun h0 => absurd h0 hq)
    · rw [if_neg hw] at ht
      exact absurd ht nofun
  | wake w =>
    obtain ⟨hw, rfl⟩ := Transition.enabled_eq_some ht
    refine ⟨held_set nofun (fun v pc _ hv hi => h.held v pc hv hi), ?_, h.stop⟩
    exact fun hc => h.waiting (mem_of_mem_set hc nofun)
  | emplace accepted =>
    obtain ⟨hn, rfl⟩ := Transition.enabled_eq_some ht
    refine ⟨h.held, ?_, h.stop⟩
    intro hc
    obtain ⟨v, hlt, hv⟩ := List.getElem_of_mem hc
    have hh := h.held v .checked (List.getElem?_eq_some_iff.mpr ⟨hlt, hv⟩) rfl
    exact absurd (hn.symm.trans hh) nofun
  | cancel retained =>
    obtain ⟨⟨-, hle⟩, rfl⟩ := Transition.enabled_eq_some ht
    refine ⟨h.held, ?_, h.stop⟩
    intro hc
    have h0 := h.waiting hc
    show retained = 0
    omega
  | store =>
    obtain ⟨-, rfl⟩ := Transition.enabled_eq_some ht
    exact ⟨h.held, h.waiting, by simp⟩
  | notifyAll =>
    obtain ⟨hd, rfl⟩ := Transition.enabled_eq_some ht
    refine ⟨?_, fun hc => h.waiting (mem_map_wakeUp hc nofun), ?_⟩
    · intro v pc hv hi
      rw [List.getElem?_map, Option.map_eq_some_iff] at hv
      obtain ⟨old, hold, rfl⟩ := hv
      refine h.held v old hold ?_
      cases old <;> exact hi
    · rw [h.stop, hd]
      simp
  | join =>
    obtain ⟨⟨hd, -⟩, rfl⟩ := Transition.enabled_eq_some ht
    refine ⟨h.held, h.waiting, ?_⟩
    rw [h.stop, hd]
    simp

-- Nobody sleeps or is about to once the destructor has notified.
def Quiet (s : State) : Prop :=
  pastNotify s.destructor = true → .asleep ∉ s.workers ∧ .checked ∉ s.workers

theorem Quiet.set (h : Quiet s) {w : ℕ} {new : Worker} (hd : t.destructor = s.destructor)
    (hw : t.workers = s.workers.set w new) (ha : new ≠ .asleep) (hc : new ≠ .checked) : Quiet t := by
  intro hp
  obtain ⟨hasleep, hchecked⟩ := h (hd ▸ hp)
  rw [hw]
  exact ⟨fun hm => hasleep (mem_of_mem_set hm ha.symm),
    fun hm => hchecked (mem_of_mem_set hm hc.symm)⟩

theorem Quiet.step (h : Quiet s) (hinv : Inv s) {i : Step} (hg : NoneChecked s i)
    (ht : step s i = some t) : Quiet t := by
  cases i with
  | lock w =>
    obtain ⟨-, rfl⟩ := Transition.enabled_eq_some ht
    exact h.set rfl rfl nofun nofun
  | evaluate w =>
    obtain ⟨-, rfl⟩ := Transition.enabled_eq_some ht
    intro hp
    -- The flag is set by now, so the predicate is true.
    have hstop : s.stopWorker = true := by
      rw [hinv.stop]
      intro hn
      have hp' : pastNotify s.destructor = true := hp
      rw [hn] at hp'
      exact absurd hp' Bool.false_ne_true
    have hpred : s.predicate = true := by rw [State.predicate, hstop, Bool.or_true]
    rw [hpred, if_pos rfl] at hp ⊢
    exact h.set (t := s.move w .passed s.holder) rfl rfl nofun nofun hp
  | sleep w =>
    obtain ⟨hw, rfl⟩ := Transition.enabled_eq_some ht
    intro hp
    exact absurd (List.mem_of_getElem? hw) (h hp).2
  | proceed w =>
    simp only [Shutdown.step] at ht
    by_cases hw : s.workers[w]? = some .passed
    · rw [if_pos hw] at ht
      by_cases hq : s.queue = 0
      · rw [if_pos hq] at ht
        obtain rfl := Option.some_inj.mp ht
        refine h.set rfl rfl ?_ ?_ <;> cases s.stopWorker <;> nofun
      · rw [if_neg hq] at ht
        obtain rfl := Option.some_inj.mp ht
        exact h.set rfl rfl nofun nofun
    · rw [if_neg hw] at ht
      exact absurd ht nofun
  | wake w =>
    obtain ⟨-, rfl⟩ := Transition.enabled_eq_some ht
    exact h.set rfl rfl nofun nofun
  | emplace accepted | cancel retained =>
    obtain ⟨-, rfl⟩ := Transition.enabled_eq_some ht
    exact h
  | store =>
    obtain ⟨-, rfl⟩ := Transition.enabled_eq_some ht
    exact fun hp => absurd hp Bool.false_ne_true
  | notifyAll =>
    obtain ⟨-, rfl⟩ := Transition.enabled_eq_some ht
    intro _
    refine ⟨?_, fun hm => hg (mem_map_wakeUp hm nofun)⟩
    intro hm
    obtain ⟨old, -, ho⟩ := List.mem_map.mp hm
    cases old <;> exact absurd ho nofun
  | join =>
    obtain ⟨⟨hd, -⟩, rfl⟩ := Transition.enabled_eq_some ht
    intro _
    exact h (by rw [hd]; rfl)

theorem path_inv {count : ℕ} {steps : List Step}
    (hp : Transition.path step (start count) steps = some s) : Inv s :=
  Transition.path_invariant_of_step Inv (fun _ i _ h ht => h.step i ht) (Inv.start count) hp

-- A worker that has checked in vain when the destructor notifies goes to sleep for good.
theorem stranded_of_checked (h : Inv s) (hd : s.destructor = .stored) (hc : .checked ∈ s.workers) :
    ∃ w t, Transition.path step s [.notifyAll, .sleep w] = some t ∧ Stranded t := by
  obtain ⟨w, hlt, hw⟩ := List.getElem_of_mem hc
  have hget : s.workers[w]? = some .checked := List.getElem?_eq_some_iff.mpr ⟨hlt, hw⟩
  have hq := h.waiting hc
  have hmap : (s.workers.map wakeUp)[w]? = some .checked := by
    rw [List.getElem?_map, hget]
    rfl
  refine ⟨w, _, Transition.path_cons_eq_some.mpr ⟨_, if_pos hd,
    Transition.path_cons_eq_some.mpr ⟨_, if_pos hmap, rfl⟩⟩, rfl, ?_, hq⟩
  have hlen : w < (s.workers.map wakeUp).length := by rwa [List.length_map]
  exact List.mem_set hlen _

-- The wake-up is not lost in the runs in which no worker is caught between check and sleep, and it
-- is lost in a continuation of every other.
theorem shutdown_wakes_all (count : ℕ) (steps : List Step) (s : State)
    (hp : Transition.path step (start count) steps = some s) :
    (Transition.Guarded step NoneChecked (start count) steps → ¬Stranded s) ∧
    (s.destructor = .stored → .checked ∈ s.workers →
      ∃ more t, Transition.path step s more = some t ∧ Stranded t) := by
  constructor
  · intro hg hs
    have hq : Inv s ∧ Quiet s := by
      refine Transition.path_invariant (fun s => Inv s ∧ Quiet s) ?_ ?_ hg hp
      · exact fun u i v hu hi hv => ⟨hu.1.step i hv, hu.2.step hu.1 hi hv⟩
      · exact ⟨Inv.start count, fun h => absurd h Bool.false_ne_true⟩
    exact (hq.2 hs.1).1 hs.2.1
  · intro hd hc
    obtain ⟨w, t, ht, hs⟩ := stranded_of_checked (path_inv hp) hd hc
    exact ⟨_, t, ht, hs⟩

-- One worker sleeps before the destructor is called, is woken and leaves.
def orderlyRun : List Step :=
  [.lock 0, .evaluate 0, .sleep 0, .store, .notifyAll, .lock 0, .evaluate 0, .proceed 0, .join]

theorem shutdown_wakes_all_orderlyRun : ∃ s,
    Transition.path step (start 1) orderlyRun = some s ∧ s.destructor = .joined ∧ ¬Stranded s := by
  obtain ⟨s, hp, hd⟩ := Transition.exists_path step (start 1) orderlyRun
    (fun s => s.destructor = .joined) (by decide)
  exact ⟨s, hp, hd, (shutdown_wakes_all 1 orderlyRun s hp).1 (by decide)⟩

-- The flag is stored and the notification sent while the worker is on its way to sleep.
theorem wakeUp_lost : ¬∀ (count : ℕ) (steps : List Step) (s : State),
    Transition.path step (start count) steps = some s → ¬Stranded s := by
  intro h
  obtain ⟨s, hp, hs⟩ := Transition.exists_path step (start 1)
    [.lock 0, .evaluate 0, .store, .notifyAll, .sleep 0] Stranded (by decide)
  exact h 1 _ s hp hs

end Glider.Exec.Shutdown

import Glider.Lib.DepthFirst
import Glider.AnyMessage.Calls

namespace Glider.AnyMessage

open Glider.Lib Relation

namespace Dispatcher

-- The entry whose leases a call waits for.
def blockedOn (d : Dispatcher) (r : Removal) : Option ℕ :=
  match r.stage with
  | .waiting _ (id :: _) => if 0 < d.leases id then some id else none
  | _ => none

-- The worker is blocked in a call it makes from inside a callback.
def Blocked (d : Dispatcher) (w : ℕ) : Prop :=
  ∃ r ∈ d.removals, r.caller = some w ∧ (d.blockedOn r).isSome = true

-- Worker `v` has yet to wait for a callback that worker `w` executes.
def Waits (d : Dispatcher) (v w : ℕ) : Prop :=
  ∃ r ∈ d.removals, r.caller = some v ∧
    ∃ entry message, d.workers[w]? = some (.executing entry message) ∧ entry.id ∈ r.stage.left

-- No worker takes out a callback that is executed by a worker waiting for it.
def Orderly (d : Dispatcher) : Step → Prop
  | .section' k => ∀ r v, d.removals[k]? = some r → r.caller = some v →
      ∀ e ∈ d.callbacks, e.ownerCommand = r.command → r.current.map Ref.id ≠ some e.id →
      ∀ w entry message, d.workers[w]? = some (.executing entry message) → entry.id = e.id →
      ¬TransGen d.Waits w v
  | _ => True

-- The threads inside `removeCallbacksForCommand` in a state.
structure Live (d : Dispatcher) : Prop where
  not_mutual : ∀ r ∈ d.removals, ∀ r' ∈ d.removals, ∀ v w id id', r.caller = some v →
    r'.caller = some w → d.blockedOn r = some id → d.blockedOn r' = some id' →
    ¬((d.workers[w]?.bind executes) = some id ∧ (d.workers[v]?.bind executes) = some id')
  releasable : (∃ r ∈ d.removals, (d.blockedOn r).isSome = true) →
    ∃ r ∈ d.removals, ∃ id, d.blockedOn r = some id ∧
      ∀ (w : ℕ) (worker : Worker), d.workers[w]? = some worker → leased worker = some id →
        ¬d.Blocked w

variable {d d' : Dispatcher}

theorem blockedOn_left {r : Removal} {id : ℕ} (h : d.blockedOn r = some id) :
    id ∈ r.stage.left := by
  unfold blockedOn at h
  split at h
  next removed first left hs =>
    obtain ⟨-, rfl⟩ := Transition.enabled_eq_some h
    rw [hs]
    exact List.mem_cons_self
  · exact absurd h nofun

theorem waits_of_blocked {r : Removal} (hr : r ∈ d.removals) {v w id : ℕ}
    (hc : r.caller = some v) (hb : d.blockedOn r = some id)
    (hx : (d.workers[w]?.bind executes) = some id) : d.Waits v w := by
  obtain ⟨worker, hw, hid⟩ := Option.bind_eq_some_iff.mp hx
  cases worker with
  | executing entry message =>
    obtain rfl := Option.some_inj.mp hid
    exact ⟨r, hr, hc, entry, message, hw, blockedOn_left hb⟩
  | idle | releasing _ _ | dropped _ _ | erasing _ => exact absurd hid nofun

theorem ne_returned_of_left {stage : Stage} {id : ℕ} (h : id ∈ stage.left) : stage ≠ .returned := by
  rintro rfl
  exact absurd h List.not_mem_nil

-- A blocked worker executes the callback from which it makes the call.
theorem Calls.blocked_executing (h : Calls d) {w : ℕ} (hb : d.Blocked w) :
    ∃ entry message, d.workers[w]? = some (.executing entry message) := by
  obtain ⟨r, hr, hc, hsome⟩ := hb
  obtain ⟨id, hid⟩ := Option.isSome_iff_exists.mp hsome
  obtain ⟨entry, message, hw, -⟩ :=
    (h.calls r hr).calling (ne_returned_of_left (blockedOn_left hid)) w hc
  exact ⟨entry, message, hw⟩

-- Among the blocked workers there is one that waits for no other; without any, whoever is blocked is
-- not held up by a blocked worker.
theorem Calls.live (h : Calls d) (ha : Acyclic d.Waits) : Live d := by
  refine ⟨?_, ?_⟩
  · rintro r hr r' hr' v w id id' hc hc' hb hb' ⟨hx, hx'⟩
    exact ha v (.tail (.single (waits_of_blocked hr hc hb hx)) (waits_of_blocked hr' hc' hb' hx'))
  · rintro ⟨r₀, hr₀, hb₀⟩
    by_cases hsome : ∃ w, d.Blocked w
    · have hfinite : {w | d.Blocked w}.Finite := by
        refine (Set.finite_lt_nat d.workers.length).subset ?_
        intro w hw
        obtain ⟨entry, message, hx⟩ := h.blocked_executing hw
        exact (List.getElem?_eq_some_iff.mp hx).1
      obtain ⟨v, ⟨r, hr, hc, hb⟩, hsink⟩ := ha.exists_sink hfinite hsome
      obtain ⟨id, hid⟩ := Option.isSome_iff_exists.mp hb
      refine ⟨r, hr, id, hid, ?_⟩
      intro w worker hw hl hblocked
      obtain ⟨entry, message, hx⟩ := h.blocked_executing hblocked
      obtain rfl := Option.some_inj.mp (hw.symm.trans hx)
      refine hsink w hblocked (waits_of_blocked hr hc hid ?_)
      rw [hx]
      exact hl
    · obtain ⟨id, hid⟩ := Option.isSome_iff_exists.mp hb₀
      exact ⟨r₀, hr₀, id, hid, fun w _ _ _ hw => hsome ⟨w, hw⟩⟩

-- What a worker takes up is registered, and no call waits for that.
theorem Waits.of_worker (hcalls : Calls d) {w : ℕ} {old new : Worker}
    (hs : WorkerStep d d' w old new) (hnew : executes new = none ∨ holds old = none) {x y : ℕ}
    (h : d'.Waits x y) : d.Waits x y := by
  obtain ⟨r, hr, hc, entry, message, hy, hid⟩ := h
  rw [hs.removals] at hr
  rw [hs.workers] at hy
  rcases Slots.getElem?_set_cases hy with ⟨rfl, rfl⟩ | ⟨-, hy⟩
  · have ok := hcalls.calls r hr
    rcases hs.held entry rfl with hsame | ⟨e, he, rfl⟩
    · exact absurd ((hnew.resolve_left nofun).symm.trans hsame) nofun
    · exact absurd rfl (ok.removed_free _ (ok.left_removed _ hid) e he)
  · exact ⟨r, hr, hc, entry, message, hy, hid⟩

-- A step of a call after which it has no more to wait for than before.
theorem Waits.of_call {x y : ℕ} (h : d'.Waits x y) {k : ℕ} {old new : Removal}
    (hk : d.removals[k]? = some old) (hremovals : d'.removals = d.removals.set k new)
    (hworkers : d'.workers = d.workers) (hcaller : new.caller = old.caller)
    (hleft : ∀ id ∈ new.stage.left, id ∈ old.stage.left) : d.Waits x y := by
  obtain ⟨r, hr, hc, entry, message, hy, hid⟩ := h
  rw [hremovals] at hr
  rw [hworkers] at hy
  rcases List.mem_or_eq_of_mem_set hr with hr | rfl
  · exact ⟨r, hr, hc, entry, message, hy, hid⟩
  · exact ⟨old, List.mem_of_getElem? hk, hcaller.symm.trans hc, entry, message, hy, hleft _ hid⟩

theorem Waits.of_same (hremovals : d'.removals = d.removals) (hworkers : d'.workers = d.workers)
    {x y : ℕ} (h : d'.Waits x y) : d.Waits x y := by
  obtain ⟨r, hr, hc, entry, message, hy, hid⟩ := h
  exact ⟨r, hremovals ▸ hr, hc, entry, message, hworkers ▸ hy, hid⟩

-- The only step that adds to what the workers wait for. The edges leave the calling worker for those
-- that execute what is taken out, and the guard keeps these from waiting for it.
theorem acyclic_section (ha : Acyclic d.Waits) (hcalls : Calls d) {k : ℕ}
    (hg : Orderly d (.section' k)) (ht : d.section' k = some d') : Acyclic d'.Waits := by
  obtain ⟨r, removed, hs⟩ := section_step ht
  have hr := List.mem_of_getElem? hs.was
  have hedge : ∀ x y, d'.Waits x y → d.Waits x y ∨ r.caller = some x ∧
      ∃ entry message, d.workers[y]? = some (.executing entry message) ∧ entry.id ∈ removed := by
    rintro x y ⟨q, hq, hc, entry, message, hy, hid⟩
    rw [hs.removals] at hq
    rw [hs.workers] at hy
    rcases List.mem_or_eq_of_mem_set hq with hq | rfl
    · exact .inl ⟨q, hq, hc, entry, message, hy, hid⟩
    · exact .inr ⟨hc, entry, message, hy, hid⟩
  cases hc : r.caller with
  | none =>
    refine ha.anti fun x y hxy => (hedge x y hxy).resolve_right ?_
    rintro ⟨hx, -⟩
    exact absurd (hc.symm.trans hx) nofun
  | some v =>
    refine ha.add (v := v) fun x y hxy => (hedge x y hxy).imp_right ?_
    rintro ⟨hx, entry, message, hy, hid⟩
    obtain ⟨e, he, heq, hown, hcur⟩ := (hs.mem_removed _).mp hid
    refine ⟨(Option.some_inj.mp (hc.symm.trans hx)).symm, fun hpath => ?_⟩
    rcases reflTransGen_iff_eq_or_transGen.mp hpath with rfl | hpath
    · obtain ⟨entry', message', hv, hcurrent⟩ :=
        (hcalls.calls r hr).calling (by simp [hs.published]) v hc
      obtain ⟨rfl, -⟩ := Worker.executing.inj (Option.some_inj.mp (hy.symm.trans hv))
      exact hcur (by rw [hcurrent, heq]; rfl)
    · exact hg r v hs.was hc e he hown hcur y entry message hy heq.symm hpath

theorem acyclic_step (ha : Acyclic d.Waits) (hinv : Inv d) (hcalls : Calls d) (i : Step)
    (hg : Orderly d i) (ht : Dispatcher.step d i = some d') : Acyclic d'.Waits := by
  cases i with
  | registerCallback ownerCommand hasCallback =>
    obtain rfl := Option.some_inj.mp ht
    refine ha.anti fun x y h => ?_
    unfold Dispatcher.registerCallback at h
    split at h
    · exact h
    · exact h.of_same rfl rfl
  | enqueue =>
    obtain rfl := Option.some_inj.mp ht
    refine ha.anti fun x y h => ?_
    unfold Dispatcher.enqueue at h
    split at h
    · exact h.of_same rfl rfl
    · split at h
      · exact h.of_same rfl rfl
      · exact h.of_same rfl rfl
  | take w =>
    obtain ⟨_, _, _, hs, -⟩ := hcalls.take_step hinv ht
    exact ha.anti fun x y h => h.of_worker hcalls hs (.inr rfl)
  | finish w deregister =>
    obtain ⟨_, _, _, hs, -⟩ := finish_step ht
    exact ha.anti fun x y h => h.of_worker hcalls hs (.inl rfl)
  | drop w =>
    obtain ⟨_, _, hs, -⟩ := hcalls.drop_step ht
    exact ha.anti fun x y h => h.of_worker hcalls hs (.inl rfl)
  | release w =>
    obtain ⟨_, _, _, hs, -, hnew, -⟩ := hcalls.release_step ht
    exact ha.anti fun x y h => h.of_worker hcalls hs (.inl hnew)
  | erase w =>
    obtain ⟨_, hs, -⟩ := hcalls.erase_step ht
    exact ha.anti fun x y h => h.of_worker hcalls hs (.inl rfl)
  | publish caller command =>
    obtain ⟨current, rfl, -⟩ := publish_cases ht
    refine ha.anti ?_
    rintro x y ⟨r, hr, hc, entry, message, hy, hid⟩
    rcases List.mem_append.mp hr with hr | hr
    · exact ⟨r, hr, hc, entry, message, hy, hid⟩
    · rw [List.mem_singleton.mp hr] at hid
      exact absurd hid List.not_mem_nil
  | section' k => exact acyclic_section ha hcalls hg ht
  | unpublish k =>
    obtain ⟨_, _, _, _, _, hk, rfl⟩ := unpublish_cases ht
    exact ha.anti fun x y h => h.of_call hk rfl rfl rfl fun _ hid => hid
  | await k =>
    obtain ⟨_, _, _, _, _, _, _, hk, -, rfl⟩ := await_cases ht
    exact ha.anti fun x y h => h.of_call hk rfl rfl rfl fun _ hid => List.mem_cons_of_mem _ hid
  | return' k =>
    obtain ⟨_, _, _, _, _, hk, rfl⟩ := return_cases ht
    exact ha.anti fun x y h => h.of_call hk rfl rfl rfl fun _ hid => absurd hid List.not_mem_nil

-- In the runs in which no worker takes out a callback of a worker that waits for it, the threads
-- inside `removeCallbacksForCommand` do not block each other.
theorem removals_live (workerCount maxPendingInvocations : ℕ) (steps : List Step) (d : Dispatcher)
    (hp : Transition.path step (create workerCount maxPendingInvocations) steps = some d)
    (hg : Transition.Guarded step Orderly (create workerCount maxPendingInvocations) steps) :
    Live d := by
  have hall : Inv d ∧ Calls d ∧ Acyclic d.Waits := by
    refine Transition.path_invariant (fun d => Inv d ∧ Calls d ∧ Acyclic d.Waits) ?_ ?_ hg hp
    · exact fun d i d' h hi ht => ⟨h.1.step i ht, h.2.1.step h.1 i ht,
        acyclic_step h.2.2 h.1 h.2.1 i hi ht⟩
    · have hnone : ∀ x y, ¬(create workerCount maxPendingInvocations).Waits x y := by
        rintro x y ⟨r, hr, -⟩
        exact absurd hr List.not_mem_nil
      refine ⟨Inv.create _ _, Calls.create _ _, ?_⟩
      intro x hx
      obtain ⟨y, hxy, -⟩ := TransGen.head'_iff.mp hx
      exact hnone x y hxy
  exact hall.2.1.live hall.2.2

-- A guard that can be evaluated: no call has anything to wait for.
def NoneWaiting (d : Dispatcher) : Step → Prop
  | .section' _ => ∀ r ∈ d.removals, r.stage.left = []
  | _ => True

instance NoneWaiting.decidable (d : Dispatcher) : (i : Step) → Decidable (NoneWaiting d i)
  | .section' _ => inferInstanceAs (Decidable (∀ r ∈ d.removals, r.stage.left = []))
  | .registerCallback _ _ | .enqueue | .take _ | .finish _ _ | .drop _ | .release _ | .erase _
  | .publish _ _ | .unpublish _ | .await _ | .return' _ => isTrue trivial

theorem NoneWaiting.orderly {i : Step} (h : NoneWaiting d i) : Orderly d i := by
  cases i with
  | section' k =>
    intro r v _ _ e _ _ _ w entry message _ _ hpath
    obtain ⟨y, ⟨q, hq, -, _, _, -, hid⟩, -⟩ := TransGen.head'_iff.mp hpath
    rw [h q hq] at hid
    exact absurd hid List.not_mem_nil
  | _ => trivial

-- Two callbacks of one owner run, and one of them removes the callbacks of the owner.
def reentrantRun : List Step :=
  [.registerCallback "a" true, .registerCallback "a" true, .enqueue, .take 0, .take 1,
    .publish (some 0) "a", .section' 0, .unpublish 0]

theorem removals_live_reentrantRun : ∃ d,
    Transition.path step (create 2 8) reentrantRun = some d ∧
    (∃ r ∈ d.removals, d.blockedOn r = some 2) ∧ Live d := by
  obtain ⟨d, hp, hb⟩ := Transition.exists_path step (create 2 8) reentrantRun
    (fun d => ∃ r ∈ d.removals, d.blockedOn r = some 2) (by decide)
  have hg : Transition.Guarded step NoneWaiting (create 2 8) reentrantRun := by decide
  exact ⟨d, hp, hb, removals_live 2 8 reentrantRun d hp (hg.mono fun _ _ h => h.orderly)⟩

-- Both callbacks remove the callbacks of their owner. Each call waits for the other worker.
theorem removals_deadlock : ¬∀ (workerCount maxPendingInvocations : ℕ) (steps : List Step)
    (d : Dispatcher), 2 ≤ workerCount →
    Transition.path step (create workerCount maxPendingInvocations) steps = some d → Live d := by
  intro h
  obtain ⟨d, hp, r, hr, r', hr', hc, hc', hb, hb', hx, hx'⟩ := Transition.exists_path step
    (create 2 8)
    [.registerCallback "a" true, .registerCallback "a" true, .enqueue, .take 0, .take 1,
      .publish (some 0) "a", .publish (some 1) "a", .section' 0, .section' 1, .unpublish 0,
      .unpublish 1]
    (fun d => ∃ r ∈ d.removals, ∃ r' ∈ d.removals, r.caller = some 0 ∧ r'.caller = some 1 ∧
      d.blockedOn r = some 2 ∧ d.blockedOn r' = some 1 ∧
      d.workers[1]?.bind executes = some 2 ∧ d.workers[0]?.bind executes = some 1) (by decide)
  exact (h 2 8 _ d (Nat.le_refl _) hp).not_mutual r hr r' hr' 0 1 2 1 hc hc' hb hb' ⟨hx, hx'⟩

end Dispatcher

end Glider.AnyMessage

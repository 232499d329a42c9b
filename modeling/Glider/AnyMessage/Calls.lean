import Glider.AnyMessage.Registry

namespace Glider.AnyMessage

open Glider.Lib

-- The entry a worker has a lease of, and the one it has a reference to.
def leased : Worker → Option ℕ
  | .executing entry _ => some entry.id
  | .releasing entry _ => some entry.id
  | .dropped entry _ => some entry.id
  | _ => none

def holds : Worker → Option Ref
  | .executing entry _ => some entry
  | .releasing entry _ => some entry
  | _ => none

namespace Stage

def removed : Stage → List ℕ
  | .detached removed => removed
  | .waiting removed _ => removed
  | _ => []

def left : Stage → List ℕ
  | .detached removed => removed
  | .waiting _ left => left
  | _ => []

-- The request of the call is counted.
def counted : Stage → Bool
  | .published => true
  | .detached _ => true
  | _ => false

end Stage

-- The thread is not inside a callback of the command.
def Removal.Outside (r : Removal) : Prop :=
  ∀ entry, r.current = some entry → entry.ownerCommand ≠ r.command

namespace Dispatcher

-- What holds of one call of `removeCallbacksForCommand`.
structure CallOk (d : Dispatcher) (r : Removal) : Prop where
  calling : r.stage ≠ .returned → ∀ w, r.caller = some w →
    ∃ entry message, d.workers[w]? = some (.executing entry message) ∧ r.current = some entry
  alone : r.caller = none → r.current = none
  before_le : r.before ≤ d.nextId
  removed_lt : ∀ id ∈ r.stage.removed, id < d.nextId
  removed_free : ∀ id ∈ r.stage.removed, ∀ e ∈ d.callbacks, e.id ≠ id
  left_removed : ∀ id ∈ r.stage.left, id ∈ r.stage.removed
  drained : ∀ id ∈ r.stage.removed, id ∈ r.stage.left ∨ d.leases id = 0
  cleared : r.Outside → r.stage ≠ .published →
    ∀ e ∈ d.callbacks, e.ownerCommand = r.command → r.before ≤ e.id

structure Calls (d : Dispatcher) : Prop where
  leases : ∀ id, d.leases id = (d.workers.filterMap leased).count id
  requests : d.cancellationRequests = d.removals.countP fun r => r.stage.counted
  held_lt : ∀ entry ∈ d.workers.filterMap holds, entry.id < d.nextId
  owners : ∀ entry ∈ d.workers.filterMap holds, ∀ e ∈ d.callbacks, e.id = entry.id → e.ref = entry
  apart : ∀ (j k : ℕ) (r r' : Removal), d.removals[j]? = some r → d.removals[k]? = some r' →
    ∀ id ∈ r.stage.removed, id ∈ r'.stage.removed → j = k
  calls : ∀ r ∈ d.removals, CallOk d r

variable {d d' : Dispatcher}

theorem Calls.create (workerCount maxPendingInvocations : ℕ) :
    Calls (create workerCount maxPendingInvocations) := by
  have hl : (List.replicate workerCount Worker.idle).filterMap leased = [] := by
    simp [List.filterMap_replicate, leased]
  have hh : (List.replicate workerCount Worker.idle).filterMap holds = [] := by
    simp [List.filterMap_replicate, holds]
  refine ⟨?_, rfl, ?_, ?_, ?_, fun r hr => absurd hr List.not_mem_nil⟩
  · intro id
    show 0 = ((List.replicate workerCount Worker.idle).filterMap leased).count id
    rw [hl]
    rfl
  · intro entry he
    have he' : entry ∈ (List.replicate workerCount Worker.idle).filterMap holds := he
    rw [hh] at he'
    exact absurd he' List.not_mem_nil
  · exact fun _ _ e he => absurd he List.not_mem_nil
  · exact fun j k r r' hj => absurd hj (by simp [Dispatcher.create])

-- A step that leaves a call alone: its caller goes on with what it does, new entries have new ids,
-- and no removed entry gets a lease.
theorem CallOk.mono {r : Removal} (h : CallOk d r)
    (hcaller : r.stage ≠ .returned → ∀ w, r.caller = some w → d'.workers[w]? = d.workers[w]?)
    (hnext : d.nextId ≤ d'.nextId)
    (hcallbacks : ∀ e' ∈ d'.callbacks, (∃ e ∈ d.callbacks, e'.ref = e.ref) ∨ d.nextId ≤ e'.id)
    (hleases : ∀ id ∈ r.stage.removed, d.leases id = 0 → d'.leases id = 0) : CallOk d' r := by
  refine ⟨?_, h.alone, Nat.le_trans h.before_le hnext, ?_, ?_, h.left_removed, ?_, ?_⟩
  · intro hs w hw
    rw [hcaller hs w hw]
    exact h.calling hs w hw
  · exact fun id hid => Nat.lt_of_lt_of_le (h.removed_lt id hid) hnext
  · intro id hid e' he' heq
    rcases hcallbacks e' he' with ⟨e, he, href⟩ | hnew
    · exact h.removed_free id hid e he ((congrArg Ref.id href).symm.trans heq)
    · have hlt := h.removed_lt id hid
      omega
  · exact fun id hid => (h.drained id hid).imp_right (hleases id hid)
  · intro ho hs e' he' hown
    rcases hcallbacks e' he' with ⟨e, he, href⟩ | hnew
    · rw [show e'.id = e.id from congrArg Ref.id href]
      exact h.cleared ho hs e he ((congrArg Ref.ownerCommand href).symm.trans hown)
    · exact Nat.le_trans h.before_le hnew

-- The steps of the threads that register and enqueue.
theorem Calls.of_callbacks (h : Calls d) (hleases : d'.leases = d.leases)
    (hworkers : d'.workers = d.workers)
    (hrequests : d'.cancellationRequests = d.cancellationRequests)
    (hremovals : d'.removals = d.removals) (hnext : d.nextId ≤ d'.nextId)
    (hcallbacks : ∀ e' ∈ d'.callbacks, (∃ e ∈ d.callbacks, e'.ref = e.ref) ∨ d.nextId ≤ e'.id) :
    Calls d' := by
  refine ⟨?_, ?_, ?_, ?_, hremovals ▸ h.apart, ?_⟩
  · rw [hleases, hworkers]
    exact h.leases
  · rw [hrequests, hremovals]
    exact h.requests
  · rw [hworkers]
    exact fun entry he => Nat.lt_of_lt_of_le (h.held_lt entry he) hnext
  · rw [hworkers]
    intro entry hentry e' he' heq
    rcases hcallbacks e' he' with ⟨e, he, href⟩ | hnew
    · rw [href]
      exact h.owners entry hentry e he ((congrArg Ref.id href).symm.trans heq)
    · have hlt := h.held_lt entry hentry
      omega
  · rw [hremovals]
    intro r hr
    exact (h.calls r hr).mono (fun _ w _ => by rw [hworkers]) hnext hcallbacks
      fun id _ hz => by rw [hleases, hz]

theorem Calls.registerCallback (h : Calls d) (ownerCommand : String) (hasCallback : Bool) :
    Calls (d.registerCallback ownerCommand hasCallback).2 := by
  unfold Dispatcher.registerCallback
  split
  · exact h
  · refine h.of_callbacks rfl rfl rfl rfl (Nat.le_succ _) ?_
    intro e he
    rcases List.mem_append.mp he with he | he
    · exact .inl ⟨e, he, rfl⟩
    · rw [List.mem_singleton.mp he]
      exact .inr (Nat.le_refl _)

theorem push_ref (message : ℕ) (e : CallbackEntry) : (push message e).ref = e.ref := by
  unfold push
  split <;> rfl

theorem Calls.enqueue (h : Calls d) : Calls d.enqueue.2 := by
  unfold Dispatcher.enqueue
  split
  · exact h.of_callbacks rfl rfl rfl rfl (Nat.le_refl _) fun e he => .inl ⟨e, he, rfl⟩
  · split
    · exact h.of_callbacks rfl rfl rfl rfl (Nat.le_refl _) fun e he => .inl ⟨e, he, rfl⟩
    · refine h.of_callbacks rfl rfl rfl rfl (Nat.le_refl _) ?_
      intro e' he'
      obtain ⟨e, he, rfl⟩ := List.mem_map.mp he'
      exact .inl ⟨e, he, push_ref _ e⟩

theorem busy_eq_false {w : ℕ} (h : d.busy w = false) :
    ∀ r ∈ d.removals, r.stage ≠ .returned → r.caller ≠ some w := by
  intro r hr hs hc
  have hn := List.any_eq_false.mp h r hr
  simp [hc, hs] at hn

-- A call from inside a callback is made by a worker that executes it.
theorem Calls.free (h : Calls d) {w : ℕ} {old : Worker} (hw : d.workers[w]? = some old)
    (hold : executes old = none) :
    ∀ r ∈ d.removals, r.stage ≠ .returned → r.caller ≠ some w := by
  intro r hr hs hc
  obtain ⟨entry, message, hx, -⟩ := (h.calls r hr).calling hs w hc
  obtain rfl := Option.some_inj.mp (hw.symm.trans hx)
  exact absurd hold nofun

-- A step of the worker loop. The worker makes no call, and what it holds afterwards it held before
-- or is registered.
structure WorkerStep (d d' : Dispatcher) (w : ℕ) (old new : Worker) : Prop where
  was : d.workers[w]? = some old
  workers : d'.workers = d.workers.set w new
  free : ∀ r ∈ d.removals, r.stage ≠ .returned → r.caller ≠ some w
  held : ∀ entry, holds new = some entry → holds old = some entry ∨ ∃ e ∈ d.callbacks, e.ref = entry
  requests : d'.cancellationRequests = d.cancellationRequests
  removals : d'.removals = d.removals
  nextId : d'.nextId = d.nextId
  callbacks : ∀ e' ∈ d'.callbacks, ∃ e ∈ d.callbacks, e'.ref = e.ref ∧
    e'.pending.Sublist e.pending

theorem onEntry_ref {id : ℕ} {f : CallbackEntry → CallbackEntry} {e' : CallbackEntry}
    (hon : e' ∈ d.onEntry id f)
    (hf : ∀ e ∈ d.callbacks, e.id = id → (f e).ref = e.ref ∧ (f e).pending.Sublist e.pending) :
    ∃ e ∈ d.callbacks, e'.ref = e.ref ∧ e'.pending.Sublist e.pending := by
  rcases mem_onEntry.mp hon with ⟨he, -⟩ | ⟨e, he, hid, rfl⟩
  · exact ⟨e', he, rfl, List.Sublist.refl _⟩
  · exact ⟨e, he, hf e he hid⟩

theorem Calls.take_step (h : Calls d) (hinv : Inv d) {w : ℕ} (ht : d.take w = some d') :
    ∃ e ∈ d.callbacks, ∃ message, WorkerStep d d' w .idle (.executing e.ref message) ∧
      message ∈ e.pending ∧ d.cancellationRequests = 0 ∧
      d'.leases = Function.update d.leases e.id (d.leases e.id + 1) ∧
      d'.history = .delivered e.ref message :: d.history := by
  obtain ⟨e, message, pending, rest, he, -, hpend, -, hw, hgate, rfl⟩ := hinv.take_cases ht
  refine ⟨e, he, message, ⟨hw, rfl, h.free hw rfl, ?_, rfl, rfl, rfl, ?_⟩,
    hpend ▸ List.mem_cons_self, hgate, rfl, rfl⟩
  · intro entry hn
    exact .inr ⟨e, he, Option.some_inj.mp hn⟩
  · intro e' he'
    refine onEntry_ref he' fun e'' he'' hid => ⟨rfl, ?_⟩
    obtain rfl := hinv.entry_inj he'' he hid
    rw [hpend]
    exact List.sublist_cons_self _ _

theorem finish_step {w : ℕ} {deregister : Bool} (ht : d.finish w deregister = some d') :
    ∃ entry message retire,
      WorkerStep d d' w (.executing entry message) (.releasing entry retire) ∧
      d'.leases = d.leases ∧ d'.history = d.history := by
  obtain ⟨entry, message, hw, hbusy, hcases⟩ := finish_cases ht
  have hfree := busy_eq_false hbusy
  rcases hcases with ⟨-, rfl⟩ | ⟨e, -, -, rfl | ⟨-, -, rfl⟩ | ⟨-, -, rfl⟩⟩
  · exact ⟨entry, message, deregister, ⟨hw, rfl, hfree, fun _ hn => .inl hn, rfl, rfl, rfl,
      fun e he => ⟨e, he, rfl, List.Sublist.refl _⟩⟩, rfl, rfl⟩
  · exact ⟨entry, message, true, ⟨hw, rfl, hfree, fun _ hn => .inl hn, rfl, rfl, rfl,
      fun e he => onEntry_ref he fun _ _ _ => ⟨rfl, List.nil_sublist _⟩⟩, rfl, rfl⟩
  · exact ⟨entry, message, false, ⟨hw, rfl, hfree, fun _ hn => .inl hn, rfl, rfl, rfl,
      fun e he => ⟨e, he, rfl, List.Sublist.refl _⟩⟩, rfl, rfl⟩
  · exact ⟨entry, message, false, ⟨hw, rfl, hfree, fun _ hn => .inl hn, rfl, rfl, rfl,
      fun e he => onEntry_ref he fun _ _ _ => ⟨rfl, List.Sublist.refl _⟩⟩, rfl, rfl⟩

theorem Calls.drop_step (h : Calls d) {w : ℕ} (ht : d.drop w = some d') :
    ∃ entry retire, WorkerStep d d' w (.releasing entry retire) (.dropped entry retire) ∧
      d'.leases = d.leases ∧ d'.history = d.history := by
  obtain ⟨entry, retire, hw, rfl⟩ := drop_cases ht
  exact ⟨entry, retire, ⟨hw, rfl, h.free hw rfl, fun _ hn => absurd hn nofun, rfl, rfl, rfl,
    fun e he => ⟨e, he, rfl, List.Sublist.refl _⟩⟩, rfl, rfl⟩

theorem Calls.release_step (h : Calls d) {w : ℕ} (ht : d.release w = some d') :
    ∃ entry retire new, WorkerStep d d' w (.dropped entry retire) new ∧ leased new = none ∧
      executes new = none ∧ d'.history = d.history ∧
      d'.leases = Function.update d.leases entry.id (d.leases entry.id - 1) := by
  obtain ⟨entry, retire, hw, rfl⟩ := release_cases ht
  refine ⟨entry, retire, _, ⟨hw, rfl, h.free hw rfl, ?_, rfl, rfl, rfl,
    fun e he => ⟨e, he, rfl, List.Sublist.refl _⟩⟩, ?_, ?_, rfl, rfl⟩
  · cases retire <;> exact fun _ hn => absurd hn nofun
  · cases retire <;> rfl
  · cases retire <;> rfl

theorem Calls.erase_step (h : Calls d) {w : ℕ} (ht : d.erase w = some d') :
    ∃ entry, WorkerStep d d' w (.erasing entry) .idle ∧ d'.leases = d.leases ∧
      d'.history = d.history := by
  obtain ⟨entry, hw, rfl⟩ := erase_cases ht
  exact ⟨entry, ⟨hw, rfl, h.free hw rfl, fun _ hn => absurd hn nofun, rfl, rfl, rfl,
    fun e he => ⟨e, List.eraseP_sublist.subset he, rfl, List.Sublist.refl _⟩⟩, rfl, rfl⟩

namespace WorkerStep

variable {w : ℕ} {old new : Worker}

theorem mem_held (hs : WorkerStep d d' w old new) {entry : Ref}
    (he : entry ∈ d'.workers.filterMap holds) :
    entry ∈ d.workers.filterMap holds ∨ ∃ e ∈ d.callbacks, e.ref = entry := by
  rw [hs.workers] at he
  rcases Slots.mem_filterMap_set he with hnew | he
  · exact (hs.held entry hnew).imp_left fun ho =>
      List.mem_filterMap.mpr ⟨old, List.mem_of_getElem? hs.was, ho⟩
  · exact .inl he

theorem caller (hs : WorkerStep d d' w old new) {r : Removal} (hr : r ∈ d.removals)
    (hstage : r.stage ≠ .returned) {v : ℕ} (hv : r.caller = some v) :
    d'.workers[v]? = d.workers[v]? := by
  have hne : w ≠ v := by
    rintro rfl
    exact hs.free r hr hstage hv
  rw [hs.workers, List.getElem?_set_ne hne]

end WorkerStep

theorem Calls.worker (h : Calls d) (hinv : Inv d) {w : ℕ} {old new : Worker}
    (hs : WorkerStep d d' w old new)
    (hleases : ∀ id, d'.leases id + (leased old).toList.count id =
      d.leases id + (leased new).toList.count id)
    (hzero : ∀ r ∈ d.removals, ∀ id ∈ r.stage.removed, d.leases id = 0 → d'.leases id = 0) :
    Calls d' := by
  refine ⟨?_, ?_, ?_, ?_, hs.removals ▸ h.apart, ?_⟩
  · intro id
    have h1 := Slots.count_filterMap_set leased hs.was new id
    have h2 := hleases id
    have h3 := h.leases id
    rw [hs.workers]
    omega
  · rw [hs.requests, hs.removals]
    exact h.requests
  · intro entry he
    rw [hs.nextId]
    rcases hs.mem_held he with hold | ⟨e, hin, rfl⟩
    · exact h.held_lt entry hold
    · exact hinv.ids_lt e hin
  · intro entry hentry e' he' heq
    obtain ⟨e, he, href, -⟩ := hs.callbacks e' he'
    have hid : e.id = entry.id := (congrArg Ref.id href).symm.trans heq
    rw [href]
    rcases hs.mem_held hentry with hentry | ⟨e₀, he₀, rfl⟩
    · exact h.owners entry hentry e he hid
    · rw [hinv.entry_inj he he₀ hid]
  · rw [hs.removals]
    intro r hr
    refine (h.calls r hr).mono (fun hstage v hv => hs.caller hr hstage hv)
      (Nat.le_of_eq hs.nextId.symm) ?_ (hzero r hr)
    intro e' he'
    obtain ⟨e, he, href, -⟩ := hs.callbacks e' he'
    exact .inl ⟨e, he, href⟩

theorem Calls.take (h : Calls d) (hinv : Inv d) {w : ℕ} (ht : d.take w = some d') : Calls d' := by
  obtain ⟨e, he, message, hs, -, -, hleases, -⟩ := h.take_step hinv ht
  refine h.worker hinv hs ?_ ?_
  · intro id
    rw [hleases]
    by_cases heq : id = e.id
    · subst heq
      simp [leased, CallbackEntry.ref]
    · simp [leased, CallbackEntry.ref, Function.update_of_ne heq, Ne.symm heq]
  · intro r hr id hid hz
    have hne : id ≠ e.id := fun heq => (h.calls r hr).removed_free id hid e he heq.symm
    rw [hleases, Function.update_of_ne hne, hz]

theorem Calls.leases_pos (h : Calls d) {w : ℕ} {worker : Worker} {id : ℕ}
    (hw : d.workers[w]? = some worker) (hl : leased worker = some id) : 0 < d.leases id := by
  rw [h.leases, List.count_pos_iff, List.mem_filterMap]
  exact ⟨worker, List.mem_of_getElem? hw, hl⟩

theorem Calls.release (h : Calls d) (hinv : Inv d) {w : ℕ} (ht : d.release w = some d') :
    Calls d' := by
  obtain ⟨entry, retire, new, hs, hnew, -, -, hleases⟩ := h.release_step ht
  refine h.worker hinv hs ?_ ?_
  · intro id
    have hpos := h.leases_pos hs.was rfl
    rw [hleases, hnew]
    by_cases heq : id = entry.id
    · subst heq
      simp only [leased, Function.update_self, Option.toList, List.count_singleton_self,
        List.count_nil]
      omega
    · simp [leased, Function.update_of_ne heq, Ne.symm heq]
  · intro r _ id _ hz
    rw [hleases]
    by_cases heq : id = entry.id
    · subst heq
      simp [hz]
    · rw [Function.update_of_ne heq, hz]

theorem Calls.same_leases (h : Calls d) (hinv : Inv d) {w : ℕ} {old new : Worker}
    (hs : WorkerStep d d' w old new) (hleased : leased new = leased old)
    (hleases : d'.leases = d.leases) : Calls d' := by
  refine h.worker hinv hs ?_ ?_
  · exact fun id => by rw [hleases, hleased]
  · exact fun _ _ _ _ hz => by rw [hleases, hz]

-- A step of one call. What it takes out is registered until then, and so in no other call's hands.
theorem Calls.setCall (h : Calls d) {k : ℕ} {old new : Removal} (hk : d.removals[k]? = some old)
    (hremovals : d'.removals = d.removals.set k new) (hworkers : d'.workers = d.workers)
    (hleases : d'.leases = d.leases) (hnext : d'.nextId = d.nextId)
    (hrequests : d'.cancellationRequests + (if old.stage.counted then 1 else 0) =
      d.cancellationRequests + if new.stage.counted then 1 else 0)
    (hcallbacks : ∀ e' ∈ d'.callbacks, ∃ e ∈ d.callbacks, e'.ref = e.ref)
    (hremoved : ∀ id ∈ new.stage.removed, id ∈ old.stage.removed ∨ ∃ e ∈ d.callbacks, e.id = id)
    (hok : CallOk d' new) : Calls d' := by
  refine ⟨?_, ?_, ?_, ?_, ?_, ?_⟩
  · rw [hleases, hworkers]
    exact h.leases
  · have hset := Slots.countP_set (fun r : Removal => r.stage.counted) hk new
    have hr := h.requests
    rw [hremovals]
    omega
  · rw [hworkers, hnext]
    exact h.held_lt
  · rw [hworkers]
    intro entry hentry e' he' heq
    obtain ⟨e, he, href⟩ := hcallbacks e' he'
    rw [href]
    exact h.owners entry hentry e he ((congrArg Ref.id href).symm.trans heq)
  · have hother : ∀ (j : ℕ) (r : Removal), d.removals[j]? = some r → ∀ id ∈ r.stage.removed,
        id ∈ new.stage.removed → j = k := by
      intro j r hj id hid hn
      rcases hremoved id hn with ho | ⟨e, he, heq⟩
      · exact h.apart j k r old hj hk id hid ho
      · exact absurd heq ((h.calls r (List.mem_of_getElem? hj)).removed_free id hid e he)
    rw [hremovals]
    intro i j r r' hi hj id hid hid'
    rcases Slots.getElem?_set_cases hi with ⟨rfl, rfl⟩ | ⟨-, hold⟩
    · rcases Slots.getElem?_set_cases hj with ⟨rfl, -⟩ | ⟨-, hold'⟩
      · rfl
      · exact (hother j r' hold' id hid' hid).symm
    · rcases Slots.getElem?_set_cases hj with ⟨rfl, rfl⟩ | ⟨-, hold'⟩
      · exact hother i r hold id hid hid'
      · exact h.apart i j r r' hold hold' id hid hid'
  · rw [hremovals]
    intro r hr
    rcases List.mem_or_eq_of_mem_set hr with hr | rfl
    · exact (h.calls r hr).mono (fun _ w _ => by rw [hworkers]) (Nat.le_of_eq hnext.symm)
        (fun e he => .inl (hcallbacks e he)) fun id _ hz => by rw [hleases, hz]
    · exact hok

theorem Calls.publish (h : Calls d) {caller : Option ℕ} {command : String}
    (ht : d.publish caller command = some d') : Calls d' := by
  obtain ⟨current, rfl, hcaller⟩ := publish_cases ht
  refine ⟨h.leases, ?_, h.held_lt, h.owners, ?_, ?_⟩
  · simp [h.requests, List.countP_append, Stage.counted]
  · have hnew : ∀ (j : ℕ) (r : Removal),
        (d.removals ++ [⟨caller, current, command, d.nextId, .published⟩])[j]? = some r →
        ∀ id ∈ r.stage.removed, d.removals[j]? = some r := by
      intro j r hj id hid
      rw [List.getElem?_append] at hj
      split at hj
      · exact hj
      · have hr := List.mem_of_getElem? hj
        rw [List.mem_singleton.mp hr] at hid
        exact absurd hid List.not_mem_nil
    intro i j r r' hi hj id hid hid'
    exact h.apart i j r r' (hnew i r hi id hid) (hnew j r' hj id hid') id hid hid'
  · intro r hr
    rcases List.mem_append.mp hr with hr | hr
    · exact (h.calls r hr).mono (fun _ _ _ => rfl) (Nat.le_refl _) (fun e he => .inl ⟨e, he, rfl⟩)
        fun _ _ hz => hz
    · rw [List.mem_singleton.mp hr]
      refine ⟨?_, ?_, Nat.le_refl _, fun _ hid => absurd hid List.not_mem_nil,
        fun _ hid => absurd hid List.not_mem_nil, fun _ hid => hid,
        fun _ hid => absurd hid List.not_mem_nil, fun _ hs => absurd rfl hs⟩
      · intro _ w hw
        rcases hcaller with ⟨hnone, -⟩ | ⟨v, entry, hv, hcur, hentry, -⟩
        · exact absurd (hw.symm.trans hnone) nofun
        · obtain rfl := Option.some_inj.mp (hw.symm.trans hv)
          unfold currentEntry at hentry
          split at hentry
          next entry' message hx =>
            obtain rfl := Option.some_inj.mp hentry
            exact ⟨entry', message, hx, hcur⟩
          · exact absurd hentry nofun
      · intro hnone
        rcases hcaller with ⟨-, hcur⟩ | ⟨v, entry, hv, -⟩
        · exact hcur
        · exact absurd (hv.symm.trans hnone) nofun

-- The current entry of a call from outside is not among those it takes out.
theorem Calls.current_ne (h : Calls d) {r : Removal} (hr : r ∈ d.removals)
    (hstage : r.stage = .published) (ho : r.Outside) {e : CallbackEntry} (he : e ∈ d.callbacks)
    (hown : e.ownerCommand = r.command) : r.current.map Ref.id ≠ some e.id := by
  intro hcur
  obtain ⟨entry, hentry, hid⟩ := Option.map_eq_some_iff.mp hcur
  cases hc : r.caller with
  | none => exact absurd (((h.calls r hr).alone hc).symm.trans hentry) nofun
  | some w =>
    obtain ⟨entry', message, hw, hcur'⟩ := (h.calls r hr).calling (by simp [hstage]) w hc
    obtain rfl := Option.some_inj.mp (hentry.symm.trans hcur')
    have hheld : entry ∈ d.workers.filterMap holds :=
      List.mem_filterMap.mpr ⟨_, List.mem_of_getElem? hw, rfl⟩
    have href := h.owners entry hheld e he hid.symm
    exact ho entry hentry ((congrArg Ref.ownerCommand href).symm.trans hown)

-- The section that goes through the registry. What stays of the command is the entry of the calling
-- callback.
structure SectionStep (d d' : Dispatcher) (k : ℕ) (r : Removal) (removed : List ℕ) : Prop where
  was : d.removals[k]? = some r
  published : r.stage = .published
  removals : d'.removals = d.removals.set k { r with stage := .detached removed }
  mem_removed : ∀ id, id ∈ removed ↔ ∃ e ∈ d.callbacks, e.id = id ∧ e.ownerCommand = r.command ∧
    r.current.map Ref.id ≠ some e.id
  workers : d'.workers = d.workers
  leases : d'.leases = d.leases
  requests : d'.cancellationRequests = d.cancellationRequests
  nextId : d'.nextId = d.nextId
  messages : d'.messages = d.messages
  history : d'.history = d.history
  callbacks : ∀ e' ∈ d'.callbacks, ∃ e ∈ d.callbacks, e'.ref = e.ref ∧
    e'.pending.Sublist e.pending ∧
    (e.ownerCommand ≠ r.command ∨ r.current.map Ref.id = some e.id)

theorem section_step {k : ℕ} (ht : d.section' k = some d') :
    ∃ r removed, SectionStep d d' k r removed := by
  obtain ⟨caller, current, command, before, hk, rfl⟩ := section_cases ht
  refine ⟨_, _, hk, rfl, rfl, fun id => mem_detach_removed, rfl, rfl, rfl, rfl, rfl, rfl, ?_⟩
  intro e' he'
  rw [detach_callbacks] at he'
  obtain ⟨e, he, hkept⟩ := List.mem_filterMap.mp he'
  rcases kept_eq_some hkept with ⟨hne, rfl⟩ | ⟨-, hc, rfl⟩
  · exact ⟨e', he, rfl, List.Sublist.refl _, .inl hne⟩
  · exact ⟨e, he, rfl, List.nil_sublist _, .inr hc⟩

theorem Calls.section' (h : Calls d) (hinv : Inv d) {k : ℕ} (ht : d.section' k = some d') :
    Calls d' := by
  obtain ⟨r, removed, hs⟩ := section_step ht
  have hr := List.mem_of_getElem? hs.was
  have ok := h.calls r hr
  refine h.setCall hs.was hs.removals hs.workers hs.leases hs.nextId ?_ ?_ ?_ ?_
  · rw [hs.requests, hs.published]
    rfl
  · intro e' he'
    obtain ⟨e, he, href, -⟩ := hs.callbacks e' he'
    exact ⟨e, he, href⟩
  · intro id hid
    obtain ⟨e, he, heq, -⟩ := (hs.mem_removed id).mp hid
    exact .inr ⟨e, he, heq⟩
  · refine ⟨?_, ok.alone, hs.nextId ▸ ok.before_le, ?_, ?_, fun _ hid => hid,
      fun id hid => .inl hid, ?_⟩
    · intro _ w hw
      rw [hs.workers]
      exact ok.calling (by simp [hs.published]) w hw
    · intro id hid
      obtain ⟨e, he, rfl, -⟩ := (hs.mem_removed id).mp hid
      rw [hs.nextId]
      exact hinv.ids_lt e he
    · intro id hid e' he' heq
      obtain ⟨e₀, he₀, hid₀, hown₀, hcur₀⟩ := (hs.mem_removed id).mp hid
      obtain ⟨e, he, href, -, hstays⟩ := hs.callbacks e' he'
      obtain rfl := hinv.entry_inj he he₀ ((congrArg Ref.id href).symm.trans (heq.trans hid₀.symm))
      rcases hstays with hne | hc
      · exact hne hown₀
      · exact hcur₀ hc
    · intro ho _ e' he' hown
      obtain ⟨e, he, href, -, hstays⟩ := hs.callbacks e' he'
      have hown' : e.ownerCommand = r.command := (congrArg Ref.ownerCommand href).symm.trans hown
      rcases hstays with hne | hc
      · exact absurd hown' hne
      · exact absurd hc (h.current_ne hr hs.published ho he hown')

theorem Calls.unpublish (h : Calls d) {k : ℕ} (ht : d.unpublish k = some d') : Calls d' := by
  obtain ⟨caller, current, command, before, removed, hk, rfl⟩ := unpublish_cases ht
  have ok := h.calls _ (List.mem_of_getElem? hk)
  have hpos : 0 < d.cancellationRequests := by
    rw [h.requests, List.countP_pos_iff]
    exact ⟨_, List.mem_of_getElem? hk, rfl⟩
  refine h.setCall hk rfl rfl rfl rfl ?_ (fun e he => ⟨e, he, rfl⟩) (fun _ hid => .inl hid) ?_
  · simp only [Stage.counted, if_true, Bool.false_eq_true, if_false]
    omega
  · exact ⟨fun _ => ok.calling nofun, ok.alone, ok.before_le, ok.removed_lt, ok.removed_free,
      fun _ hid => hid, ok.drained, fun ho _ => ok.cleared ho nofun⟩

theorem Calls.await (h : Calls d) {k : ℕ} (ht : d.await k = some d') : Calls d' := by
  obtain ⟨caller, current, command, before, removed, id, left, hk, hz, rfl⟩ := await_cases ht
  have ok := h.calls _ (List.mem_of_getElem? hk)
  refine h.setCall hk rfl rfl rfl rfl rfl (fun e he => ⟨e, he, rfl⟩) (fun _ hid => .inl hid) ?_
  refine ⟨fun _ => ok.calling nofun, ok.alone, ok.before_le, ok.removed_lt, ok.removed_free,
    fun _ hid => ok.left_removed _ (List.mem_cons_of_mem _ hid), ?_,
    fun ho _ => ok.cleared ho nofun⟩
  intro id' hid'
  rcases ok.drained id' hid' with hl | hz'
  · rcases List.mem_cons.mp hl with rfl | hl
    · exact .inr hz
    · exact .inl hl
  · exact .inr hz'

theorem Calls.return' (h : Calls d) {k : ℕ} (ht : d.return' k = some d') : Calls d' := by
  obtain ⟨caller, current, command, before, removed, hk, rfl⟩ := return_cases ht
  have ok := h.calls _ (List.mem_of_getElem? hk)
  refine h.setCall hk rfl rfl rfl rfl rfl (fun e he => ⟨e, he, rfl⟩)
    (fun _ hid => absurd hid List.not_mem_nil) ?_
  exact ⟨fun hs => absurd rfl hs, ok.alone, ok.before_le, fun _ hid => absurd hid List.not_mem_nil,
    fun _ hid => absurd hid List.not_mem_nil, fun _ hid => hid,
    fun _ hid => absurd hid List.not_mem_nil, fun ho _ => ok.cleared ho nofun⟩

theorem Calls.step (h : Calls d) (hinv : Inv d) (i : Step) (ht : Dispatcher.step d i = some d') :
    Calls d' := by
  cases i with
  | registerCallback ownerCommand hasCallback =>
    obtain rfl := Option.some_inj.mp ht
    exact h.registerCallback ownerCommand hasCallback
  | enqueue =>
    obtain rfl := Option.some_inj.mp ht
    exact h.enqueue
  | take w => exact h.take hinv ht
  | finish w deregister =>
    obtain ⟨_, _, _, hs, hleases, -⟩ := finish_step ht
    exact h.same_leases hinv hs rfl hleases
  | drop w =>
    obtain ⟨_, _, hs, hleases, -⟩ := h.drop_step ht
    exact h.same_leases hinv hs rfl hleases
  | release w => exact h.release hinv ht
  | erase w =>
    obtain ⟨_, hs, hleases, -⟩ := h.erase_step ht
    exact h.same_leases hinv hs rfl hleases
  | publish caller command => exact h.publish ht
  | section' k => exact h.section' hinv ht
  | unpublish k => exact h.unpublish ht
  | await k => exact h.await ht
  | return' k => exact h.return' ht

end Dispatcher

end Glider.AnyMessage

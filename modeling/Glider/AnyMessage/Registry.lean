import Mathlib.Data.List.Nodup
import Mathlib.Data.List.Perm.Basic
import Mathlib.Algebra.BigOperators.Group.List.Basic
import Glider.Lib.Slots
import Glider.AnyMessage.Dispatcher

namespace Glider.AnyMessage

open Glider.Lib

def executes : Worker → Option ℕ
  | .executing entry _ => some entry.id
  | _ => none

def executing (workers : List Worker) : List ℕ := workers.filterMap executes

def pendingTotal (callbacks : List CallbackEntry) : ℕ :=
  (callbacks.map fun e => e.pending.length).sum

-- The bookkeeping of one registered entry.
structure EntryOk (d : Dispatcher) (e : CallbackEntry) : Prop where
  silent : e.cancelled = true → e.pending = [] ∧ e.scheduled = false
  scheduled : e.cancelled = false →
    (e.scheduled = true ↔ e.id ∈ d.ready ∨ e.id ∈ executing d.workers)
  served : e.pending ≠ [] → e.scheduled = true

namespace Dispatcher

structure Inv (d : Dispatcher) : Prop where
  ids_nodup : (d.callbacks.map CallbackEntry.id).Nodup
  ids_lt : ∀ e ∈ d.callbacks, e.id < d.nextId
  total : d.pendingInvocations = pendingTotal d.callbacks
  bound : d.pendingInvocations ≤ d.maxPendingInvocations
  ready_nodup : d.ready.Nodup
  ready_waits : ∀ id ∈ d.ready, ∃ e ∈ d.callbacks, e.id = id ∧ e.cancelled = false ∧ e.pending ≠ []
  ready_free : ∀ id ∈ d.ready, id ∉ executing d.workers
  executing_nodup : (executing d.workers).Nodup
  executing_lt : ∀ id ∈ executing d.workers, id < d.nextId
  entries : ∀ e ∈ d.callbacks, EntryOk d e

variable {d d' : Dispatcher}

theorem Inv.create (workerCount maxPendingInvocations : ℕ) :
    Inv (create workerCount maxPendingInvocations) := by
  have hx : executing (List.replicate workerCount .idle) = [] := by
    simp [executing, List.filterMap_replicate, executes]
  refine ⟨List.nodup_nil, ?_, rfl, Nat.zero_le _, List.nodup_nil, ?_, ?_, ?_, ?_, ?_⟩
  · exact fun e he => absurd he List.not_mem_nil
  · exact fun e he => absurd he List.not_mem_nil
  · exact fun e he => absurd he List.not_mem_nil
  · show (executing (List.replicate workerCount .idle)).Nodup
    rw [hx]
    exact List.nodup_nil
  · intro id hid
    have hid' : id ∈ executing (List.replicate workerCount .idle) := hid
    rw [hx] at hid'
    exact absurd hid' List.not_mem_nil
  · exact fun e he => absurd he List.not_mem_nil

section Lists

variable {workers : List Worker} {w : ℕ} {old new : Worker}

-- A worker that executes neither before nor after leaves the list of executed entries as it is.
theorem executing_set_of_none (h : workers[w]? = some old) (hold : executes old = none)
    (hnew : executes new = none) : (executing (workers.set w new)).Perm (executing workers) := by
  obtain ⟨h1, h2⟩ := Slots.filterMap_set_perm executes h new
  rw [hold] at h1
  rw [hnew] at h2
  exact h2.trans h1.symm

theorem executing_start (h : workers[w]? = some old) (hold : executes old = none) {id : ℕ}
    (hnew : executes new = some id) :
    (executing (workers.set w new)).Perm (id :: executing workers) := by
  obtain ⟨h1, h2⟩ := Slots.filterMap_set_perm executes h new
  rw [hold] at h1
  rw [hnew] at h2
  exact h2.trans (h1.symm.cons id)

theorem executing_stop (h : workers[w]? = some old) {id : ℕ} (hold : executes old = some id)
    (hnew : executes new = none) :
    (executing workers).Perm (id :: executing (workers.set w new)) := by
  obtain ⟨h1, h2⟩ := Slots.filterMap_set_perm executes h new
  rw [hold] at h1
  rw [hnew] at h2
  exact h1.trans (h2.symm.cons id)

end Lists

theorem findEntry_eq_some {id : ℕ} {e : CallbackEntry} (h : d.findEntry id = some e) :
    e ∈ d.callbacks ∧ e.id = id :=
  ⟨List.mem_of_find?_eq_some h, by simpa using List.find?_some h⟩

theorem Inv.entry_inj (h : Inv d) {e e' : CallbackEntry} (he : e ∈ d.callbacks)
    (he' : e' ∈ d.callbacks) (hid : e.id = e'.id) : e = e' :=
  List.inj_on_of_nodup_map h.ids_nodup he he' hid

theorem Inv.findEntry_of_mem (h : Inv d) {e : CallbackEntry} (he : e ∈ d.callbacks) :
    d.findEntry e.id = some e := by
  cases hf : d.findEntry e.id with
  | none =>
    have hn := List.find?_eq_none.mp hf e he
    simp at hn
  | some found =>
    obtain ⟨hm, hid⟩ := findEntry_eq_some hf
    rw [h.entry_inj hm he hid]

-- The one entry of an id, and the registry with that entry changed.
theorem Inv.onEntry_split (h : Inv d) {e : CallbackEntry} (he : e ∈ d.callbacks) :
    ∃ front back, d.callbacks = front ++ e :: back ∧
      ∀ f : CallbackEntry → CallbackEntry, d.onEntry e.id f = front ++ f e :: back := by
  obtain ⟨front, back, hsplit⟩ := List.append_of_mem he
  refine ⟨front, back, hsplit, fun f => ?_⟩
  have hn := h.ids_nodup
  rw [hsplit, List.map_append, List.map_cons, List.nodup_middle, ← List.map_append] at hn
  have hother : ∀ other ∈ front ++ back, other.id ≠ e.id := by
    intro other ho heq
    exact (List.nodup_cons.mp hn).1 (heq ▸ List.mem_map_of_mem ho)
  have hid : ∀ l : List CallbackEntry, (∀ other ∈ l, other.id ≠ e.id) →
      l.map (fun other => if other.id = e.id then f other else other) = l := by
    intro l hl
    conv_rhs => rw [← List.map_id l]
    exact List.map_congr_left fun other ho => if_neg (hl other ho)
  rw [onEntry, hsplit, List.map_append, List.map_cons, if_pos rfl,
    hid front fun o ho => hother o (List.mem_append_left _ ho),
    hid back fun o ho => hother o (List.mem_append_right _ ho)]

theorem mem_onEntry {id : ℕ} {f : CallbackEntry → CallbackEntry} {e : CallbackEntry} :
    e ∈ d.onEntry id f ↔
      (e ∈ d.callbacks ∧ e.id ≠ id) ∨ ∃ e' ∈ d.callbacks, e'.id = id ∧ e = f e' := by
  unfold onEntry
  rw [List.mem_map]
  constructor
  · rintro ⟨e', he', rfl⟩
    by_cases hid : e'.id = id
    · exact .inr ⟨e', he', hid, if_pos hid⟩
    · rw [if_neg hid]
      exact .inl ⟨he', hid⟩
  · rintro (⟨he, hid⟩ | ⟨e', he', hid, rfl⟩)
    · exact ⟨e, he, if_neg hid⟩
    · exact ⟨e', he', if_pos hid⟩

theorem map_id_onEntry {id : ℕ} {f : CallbackEntry → CallbackEntry} (hf : ∀ e, (f e).id = e.id) :
    (d.onEntry id f).map CallbackEntry.id = d.callbacks.map CallbackEntry.id := by
  unfold onEntry
  rw [List.map_map]
  apply List.map_congr_left
  intro e _
  simp only [Function.comp]
  split
  · exact hf e
  · rfl

theorem EntryOk.of_iff {e : CallbackEntry} (h : EntryOk d e)
    (hiff : e.id ∈ d'.ready ∨ e.id ∈ executing d'.workers ↔
      e.id ∈ d.ready ∨ e.id ∈ executing d.workers) : EntryOk d' e :=
  ⟨h.silent, fun hc => (h.scheduled hc).trans hiff.symm, h.served⟩

theorem Inv.ready_lt (h : Inv d) {id : ℕ} (hid : id ∈ d.ready) : id < d.nextId := by
  obtain ⟨e, he, rfl, -⟩ := h.ready_waits id hid
  exact h.ids_lt e he

@[simp] theorem pendingTotal_append (front back : List CallbackEntry) :
    pendingTotal (front ++ back) = pendingTotal front + pendingTotal back := by
  simp [pendingTotal]

@[simp] theorem pendingTotal_cons (e : CallbackEntry) (rest : List CallbackEntry) :
    pendingTotal (e :: rest) = e.pending.length + pendingTotal rest := by
  simp [pendingTotal]

@[simp] theorem pendingTotal_nil : pendingTotal [] = 0 := rfl

theorem Inv.registerCallback (h : Inv d) (ownerCommand : String) (hasCallback : Bool) :
    Inv (d.registerCallback ownerCommand hasCallback).2 := by
  unfold Dispatcher.registerCallback
  split
  · exact h
  · have hnew : d.nextId ∉ d.callbacks.map CallbackEntry.id := by
      intro hm
      obtain ⟨e, he, hid⟩ := List.mem_map.mp hm
      exact Nat.lt_irrefl _ (hid ▸ h.ids_lt e he)
    refine ⟨?_, ?_, ?_, h.bound, h.ready_nodup, ?_, h.ready_free, h.executing_nodup, ?_, ?_⟩
    · simp only [List.map_append, List.map_cons, List.map_nil]
      rw [List.nodup_append]
      refine ⟨h.ids_nodup, List.nodup_singleton _, ?_⟩
      intro a ha b hb heq
      rw [List.mem_singleton.mp hb] at heq
      exact hnew (heq ▸ ha)
    · intro e he
      rcases List.mem_append.mp he with he | he
      · exact Nat.lt_succ_of_lt (h.ids_lt e he)
      · rw [List.mem_singleton.mp he]
        exact Nat.lt_succ_self _
    · simpa using h.total
    · intro id hid
      obtain ⟨e, he, hx⟩ := h.ready_waits id hid
      exact ⟨e, List.mem_append_left _ he, hx⟩
    · exact fun id hid => Nat.lt_succ_of_lt (h.executing_lt id hid)
    · intro e he
      rcases List.mem_append.mp he with he | he
      · exact EntryOk.of_iff (h.entries e he) Iff.rfl
      · rw [List.mem_singleton.mp he]
        refine ⟨fun hc => absurd hc nofun, fun _ => ⟨fun hs => absurd hs nofun, ?_⟩,
          fun hp => absurd rfl hp⟩
        rintro (hr | hx)
        · exact absurd (h.ready_lt hr) (Nat.lt_irrefl _)
        · exact absurd (h.executing_lt _ hx) (Nat.lt_irrefl _)

theorem pendingTotal_push (message : ℕ) (callbacks : List CallbackEntry) :
    pendingTotal (callbacks.map (push message)) =
      pendingTotal callbacks + (callbacks.filter fun e => !e.cancelled).length := by
  induction callbacks with
  | nil => rfl
  | cons e rest ih =>
    cases hc : e.cancelled with
    | true => simp [push, hc, ih, Nat.add_assoc]
    | false =>
      simp only [List.map_cons, pendingTotal_cons, ih, push, hc, Bool.false_eq_true, if_false,
        List.length_append, List.filter_cons, Bool.not_false, if_true, List.length_cons,
        List.length_nil]
      omega

@[simp] theorem push_id (message : ℕ) (e : CallbackEntry) : (push message e).id = e.id := by
  unfold push
  split <;> rfl

theorem map_id_push (message : ℕ) (callbacks : List CallbackEntry) :
    (callbacks.map (push message)).map CallbackEntry.id = callbacks.map CallbackEntry.id := by
  rw [List.map_map]
  exact List.map_congr_left fun e _ => push_id message e

theorem mem_eligible {e : CallbackEntry} :
    e ∈ d.eligible ↔ e ∈ d.callbacks ∧ e.cancelled = false := by
  simp [eligible, List.mem_filter]

-- The entries that become ready are those that were not scheduled.
theorem mem_newly_ready {id : ℕ} :
    id ∈ (d.eligible.filter fun e => !e.scheduled).map CallbackEntry.id ↔
      ∃ e ∈ d.callbacks, e.id = id ∧ e.cancelled = false ∧ e.scheduled = false := by
  rw [List.mem_map]
  constructor
  · rintro ⟨e, he, rfl⟩
    obtain ⟨he, hs⟩ := List.mem_filter.mp he
    obtain ⟨he, hc⟩ := mem_eligible.mp he
    exact ⟨e, he, rfl, hc, by simpa using hs⟩
  · rintro ⟨e, he, rfl, hc, hs⟩
    exact ⟨e, List.mem_filter.mpr ⟨mem_eligible.mpr ⟨he, hc⟩, by simp [hs]⟩, rfl⟩

theorem Inv.enqueue_accepted (h : Inv d) {messages : ℕ} {history : List Event}
    (hroom : d.pendingInvocations + d.eligible.length ≤ d.maxPendingInvocations) :
    Inv { d with
      callbacks := d.callbacks.map (push d.messages)
      ready := d.ready ++ (d.eligible.filter fun e => !e.scheduled).map CallbackEntry.id
      pendingInvocations := d.pendingInvocations + d.eligible.length
      messages := messages
      history := history } := by
  have hnew : ∀ id ∈ (d.eligible.filter fun e => !e.scheduled).map CallbackEntry.id,
      id ∉ d.ready ∧ id ∉ executing d.workers := by
    intro id hid
    obtain ⟨e, he, rfl, hc, hs⟩ := mem_newly_ready.mp hid
    have hiff := (h.entries e he).scheduled hc
    rw [hs] at hiff
    exact ⟨fun hr => absurd (hiff.mpr (.inl hr)) nofun, fun hx => absurd (hiff.mpr (.inr hx)) nofun⟩
  refine ⟨?_, ?_, ?_, hroom, ?_, ?_, ?_, h.executing_nodup, h.executing_lt, ?_⟩
  · rw [map_id_push]
    exact h.ids_nodup
  · intro e' he'
    obtain ⟨e, he, rfl⟩ := List.mem_map.mp he'
    rw [push_id]
    exact h.ids_lt e he
  · rw [pendingTotal_push, ← h.total]
    rfl
  · refine List.nodup_append.mpr ⟨h.ready_nodup, ?_, fun a ha b hb heq => (hnew b hb).1 (heq ▸ ha)⟩
    have hsub : ((d.eligible.filter fun e => !e.scheduled).map CallbackEntry.id).Sublist
        (d.callbacks.map CallbackEntry.id) :=
      (List.filter_sublist.trans List.filter_sublist).map _
    exact h.ids_nodup.sublist hsub
  · intro id hid
    have hex : ∃ e ∈ d.callbacks, e.id = id ∧ e.cancelled = false := by
      rcases List.mem_append.mp hid with hr | hn
      · obtain ⟨e, he, hi, hc, -⟩ := h.ready_waits id hr
        exact ⟨e, he, hi, hc⟩
      · obtain ⟨e, he, hi, hc, -⟩ := mem_newly_ready.mp hn
        exact ⟨e, he, hi, hc⟩
    obtain ⟨e, he, hi, hc⟩ := hex
    refine ⟨push d.messages e, List.mem_map_of_mem he, by rw [push_id, hi], ?_, ?_⟩
    · simp [push, hc]
    · simp [push, hc]
  · intro id hid
    rcases List.mem_append.mp hid with hr | hn
    · exact h.ready_free id hr
    · exact (hnew id hn).2
  · intro e' he'
    obtain ⟨e, he, rfl⟩ := List.mem_map.mp he'
    have ok := h.entries e he
    cases hc : e.cancelled with
    | true =>
      have hp : push d.messages e = e := by simp [push, hc]
      rw [hp]
      exact ⟨ok.silent, fun hf => absurd (hc.symm.trans hf) nofun, ok.served⟩
    | false =>
      have hp : push d.messages e =
          { e with pending := e.pending ++ [d.messages], scheduled := true } := by
        simp [push, hc]
      rw [hp]
      refine ⟨fun ht => absurd (hc.symm.trans ht) nofun, fun _ => ⟨fun _ => ?_, fun _ => rfl⟩,
        fun _ => rfl⟩
      cases hs : e.scheduled with
      | true =>
        rcases (ok.scheduled hc).mp hs with hr | hx
        · exact .inl (List.mem_append_left _ hr)
        · exact .inr hx
      | false => exact .inl (List.mem_append_right _ (mem_newly_ready.mpr ⟨e, he, rfl, hc, hs⟩))

theorem Inv.of_registry (h : Inv d) (hmax : d'.maxPendingInvocations = d.maxPendingInvocations)
    (hcallbacks : d'.callbacks = d.callbacks) (hready : d'.ready = d.ready)
    (hpending : d'.pendingInvocations = d.pendingInvocations) (hnext : d'.nextId = d.nextId)
    (hexec : (executing d'.workers).Perm (executing d.workers)) : Inv d' := by
  have hm : ∀ id, id ∈ executing d'.workers ↔ id ∈ executing d.workers := fun id => hexec.mem_iff
  refine ⟨hcallbacks ▸ h.ids_nodup, ?_, ?_, ?_, hready ▸ h.ready_nodup, ?_, ?_,
    hexec.nodup_iff.mpr h.executing_nodup, ?_, ?_⟩
  · rw [hcallbacks, hnext]
    exact h.ids_lt
  · rw [hcallbacks, hpending]
    exact h.total
  · rw [hpending, hmax]
    exact h.bound
  · rw [hcallbacks, hready]
    exact h.ready_waits
  · rw [hready]
    exact fun id hid => fun hx => h.ready_free id hid ((hm id).mp hx)
  · rw [hnext]
    exact fun id hid => h.executing_lt id ((hm id).mp hid)
  · rw [hcallbacks]
    intro e he
    refine EntryOk.of_iff (h.entries e he) ?_
    rw [hready, hm]

theorem Inv.enqueue (h : Inv d) : Inv d.enqueue.2 := by
  unfold Dispatcher.enqueue
  split
  · exact h.of_registry rfl rfl rfl rfl rfl (List.Perm.refl _)
  · split
    · exact h.of_registry rfl rfl rfl rfl rfl (List.Perm.refl _)
    next hroom =>
      have hb := h.bound
      exact h.enqueue_accepted (by omega)

-- One entry and its place in the ready queue change, together with what the workers execute.
theorem Inv.update (h : Inv d) {e : CallbackEntry} (he : e ∈ d.callbacks)
    {f : CallbackEntry → CallbackEntry} (hid : ∀ e, (f e).id = e.id) {ready : List ℕ}
    {pendingInvocations : ℕ} {leases : ℕ → ℕ} {workers : List Worker} {history : List Event}
    (hother : ∀ id, id ≠ e.id → (id ∈ ready ↔ id ∈ d.ready) ∧
      (id ∈ executing workers ↔ id ∈ executing d.workers))
    (hready : ready.Nodup) (hexec : (executing workers).Nodup)
    (hpending : pendingInvocations + e.pending.length =
      d.pendingInvocations + (f e).pending.length)
    (hbound : pendingInvocations ≤ d.maxPendingInvocations)
    (hwaits : e.id ∈ ready → (f e).cancelled = false ∧ (f e).pending ≠ [] ∧
      e.id ∉ executing workers)
    (hok : EntryOk { d with ready := ready, workers := workers } (f e)) :
    Inv { d with callbacks := d.onEntry e.id f, ready := ready,
                 pendingInvocations := pendingInvocations, leases := leases, workers := workers,
                 history := history } := by
  obtain ⟨front, back, hsplit, hon⟩ := h.onEntry_split he
  refine ⟨?_, ?_, ?_, hbound, hready, ?_, ?_, hexec, ?_, ?_⟩
  · rw [map_id_onEntry hid]
    exact h.ids_nodup
  · intro e' he'
    rcases mem_onEntry.mp he' with ⟨he', -⟩ | ⟨e'', he'', -, rfl⟩
    · exact h.ids_lt e' he'
    · rw [hid]
      exact h.ids_lt e'' he''
  · have ht := h.total
    show pendingInvocations = pendingTotal (d.onEntry e.id f)
    rw [hsplit] at ht
    rw [hon]
    simp only [pendingTotal_append, pendingTotal_cons] at ht ⊢
    omega
  · intro id hr
    by_cases heq : id = e.id
    · subst heq
      obtain ⟨hc, hp, -⟩ := hwaits hr
      exact ⟨f e, mem_onEntry.mpr (.inr ⟨e, he, rfl, rfl⟩), hid e, hc, hp⟩
    · obtain ⟨e', he', rfl, hx⟩ := h.ready_waits id ((hother id heq).1.mp hr)
      exact ⟨e', mem_onEntry.mpr (.inl ⟨he', heq⟩), rfl, hx⟩
  · intro id hr
    by_cases heq : id = e.id
    · subst heq
      exact (hwaits hr).2.2
    · exact fun hx => h.ready_free id ((hother id heq).1.mp hr) ((hother id heq).2.mp hx)
  · intro id hx
    by_cases heq : id = e.id
    · subst heq
      exact h.ids_lt e he
    · exact h.executing_lt id ((hother id heq).2.mp hx)
  · intro e' he'
    rcases mem_onEntry.mp he' with ⟨he', hne⟩ | ⟨e'', he'', heq, rfl⟩
    · refine EntryOk.of_iff (h.entries e' he') ?_
      obtain ⟨h1, h2⟩ := hother e'.id hne
      exact or_congr h1 h2
    · obtain rfl := h.entry_inj he'' he heq
      exact EntryOk.of_iff hok Iff.rfl

-- The first section of the worker: a ready entry is registered and has a message, so the branch that
-- drops an id from the queue is never taken.
theorem Inv.take_cases (h : Inv d) {w : ℕ} (ht : d.take w = some d') :
    ∃ e message pending rest, e ∈ d.callbacks ∧ e.cancelled = false ∧
      e.pending = message :: pending ∧ d.ready = e.id :: rest ∧ d.workers[w]? = some .idle ∧
      d.cancellationRequests = 0 ∧ d' = { d with
        callbacks := d.onEntry e.id fun e => { e with pending := pending }
        ready := rest
        pendingInvocations := d.pendingInvocations - 1
        leases := Function.update d.leases e.id (d.leases e.id + 1)
        workers := d.workers.set w (.executing e.ref message)
        history := .delivered e.ref message :: d.history } := by
  unfold Dispatcher.take at ht
  split at ht
  next id rest hw hr =>
    split at ht
    next hgate =>
      obtain ⟨e, he, rfl, hc, hp⟩ := h.ready_waits id (hr ▸ List.mem_cons_self)
      rw [h.findEntry_of_mem he] at ht
      cases hpend : e.pending with
      | nil => exact absurd hpend hp
      | cons message pending =>
        simp only [hc, hpend] at ht
        exact ⟨e, message, pending, rest, he, hc, hpend, hr, hw, hgate,
          (Option.some_inj.mp ht).symm⟩
    · exact absurd ht nofun
  · exact absurd ht nofun

theorem Inv.take (h : Inv d) {w : ℕ} (ht : d.take w = some d') : Inv d' := by
  obtain ⟨e, message, pending, rest, he, hc, hpend, hr, hw, -, rfl⟩ := h.take_cases ht
  have hnodup := List.nodup_cons.mp (hr ▸ h.ready_nodup)
  have hperm := executing_start hw rfl (show executes (.executing e.ref message) = some e.id from rfl)
  have hfree : e.id ∉ executing d.workers := h.ready_free e.id (hr ▸ List.mem_cons_self)
  have hpos : 0 < d.pendingInvocations := by
    obtain ⟨front, back, hsplit, -⟩ := h.onEntry_split he
    rw [h.total, hsplit]
    simp only [pendingTotal_append, pendingTotal_cons, hpend, List.length_cons]
    omega
  refine h.update (f := fun e => { e with pending := pending }) he (fun _ => rfl) ?_ hnodup.2 ?_ ?_
    (Nat.le_trans (Nat.sub_le _ _) h.bound) ?_ ?_
  · intro id hne
    rw [hperm.mem_iff, hr]
    simp [hne]
  · exact hperm.nodup_iff.mpr (List.nodup_cons.mpr ⟨hfree, h.executing_nodup⟩)
  · simp only [hpend, List.length_cons]
    omega
  · exact fun hm => absurd hm hnodup.1
  · have ok := h.entries e he
    have hs : e.scheduled = true := ok.served (by rw [hpend]; exact nofun)
    refine ⟨fun ht => absurd (hc.symm.trans ht) nofun, fun _ => ⟨fun _ => .inr ?_, fun _ => hs⟩,
      fun _ => hs⟩
    exact hperm.mem_iff.mpr List.mem_cons_self

theorem clearPending_snd (e : CallbackEntry) (ready : List ℕ) (pendingInvocations : ℕ) :
    (clearPending e ready pendingInvocations).2 = pendingInvocations - e.pending.length := by
  simp only [clearPending]
  split <;> omega

-- The three ways the section after a callback ends for an entry that is still registered.
theorem finish_cases {w : ℕ} {deregister : Bool} (ht : d.finish w deregister = some d') :
    ∃ entry message, d.workers[w]? = some (.executing entry message) ∧ d.busy w = false ∧
      ((d.findEntry entry.id = none ∧
        d' = { d with workers := d.workers.set w (.releasing entry deregister) }) ∨
      ∃ e ∈ d.callbacks, e.id = entry.id ∧
        ((d' = { d with
            callbacks := d.onEntry e.id retired, ready := d.ready.filter (· ≠ e.id),
            pendingInvocations := d.pendingInvocations - e.pending.length,
            workers := d.workers.set w (.releasing entry true) }) ∨
          (e.cancelled = false ∧ e.pending ≠ [] ∧ d' = { d with
            ready := d.ready ++ [e.id], workers := d.workers.set w (.releasing entry false) }) ∨
          (e.cancelled = false ∧ e.pending = [] ∧ d' = { d with
            callbacks := d.onEntry e.id fun e => { e with scheduled := false },
            workers := d.workers.set w (.releasing entry false) }))) := by
  unfold Dispatcher.finish at ht
  split at ht
  next entry message hw =>
    split at ht
    next hbusy =>
      refine ⟨entry, message, hw, hbusy, ?_⟩
      cases hf : d.findEntry entry.id with
      | none =>
        rw [hf] at ht
        exact .inl ⟨rfl, (Option.some_inj.mp ht).symm⟩
      | some e =>
        obtain ⟨he, hid⟩ := findEntry_eq_some hf
        rw [hf] at ht
        refine .inr ⟨e, he, hid, ?_⟩
        simp only at ht
        split at ht
        · refine .inl ?_
          rw [clearPending_snd] at ht
          exact (Option.some_inj.mp ht).symm
        next hkeep =>
          have hc : e.cancelled = false := by
            cases hc : e.cancelled with
            | false => rfl
            | true => exact absurd (by rw [hc, Bool.or_true]) hkeep
          split at ht
          next hp => exact .inr (.inl ⟨hc, hp, (Option.some_inj.mp ht).symm⟩)
          next hp => exact .inr (.inr ⟨hc, not_not.mp hp, (Option.some_inj.mp ht).symm⟩)
    · exact absurd ht nofun
  · exact absurd ht nofun

theorem onEntry_id_eq (h : Inv d) {e : CallbackEntry} (he : e ∈ d.callbacks) :
    d.onEntry e.id (fun e => e) = d.callbacks := by
  obtain ⟨front, back, hsplit, hon⟩ := h.onEntry_split he
  rw [hon, hsplit]

theorem Inv.finish (h : Inv d) {w : ℕ} {deregister : Bool} (ht : d.finish w deregister = some d') :
    Inv d' := by
  obtain ⟨entry, message, hw, -, hcases⟩ := finish_cases ht
  have hstop : ∀ retire, (executing d.workers).Perm
      (entry.id :: executing (d.workers.set w (.releasing entry retire))) :=
    fun retire => executing_stop hw rfl rfl
  have hgone : ∀ retire, entry.id ∉ executing (d.workers.set w (.releasing entry retire)) ∧
      (executing (d.workers.set w (.releasing entry retire))).Nodup :=
    fun retire => List.nodup_cons.mp ((hstop retire).nodup_iff.mp h.executing_nodup)
  have hothers : ∀ retire id, id ≠ entry.id →
      (id ∈ executing (d.workers.set w (.releasing entry retire)) ↔ id ∈ executing d.workers) := by
    intro retire id hne
    rw [(hstop retire).mem_iff, List.mem_cons, or_iff_right hne]
  have hnot : entry.id ∉ d.ready := by
    intro hr
    exact h.ready_free _ hr ((hstop true).mem_iff.mpr List.mem_cons_self)
  rcases hcases with ⟨hnone, rfl⟩ | ⟨e, he, hid, rfl | ⟨hc, hp, rfl⟩ | ⟨hc, hp, rfl⟩⟩
  · -- The entry was taken out of the registry; what is left there is another entry's business.
    have hne : ∀ e ∈ d.callbacks, e.id ≠ entry.id := by
      intro e he heq
      rw [← heq, h.findEntry_of_mem he] at hnone
      exact absurd hnone nofun
    refine ⟨h.ids_nodup, h.ids_lt, h.total, h.bound, h.ready_nodup, h.ready_waits, ?_,
      (hgone deregister).2, ?_, ?_⟩
    · intro id hr hx
      exact h.ready_free id hr ((hothers deregister id (fun heq => hnot (heq ▸ hr))).mp hx)
    · intro id hx
      exact h.executing_lt id ((hstop deregister).mem_iff.mpr (List.mem_cons_of_mem _ hx))
    · intro e he
      exact EntryOk.of_iff (h.entries e he) (or_congr Iff.rfl (hothers deregister e.id (hne e he)))
  · rw [← hid] at hothers hgone
    have hb := h.bound
    have hle : e.pending.length ≤ d.pendingInvocations := by
      obtain ⟨front, back, hsplit, -⟩ := h.onEntry_split he
      rw [h.total, hsplit]
      simp only [pendingTotal_append, pendingTotal_cons]
      omega
    refine h.update (f := retired) he (fun _ => rfl) ?_ (h.ready_nodup.filter _) (hgone true).2 ?_
      (Nat.le_trans (Nat.sub_le _ _) h.bound) ?_ ?_
    · intro id hne
      exact ⟨by simp [hne], hothers true id hne⟩
    · simp only [retired, List.length_nil]
      omega
    · intro hm
      simp at hm
    · exact ⟨fun _ => ⟨rfl, rfl⟩, fun hf => absurd hf nofun, fun hp => absurd rfl hp⟩
  · rw [← hid] at hothers hgone hnot
    have hs : e.scheduled = true := (h.entries e he).served hp
    have hkey : Inv { d with callbacks := d.onEntry e.id fun e => e, ready := d.ready ++ [e.id],
                             workers := d.workers.set w (.releasing entry false) } := by
      refine h.update he (fun _ => rfl) ?_ ?_ (hgone false).2 rfl h.bound ?_ ?_
      · intro id hne
        exact ⟨by simp [hne], hothers false id hne⟩
      · exact List.nodup_append.mpr ⟨h.ready_nodup, List.nodup_singleton _,
          fun a ha b hb heq => hnot (List.mem_singleton.mp hb ▸ heq ▸ ha)⟩
      · exact fun _ => ⟨hc, hp, (hgone false).1⟩
      · refine ⟨fun ht => absurd (hc.symm.trans ht) nofun, fun _ => ⟨fun _ => .inl ?_, fun _ => hs⟩,
          fun _ => hs⟩
        exact List.mem_append_right _ List.mem_cons_self
    rwa [onEntry_id_eq h he] at hkey
  · rw [← hid] at hothers hgone hnot
    refine h.update (f := fun e => { e with scheduled := false }) he (fun _ => rfl) ?_ h.ready_nodup
      (hgone false).2 rfl h.bound (fun hm => absurd hm hnot) ?_
    · exact fun id hne => ⟨Iff.rfl, hothers false id hne⟩
    · refine ⟨fun ht => absurd (hc.symm.trans ht) nofun, fun _ => ⟨fun hf => absurd hf nofun, ?_⟩,
        fun hne => absurd hp hne⟩
      rintro (hr | hx)
      · exact absurd hr hnot
      · exact absurd hx (hgone false).1

-- Entries leave the registry or are retired; the others are not touched.
theorem Inv.narrow (h : Inv d) {callbacks : List CallbackEntry} {ready : List ℕ}
    {pendingInvocations : ℕ} {workers : List Worker} {removals : List Removal}
    (hnodup : (callbacks.map CallbackEntry.id).Nodup)
    (hkept : ∀ e ∈ callbacks, e ∈ d.callbacks ∨ ∃ e' ∈ d.callbacks, e = retired e')
    (htotal : pendingInvocations = pendingTotal callbacks)
    (hle : pendingInvocations ≤ d.pendingInvocations)
    (hready : ready.Sublist d.ready)
    (hwaits : ∀ id ∈ ready, ∃ e ∈ callbacks, e ∈ d.callbacks ∧ e.id = id)
    (hstays : ∀ e ∈ callbacks, e ∈ d.callbacks → e.id ∈ d.ready → e.id ∈ ready)
    (hexec : (executing workers).Perm (executing d.workers)) :
    Inv { d with callbacks := callbacks, ready := ready, pendingInvocations := pendingInvocations,
                 workers := workers, removals := removals } := by
  have hm : ∀ id, id ∈ executing workers ↔ id ∈ executing d.workers := fun id => hexec.mem_iff
  refine ⟨hnodup, ?_, htotal, Nat.le_trans hle h.bound, h.ready_nodup.sublist hready, ?_, ?_,
    hexec.nodup_iff.mpr h.executing_nodup, ?_, ?_⟩
  · intro e he
    rcases hkept e he with he | ⟨e', he', rfl⟩
    · exact h.ids_lt e he
    · exact h.ids_lt e' he'
  · intro id hr
    obtain ⟨e, he, hold, rfl⟩ := hwaits id hr
    obtain ⟨e', he', hid, hx⟩ := h.ready_waits e.id (hready.subset hr)
    obtain rfl := h.entry_inj he' hold hid
    exact ⟨e', he, rfl, hx⟩
  · exact fun id hr hx => h.ready_free id (hready.subset hr) ((hm id).mp hx)
  · exact fun id hx => h.executing_lt id ((hm id).mp hx)
  · intro e he
    rcases hkept e he with hold | ⟨e', -, rfl⟩
    · refine EntryOk.of_iff (h.entries e hold) (or_congr ?_ (hm e.id))
      exact ⟨fun hr => hready.subset hr, hstays e he hold⟩
    · exact ⟨fun _ => ⟨rfl, rfl⟩, fun hf => absurd hf nofun, fun hp => absurd rfl hp⟩

theorem erase_cases {w : ℕ} (ht : d.erase w = some d') :
    ∃ entry, d.workers[w]? = some (.erasing entry) ∧ d' = { d with
      callbacks := d.callbacks.eraseP fun e => e.id == entry.id && e.cancelled
      workers := d.workers.set w .idle } := by
  unfold Dispatcher.erase at ht
  split at ht
  next entry hw => exact ⟨entry, hw, (Option.some_inj.mp ht).symm⟩
  · exact absurd ht nofun

theorem Inv.erase (h : Inv d) {w : ℕ} (ht : d.erase w = some d') : Inv d' := by
  obtain ⟨entry, hw, rfl⟩ := erase_cases ht
  have hsub : (d.callbacks.eraseP fun e => e.id == entry.id && e.cancelled).Sublist d.callbacks :=
    List.eraseP_sublist
  -- Only a cancelled entry goes, and that has no messages and is not ready.
  have hcases : (d.callbacks.eraseP fun e => e.id == entry.id && e.cancelled) = d.callbacks ∨
      ∃ e front back, d.callbacks = front ++ e :: back ∧ e.cancelled = true ∧
        (d.callbacks.eraseP fun e => e.id == entry.id && e.cancelled) = front ++ back := by
    rcases List.exists_or_eq_self_of_eraseP (fun e : CallbackEntry => e.id == entry.id &&
      e.cancelled) d.callbacks with heq | ⟨e, front, back, -, hp, hsplit, heq⟩
    · exact .inl heq
    · exact .inr ⟨e, front, back, hsplit, by simpa using (Bool.and_eq_true_iff.mp hp).2, heq⟩
  have htotal : pendingTotal (d.callbacks.eraseP fun e => e.id == entry.id && e.cancelled) =
      pendingTotal d.callbacks := by
    rcases hcases with heq | ⟨e, front, back, hsplit, hc, heq⟩
    · rw [heq]
    · have he : e ∈ d.callbacks := hsplit ▸ List.mem_append_right _ List.mem_cons_self
      rw [heq, hsplit]
      simp [((h.entries e he).silent hc).1]
  have hmem : ∀ e ∈ d.callbacks, e.cancelled = false →
      e ∈ d.callbacks.eraseP fun e => e.id == entry.id && e.cancelled := by
    intro e he hc
    rw [List.mem_eraseP_of_neg (by simp [hc])]
    exact he
  refine h.narrow (h.ids_nodup.sublist (hsub.map _)) (fun e he => .inl (hsub.subset he))
    (h.total.trans htotal.symm) (Nat.le_refl _) (List.Sublist.refl _) ?_ (fun _ _ _ hr => hr)
    (executing_set_of_none hw rfl rfl)
  intro id hr
  obtain ⟨e, he, hid, hc, -⟩ := h.ready_waits id hr
  exact ⟨e, hmem e he hc, he, hid⟩

section Detach

variable {command : String} {current : Option ℕ}

-- What a removal leaves of an entry.
def kept (command : String) (current : Option ℕ) (e : CallbackEntry) : Option CallbackEntry :=
  if e.ownerCommand ≠ command then some e else if current = some e.id then some (retired e) else none

theorem detach_nil (command : String) (current : Option ℕ) (ready : List ℕ) (pending : ℕ) :
    detach command current [] ready pending = ([], [], ready, pending) :=
  rfl

theorem detach_cons (command : String) (current : Option ℕ) (e : CallbackEntry)
    (rest : List CallbackEntry) (ready : List ℕ) (pending : ℕ) :
    detach command current (e :: rest) ready pending =
      if e.ownerCommand ≠ command then
        let r := detach command current rest ready pending
        (e :: r.1, r.2)
      else
        let cleared := clearPending e ready pending
        let r := detach command current rest cleared.1 cleared.2
        if current = some e.id then (retired e :: r.1, r.2) else (r.1, e.id :: r.2.1, r.2.2) :=
  rfl

theorem detach_callbacks (command : String) (current : Option ℕ) (callbacks : List CallbackEntry)
    (ready : List ℕ) (pending : ℕ) :
    (detach command current callbacks ready pending).1 =
      callbacks.filterMap (kept command current) := by
  induction callbacks generalizing ready pending with
  | nil => rfl
  | cons e rest ih =>
    rw [detach_cons]
    by_cases ho : e.ownerCommand ≠ command
    · rw [if_pos ho, List.filterMap_cons_some (by rw [kept, if_pos ho])]
      exact congrArg _ (ih _ _)
    · rw [if_neg ho]
      by_cases hc : current = some e.id
      · simp only [if_pos hc]
        rw [List.filterMap_cons_some (by rw [kept, if_neg ho, if_pos hc])]
        exact congrArg _ (ih _ _)
      · simp only [if_neg hc]
        rw [List.filterMap_cons_none (by rw [kept, if_neg ho, if_neg hc])]
        exact ih _ _

theorem mem_detach_removed {callbacks : List CallbackEntry} {ready : List ℕ} {pending id : ℕ} :
    id ∈ (detach command current callbacks ready pending).2.1 ↔
      ∃ e ∈ callbacks, e.id = id ∧ e.ownerCommand = command ∧ current ≠ some e.id := by
  induction callbacks generalizing ready pending with
  | nil => simp [detach_nil]
  | cons e rest ih =>
    rw [detach_cons]
    by_cases ho : e.ownerCommand ≠ command
    · simp [ih, ho]
    · rw [if_neg ho]
      simp only [not_not] at ho
      by_cases hc : current = some e.id
      · simp only [if_pos hc, ih]
        constructor
        · rintro ⟨e', he', hx⟩
          exact ⟨e', List.mem_cons_of_mem _ he', hx⟩
        · rintro ⟨e', he', hx⟩
          rcases List.mem_cons.mp he' with rfl | he'
          · exact absurd hc hx.2.2
          · exact ⟨e', he', hx⟩
      · simp only [if_neg hc, List.mem_cons, ih]
        constructor
        · rintro (rfl | ⟨e', he', hx⟩)
          · exact ⟨e, .inl rfl, rfl, ho, hc⟩
          · exact ⟨e', .inr he', hx⟩
        · rintro ⟨e', rfl | he', hx⟩
          · exact .inl hx.1.symm
          · exact .inr ⟨e', he', hx⟩

theorem mem_detach_ready {callbacks : List CallbackEntry} {ready : List ℕ} {pending id : ℕ} :
    id ∈ (detach command current callbacks ready pending).2.2.1 ↔
      id ∈ ready ∧ ∀ e ∈ callbacks, e.ownerCommand = command → e.id ≠ id := by
  induction callbacks generalizing ready pending with
  | nil => simp [detach_nil]
  | cons e rest ih =>
    rw [detach_cons]
    by_cases ho : e.ownerCommand ≠ command
    · simp [ih, ho]
    · rw [if_neg ho]
      simp only [not_not] at ho
      have hboth : id ∈ (detach command current rest (clearPending e ready pending).1
          (clearPending e ready pending).2).2.2.1 ↔
          id ∈ ready ∧ ∀ e' ∈ e :: rest, e'.ownerCommand = command → e'.id ≠ id := by
        rw [ih]
        simp only [clearPending, List.mem_filter, List.forall_mem_cons, ho, true_implies,
          decide_eq_true_eq, and_assoc, ne_comm]
      split <;> exact hboth

theorem detach_ready_sublist (command : String) (current : Option ℕ)
    (callbacks : List CallbackEntry) (ready : List ℕ) (pending : ℕ) :
    (detach command current callbacks ready pending).2.2.1.Sublist ready := by
  induction callbacks generalizing ready pending with
  | nil => exact List.Sublist.refl _
  | cons e rest ih =>
    rw [detach_cons]
    split
    · exact ih _ _
    · have hsub := (ih (clearPending e ready pending).1 (clearPending e ready pending).2).trans
        (List.filter_sublist (l := ready))
      split <;> exact hsub

-- The count loses what the removed entries had, whatever it holds beyond the registry.
theorem detach_count (command : String) (current : Option ℕ) (callbacks : List CallbackEntry)
    (ready : List ℕ) (pending other : ℕ) (h : pending = other + pendingTotal callbacks) :
    (detach command current callbacks ready pending).2.2.2 =
      other + pendingTotal (detach command current callbacks ready pending).1 := by
  induction callbacks generalizing ready pending other with
  | nil => exact h
  | cons e rest ih =>
    rw [pendingTotal_cons] at h
    rw [detach_cons]
    split
    · have hr := ih ready pending (other + e.pending.length) (by omega)
      simp only [pendingTotal_cons]
      omega
    · have hr := ih (clearPending e ready pending).1 (clearPending e ready pending).2 other
        (by rw [clearPending_snd]; omega)
      split
      · simpa [retired] using hr
      · exact hr

end Detach

theorem kept_eq_some {command : String} {current : Option ℕ} {e e' : CallbackEntry}
    (h : kept command current e = some e') :
    e.ownerCommand ≠ command ∧ e' = e ∨
      e.ownerCommand = command ∧ current = some e.id ∧ e' = retired e := by
  unfold kept at h
  split at h
  next ho => exact .inl ⟨ho, (Option.some_inj.mp h).symm⟩
  next ho =>
    obtain ⟨hc, rfl⟩ := Transition.enabled_eq_some h
    exact .inr ⟨not_not.mp ho, hc, rfl⟩

theorem map_id_kept_sublist (command : String) (current : Option ℕ)
    (callbacks : List CallbackEntry) :
    ((callbacks.filterMap (kept command current)).map CallbackEntry.id).Sublist
      (callbacks.map CallbackEntry.id) := by
  induction callbacks with
  | nil => exact List.Sublist.refl _
  | cons e rest ih =>
    cases hk : kept command current e with
    | none =>
      rw [List.filterMap_cons_none hk]
      exact ih.cons _
    | some e' =>
      have hid : e'.id = e.id := by
        rcases kept_eq_some hk with ⟨-, rfl⟩ | ⟨-, -, rfl⟩ <;> rfl
      rw [List.filterMap_cons_some hk, List.map_cons, List.map_cons, hid]
      exact ih.cons_cons _

theorem section_cases {k : ℕ} (ht : d.section' k = some d') :
    ∃ caller current command before,
      d.removals[k]? = some ⟨caller, current, command, before, .published⟩ ∧
      d' = { d with
        callbacks := (detach command (current.map Ref.id) d.callbacks d.ready d.pendingInvocations).1
        ready :=
          (detach command (current.map Ref.id) d.callbacks d.ready d.pendingInvocations).2.2.1
        pendingInvocations :=
          (detach command (current.map Ref.id) d.callbacks d.ready d.pendingInvocations).2.2.2
        removals := d.removals.set k ⟨caller, current, command, before, .detached
          (detach command (current.map Ref.id) d.callbacks d.ready
            d.pendingInvocations).2.1⟩ } := by
  unfold section' at ht
  split at ht
  next caller current command before hk =>
    exact ⟨caller, current, command, before, hk, (Option.some_inj.mp ht).symm⟩
  · exact absurd ht nofun

theorem pendingTotal_kept_le (command : String) (current : Option ℕ)
    (callbacks : List CallbackEntry) :
    pendingTotal (callbacks.filterMap (kept command current)) ≤ pendingTotal callbacks := by
  induction callbacks with
  | nil => exact Nat.le_refl _
  | cons e rest ih =>
    cases hk : kept command current e with
    | none =>
      rw [List.filterMap_cons_none hk, pendingTotal_cons]
      omega
    | some e' =>
      have hlen : e'.pending.length ≤ e.pending.length := by
        rcases kept_eq_some hk with ⟨-, rfl⟩ | ⟨-, -, rfl⟩
        · exact Nat.le_refl _
        · exact Nat.zero_le _
      rw [List.filterMap_cons_some hk, pendingTotal_cons, pendingTotal_cons]
      omega

theorem mem_kept_of_ne {command : String} {current : Option ℕ} {callbacks : List CallbackEntry}
    {e : CallbackEntry} (he : e ∈ callbacks) (ho : e.ownerCommand ≠ command) :
    e ∈ callbacks.filterMap (kept command current) :=
  List.mem_filterMap.mpr ⟨e, he, if_pos ho⟩

theorem Inv.section' (h : Inv d) {k : ℕ} (ht : d.section' k = some d') : Inv d' := by
  obtain ⟨caller, current, command, before, -, rfl⟩ := section_cases ht
  have hcount := detach_count command (current.map Ref.id) d.callbacks d.ready
    d.pendingInvocations 0 (by rw [Nat.zero_add, h.total])
  have hready := detach_ready_sublist command (current.map Ref.id) d.callbacks d.ready
    d.pendingInvocations
  have hcallbacks := detach_callbacks command (current.map Ref.id) d.callbacks d.ready
    d.pendingInvocations
  rw [Nat.zero_add] at hcount
  refine h.narrow ?_ ?_ hcount ?_ hready ?_ ?_ (List.Perm.refl _)
  · rw [hcallbacks]
    exact h.ids_nodup.sublist (map_id_kept_sublist _ _ _)
  · intro e he
    rw [hcallbacks] at he
    obtain ⟨e', he', hk⟩ := List.mem_filterMap.mp he
    rcases kept_eq_some hk with ⟨-, rfl⟩ | ⟨-, -, rfl⟩
    · exact .inl he'
    · exact .inr ⟨e', he', rfl⟩
  · rw [hcount, hcallbacks, h.total]
    exact pendingTotal_kept_le _ _ _
  · intro id hid
    obtain ⟨hr, hfree⟩ := mem_detach_ready.mp hid
    obtain ⟨e, he, rfl, -⟩ := h.ready_waits id hr
    refine ⟨e, ?_, he, rfl⟩
    rw [hcallbacks]
    exact mem_kept_of_ne he fun ho => hfree e he ho rfl
  · intro e hkept hold hr
    refine mem_detach_ready.mpr ⟨hr, fun e' he' ho heq => ?_⟩
    obtain rfl := h.entry_inj he' hold heq
    rw [hcallbacks] at hkept
    obtain ⟨e'', he'', hk⟩ := List.mem_filterMap.mp hkept
    -- An entry of the command that stays is retired, and a retired entry is not ready.
    rcases kept_eq_some hk with ⟨hne, rfl⟩ | ⟨-, -, rfl⟩
    · exact hne ho
    · obtain ⟨e, he, hid, hc, -⟩ := h.ready_waits _ hr
      obtain rfl := h.entry_inj he hold hid
      exact absurd hc nofun

theorem drop_cases {w : ℕ} (ht : d.drop w = some d') :
    ∃ entry retire, d.workers[w]? = some (.releasing entry retire) ∧
      d' = { d with workers := d.workers.set w (.dropped entry retire) } := by
  unfold Dispatcher.drop at ht
  split at ht
  next entry retire hw => exact ⟨entry, retire, hw, (Option.some_inj.mp ht).symm⟩
  · exact absurd ht nofun

theorem release_cases {w : ℕ} (ht : d.release w = some d') :
    ∃ entry retire, d.workers[w]? = some (.dropped entry retire) ∧ d' = { d with
      leases := Function.update d.leases entry.id (d.leases entry.id - 1)
      workers := d.workers.set w (if retire then .erasing entry else .idle) } := by
  unfold Dispatcher.release at ht
  split at ht
  next entry retire hw => exact ⟨entry, retire, hw, (Option.some_inj.mp ht).symm⟩
  · exact absurd ht nofun

-- The steps that touch neither the registry nor what the workers execute.
theorem Inv.drop (h : Inv d) {w : ℕ} (ht : d.drop w = some d') : Inv d' := by
  obtain ⟨entry, retire, hw, rfl⟩ := drop_cases ht
  exact h.of_registry rfl rfl rfl rfl rfl (executing_set_of_none hw rfl rfl)

theorem Inv.release (h : Inv d) {w : ℕ} (ht : d.release w = some d') : Inv d' := by
  obtain ⟨entry, retire, hw, rfl⟩ := release_cases ht
  refine h.of_registry rfl rfl rfl rfl rfl (executing_set_of_none hw rfl ?_)
  cases retire <;> rfl

-- What `publish`, `unpublish`, `await` and `return'` may change.
theorem Inv.of_removals (h : Inv d) {requests : ℕ} {removals : List Removal} :
    Inv { d with cancellationRequests := requests, removals := removals } :=
  h.of_registry rfl rfl rfl rfl rfl (List.Perm.refl _)

theorem publish_cases {caller : Option ℕ} {command : String}
    (ht : d.publish caller command = some d') :
    ∃ current, d' = { d with
        cancellationRequests := d.cancellationRequests + 1
        removals := d.removals ++ [⟨caller, current, command, d.nextId, .published⟩] } ∧
      (caller = none ∧ current = none ∨
        ∃ w entry, caller = some w ∧ current = some entry ∧ d.currentEntry w = some entry ∧
          d.busy w = false) := by
  unfold Dispatcher.publish at ht
  cases caller with
  | none => exact ⟨none, (Option.some_inj.mp ht).symm, .inl ⟨rfl, rfl⟩⟩
  | some w =>
    simp only at ht
    split at ht
    next entry hw hb =>
      exact ⟨some entry, (Option.some_inj.mp ht).symm, .inr ⟨w, entry, rfl, rfl, hw, hb⟩⟩
    · exact absurd ht nofun

theorem unpublish_cases {k : ℕ} (ht : d.unpublish k = some d') :
    ∃ caller current command before removed,
      d.removals[k]? = some ⟨caller, current, command, before, .detached removed⟩ ∧
      d' = { d with
        cancellationRequests := d.cancellationRequests - 1
        removals :=
          d.removals.set k ⟨caller, current, command, before, .waiting removed removed⟩ } := by
  unfold Dispatcher.unpublish at ht
  split at ht
  next caller current command before removed hk =>
    exact ⟨caller, current, command, before, removed, hk, (Option.some_inj.mp ht).symm⟩
  · exact absurd ht nofun

theorem await_cases {k : ℕ} (ht : d.await k = some d') :
    ∃ caller current command before removed id left,
      d.removals[k]? = some ⟨caller, current, command, before, .waiting removed (id :: left)⟩ ∧
      d.leases id = 0 ∧
      d' = { d with
        removals :=
          d.removals.set k ⟨caller, current, command, before, .waiting removed left⟩ } := by
  unfold Dispatcher.await at ht
  split at ht
  next caller current command before removed id left hk =>
    obtain ⟨hl, rfl⟩ := Transition.enabled_eq_some ht
    exact ⟨caller, current, command, before, removed, id, left, hk, hl, rfl⟩
  · exact absurd ht nofun

theorem return_cases {k : ℕ} (ht : d.return' k = some d') :
    ∃ caller current command before removed,
      d.removals[k]? = some ⟨caller, current, command, before, .waiting removed []⟩ ∧
      d' = { d with
        removals := d.removals.set k ⟨caller, current, command, before, .returned⟩ } := by
  unfold Dispatcher.return' at ht
  split at ht
  next caller current command before removed hk =>
    exact ⟨caller, current, command, before, removed, hk, (Option.some_inj.mp ht).symm⟩
  · exact absurd ht nofun

theorem Inv.step (h : Inv d) (i : Step) (ht : step d i = some d') : Inv d' := by
  cases i with
  | registerCallback ownerCommand hasCallback =>
    obtain rfl := Option.some_inj.mp ht
    exact h.registerCallback ownerCommand hasCallback
  | enqueue =>
    obtain rfl := Option.some_inj.mp ht
    exact h.enqueue
  | take w => exact h.take ht
  | finish w deregister => exact h.finish ht
  | drop w => exact h.drop ht
  | release w => exact h.release ht
  | erase w => exact h.erase ht
  | publish caller command =>
    obtain ⟨current, rfl, -⟩ := publish_cases ht
    exact h.of_removals
  | section' k => exact h.section' ht
  | unpublish k =>
    obtain ⟨_, _, _, _, _, -, rfl⟩ := unpublish_cases ht
    exact h.of_removals
  | await k =>
    obtain ⟨_, _, _, _, _, _, _, -, -, rfl⟩ := await_cases ht
    exact h.of_removals
  | return' k =>
    obtain ⟨_, _, _, _, _, -, rfl⟩ := return_cases ht
    exact h.of_removals

end Dispatcher

end Glider.AnyMessage

import Glider.Lib.History
import Glider.AnyMessage.Registry

namespace Glider.AnyMessage

open Glider.Lib

def messageCount : List Event → ℕ
  | [] => 0
  | .enqueued .. :: older => messageCount older + 1
  | _ :: older => messageCount older

-- What must have happened before an event of a run.
def Lawful : Event → List Event → Prop
  | .registered entry since, older =>
    since = messageCount older ∧
      ∀ other since', .registered other since' ∈ older → other.id ≠ entry.id
  | .enqueued message result receivers, older =>
    message = messageCount older ∧ (result = false → receivers = [])
  | .delivered entry message, older =>
    (∃ since, .registered entry since ∈ older ∧ since ≤ message) ∧
    (∃ receivers, .enqueued message true receivers ∈ older ∧ entry ∈ receivers) ∧
    ∀ earlier, .delivered entry earlier ∈ older → earlier < message

namespace Dispatcher

-- The messages a registered entry waits for: sent to it since its registration, in order, and later
-- than those it got.
structure EntryTraced (history : List Event) (messages : ℕ) (e : CallbackEntry) : Prop where
  registered : .registered e.ref e.since ∈ history
  since_le : e.since ≤ messages
  sorted : e.pending.Pairwise (· < ·)
  pending_lt : ∀ message ∈ e.pending, message < messages
  since_pending : ∀ message ∈ e.pending, e.since ≤ message
  receives : ∀ message ∈ e.pending,
    ∃ receivers, .enqueued message true receivers ∈ history ∧ e.ref ∈ receivers
  later : ∀ message ∈ e.pending, ∀ earlier, .delivered e.ref earlier ∈ history → earlier < message

structure Traced (d : Dispatcher) : Prop where
  messages : d.messages = messageCount d.history
  entries : ∀ e ∈ d.callbacks, EntryTraced d.history d.messages e
  registered_lt : ∀ entry since, .registered entry since ∈ d.history → entry.id < d.nextId
  delivered_lt : ∀ entry message, .delivered entry message ∈ d.history → message < d.messages
  lawful : Explained Lawful d.history

variable {d d' : Dispatcher}

theorem Traced.create (workerCount maxPendingInvocations : ℕ) :
    Traced (create workerCount maxPendingInvocations) :=
  ⟨rfl, fun _ he => absurd he List.not_mem_nil, fun _ _ he => absurd he List.not_mem_nil,
    fun _ _ he => absurd he List.not_mem_nil, trivial⟩

-- An entry that is only taken out of the queues keeps its place in the history.
theorem EntryTraced.narrow {history : List Event} {messages : ℕ} {e e' : CallbackEntry}
    (h : EntryTraced history messages e) (href : e'.ref = e.ref) (hsince : e'.since = e.since)
    (hpending : e'.pending.Sublist e.pending) : EntryTraced history messages e' := by
  refine ⟨?_, hsince ▸ h.since_le, h.sorted.sublist hpending, ?_, ?_, ?_, ?_⟩
  · rw [href, hsince]
    exact h.registered
  · exact fun n hn => h.pending_lt n (hpending.subset hn)
  · rw [hsince]
    exact fun n hn => h.since_pending n (hpending.subset hn)
  · rw [href]
    exact fun n hn => h.receives n (hpending.subset hn)
  · rw [href]
    exact fun n hn => h.later n (hpending.subset hn)

theorem EntryTraced.cons {history : List Event} {messages messages' : ℕ} {e : CallbackEntry}
    (h : EntryTraced history messages e) (hle : messages ≤ messages') {event : Event}
    (hother : ∀ message, event ≠ .delivered e.ref message) :
    EntryTraced (event :: history) messages' e := by
  refine ⟨List.mem_cons_of_mem _ h.registered, Nat.le_trans h.since_le hle, h.sorted, ?_,
    h.since_pending, ?_, ?_⟩
  · exact fun n hn => Nat.lt_of_lt_of_le (h.pending_lt n hn) hle
  · intro n hn
    obtain ⟨receivers, hr, hm⟩ := h.receives n hn
    exact ⟨receivers, List.mem_cons_of_mem _ hr, hm⟩
  · intro n hn earlier hd
    rcases List.mem_cons.mp hd with heq | hd
    · exact absurd heq.symm (hother earlier)
    · exact h.later n hn earlier hd

theorem Traced.narrow (h : Traced d) (hhistory : d'.history = d.history)
    (hmessages : d'.messages = d.messages) (hnext : d'.nextId = d.nextId)
    (hcallbacks : ∀ e' ∈ d'.callbacks, ∃ e ∈ d.callbacks, e'.ref = e.ref ∧ e'.since = e.since ∧
      e'.pending.Sublist e.pending) : Traced d' := by
  refine ⟨?_, ?_, ?_, ?_, hhistory ▸ h.lawful⟩
  · rw [hmessages, hhistory]
    exact h.messages
  · intro e' he'
    obtain ⟨e, he, href, hsince, hpending⟩ := hcallbacks e' he'
    rw [hmessages, hhistory]
    exact (h.entries e he).narrow href hsince hpending
  · rw [hnext, hhistory]
    exact h.registered_lt
  · rw [hmessages, hhistory]
    exact h.delivered_lt

theorem Traced.of_callbacks (h : Traced d) (hhistory : d'.history = d.history)
    (hmessages : d'.messages = d.messages) (hnext : d'.nextId = d.nextId)
    (hcallbacks : d'.callbacks.Sublist d.callbacks) : Traced d' :=
  h.narrow hhistory hmessages hnext fun e he =>
    ⟨e, hcallbacks.subset he, rfl, rfl, List.Sublist.refl _⟩

theorem Traced.onEntry (h : Traced d) (hhistory : d'.history = d.history)
    (hmessages : d'.messages = d.messages) (hnext : d'.nextId = d.nextId) {id : ℕ}
    {f : CallbackEntry → CallbackEntry} (hcallbacks : d'.callbacks = d.onEntry id f)
    (hf : ∀ e, (f e).ref = e.ref ∧ (f e).since = e.since ∧ (f e).pending.Sublist e.pending) :
    Traced d' := by
  apply h.narrow hhistory hmessages hnext
  intro e he
  rw [hcallbacks] at he
  rcases mem_onEntry.mp he with ⟨he, -⟩ | ⟨e', he', -, rfl⟩
  · exact ⟨e, he, rfl, rfl, List.Sublist.refl _⟩
  · exact ⟨e', he', hf e'⟩

theorem Traced.registerCallback (h : Traced d) (ownerCommand : String) (hasCallback : Bool) :
    Traced (d.registerCallback ownerCommand hasCallback).2 := by
  unfold Dispatcher.registerCallback
  split
  · exact h
  · refine ⟨h.messages, ?_, ?_, ?_, ⟨h.messages, ?_⟩, h.lawful⟩
    · intro e he
      rcases List.mem_append.mp he with he | he
      · exact (h.entries e he).cons (Nat.le_refl _) nofun
      · rw [List.mem_singleton.mp he]
        exact ⟨List.mem_cons_self, Nat.le_refl _, List.Pairwise.nil,
          fun _ hn => absurd hn List.not_mem_nil, fun _ hn => absurd hn List.not_mem_nil,
          fun _ hn => absurd hn List.not_mem_nil, fun _ hn => absurd hn List.not_mem_nil⟩
    · intro entry since he
      rcases List.mem_cons.mp he with heq | he
      · obtain ⟨rfl, -⟩ := Event.registered.inj heq
        exact Nat.lt_succ_self _
      · exact Nat.lt_succ_of_lt (h.registered_lt entry since he)
    · intro entry message he
      rcases List.mem_cons.mp he with heq | he
      · exact absurd heq nofun
      · exact h.delivered_lt entry message he
    · intro other since he heq
      have hlt := h.registered_lt other since he
      rw [heq] at hlt
      exact Nat.lt_irrefl _ hlt

-- An enqueue extends the history by one event, and what it appends to the entries is its message.
theorem Traced.enqueued (h : Traced d) {result : Bool} {receivers : List Ref}
    (hresult : result = false → receivers = []) {callbacks : List CallbackEntry}
    {ready : List ℕ} {pendingInvocations : ℕ}
    (hentries : ∀ e ∈ callbacks,
      EntryTraced (.enqueued d.messages result receivers :: d.history) (d.messages + 1) e) :
    Traced { d with callbacks := callbacks, ready := ready,
                    pendingInvocations := pendingInvocations, messages := d.messages + 1,
                    history := .enqueued d.messages result receivers :: d.history } := by
  refine ⟨congrArg Nat.succ h.messages, hentries, ?_, ?_, ⟨h.messages, hresult⟩, h.lawful⟩
  · intro entry since he
    rcases List.mem_cons.mp he with heq | he
    · exact absurd heq nofun
    · exact h.registered_lt entry since he
  · intro entry message he
    rcases List.mem_cons.mp he with heq | he
    · exact absurd heq nofun
    · exact Nat.lt_succ_of_lt (h.delivered_lt entry message he)

theorem EntryTraced.push {history : List Event} {messages : ℕ} {e : CallbackEntry}
    (h : EntryTraced history messages e)
    (hdelivered : ∀ entry message, .delivered entry message ∈ history → message < messages)
    {receivers : List Ref} (hreceives : e.cancelled = false → e.ref ∈ receivers) :
    EntryTraced (.enqueued messages true receivers :: history) (messages + 1)
      (Dispatcher.push messages e) := by
  have hold : EntryTraced (.enqueued messages true receivers :: history) (messages + 1) e :=
    h.cons (Nat.le_succ _) nofun
  unfold Dispatcher.push
  split
  · exact hold
  next hc =>
    have hin := hreceives (by simpa using hc)
    refine ⟨hold.registered, hold.since_le, ?_, ?_, ?_, ?_, ?_⟩
    · refine List.pairwise_append.mpr ⟨h.sorted, List.pairwise_singleton _ _, ?_⟩
      intro a ha b hb
      rw [List.mem_singleton.mp hb]
      exact h.pending_lt a ha
    · intro n hn
      rcases List.mem_append.mp hn with hn | hn
      · exact hold.pending_lt n hn
      · rw [List.mem_singleton.mp hn]
        exact Nat.lt_succ_self _
    · intro n hn
      rcases List.mem_append.mp hn with hn | hn
      · exact hold.since_pending n hn
      · rw [List.mem_singleton.mp hn]
        exact h.since_le
    · intro n hn
      rcases List.mem_append.mp hn with hn | hn
      · exact hold.receives n hn
      · rw [List.mem_singleton.mp hn]
        exact ⟨receivers, List.mem_cons_self, hin⟩
    · intro n hn earlier hd
      rcases List.mem_append.mp hn with hn | hn
      · exact hold.later n hn earlier hd
      · rw [List.mem_singleton.mp hn]
        rcases List.mem_cons.mp hd with heq | hd
        · exact absurd heq nofun
        · exact hdelivered _ _ hd

theorem Traced.enqueue (h : Traced d) : Traced d.enqueue.2 := by
  have hkept : ∀ result receivers, ∀ e ∈ d.callbacks,
      EntryTraced (.enqueued d.messages result receivers :: d.history) (d.messages + 1) e :=
    fun result receivers e he => (h.entries e he).cons (Nat.le_succ _) nofun
  unfold Dispatcher.enqueue
  split
  · exact h.enqueued (fun _ => rfl) (hkept true [])
  · split
    · exact h.enqueued (fun _ => rfl) (hkept false [])
    · refine h.enqueued (by simp) ?_
      intro e' he'
      obtain ⟨e, he, rfl⟩ := List.mem_map.mp he'
      apply (h.entries e he).push h.delivered_lt
      exact fun hc => List.mem_map_of_mem (mem_eligible.mpr ⟨he, hc⟩)

theorem Traced.take (h : Traced d) (hinv : Inv d) {w : ℕ} (ht : d.take w = some d') :
    Traced d' := by
  obtain ⟨e, message, pending, rest, he, -, hpend, -, -, -, rfl⟩ := hinv.take_cases ht
  have hin : message ∈ e.pending := hpend ▸ List.mem_cons_self
  have htraced := h.entries e he
  have hsorted := List.pairwise_cons.mp (hpend ▸ htraced.sorted)
  refine ⟨h.messages, ?_, ?_, ?_, ⟨?_, htraced.receives message hin, htraced.later message hin⟩,
    h.lawful⟩
  · intro e' he'
    rcases mem_onEntry.mp he' with ⟨he', hne⟩ | ⟨e'', he'', heq, rfl⟩
    · apply (h.entries e' he').cons (Nat.le_refl _)
      intro n heq
      exact hne (congrArg Ref.id (Event.delivered.inj heq).1).symm
    · obtain rfl := hinv.entry_inj he'' he heq
      have hsub : ∀ n ∈ pending, n ∈ e''.pending := fun n hn => hpend ▸ List.mem_cons_of_mem _ hn
      refine ⟨List.mem_cons_of_mem _ htraced.registered, htraced.since_le, hsorted.2,
        fun n hn => htraced.pending_lt n (hsub n hn), fun n hn => htraced.since_pending n (hsub n hn),
        ?_, ?_⟩
      · intro n hn
        obtain ⟨receivers, hr, hm⟩ := htraced.receives n (hsub n hn)
        exact ⟨receivers, List.mem_cons_of_mem _ hr, hm⟩
      · intro n hn earlier hd
        rcases List.mem_cons.mp hd with heq | hd
        · rw [(Event.delivered.inj heq).2]
          exact hsorted.1 n hn
        · exact htraced.later n (hsub n hn) earlier hd
  · intro entry since hr
    rcases List.mem_cons.mp hr with heq | hr
    · exact absurd heq nofun
    · exact h.registered_lt entry since hr
  · intro entry n hd
    rcases List.mem_cons.mp hd with heq | hd
    · rw [(Event.delivered.inj heq).2]
      exact htraced.pending_lt message hin
    · exact h.delivered_lt entry n hd
  · exact ⟨e.since, htraced.registered, htraced.since_pending message hin⟩

theorem Traced.finish (h : Traced d) {w : ℕ} {deregister : Bool}
    (ht : d.finish w deregister = some d') : Traced d' := by
  obtain ⟨entry, message, -, -, hcases⟩ := finish_cases ht
  rcases hcases with ⟨-, rfl⟩ | ⟨e, -, -, rfl | ⟨-, -, rfl⟩ | ⟨-, -, rfl⟩⟩
  · exact h.of_callbacks rfl rfl rfl (List.Sublist.refl _)
  · exact h.onEntry rfl rfl rfl rfl fun e => ⟨rfl, rfl, List.nil_sublist _⟩
  · exact h.of_callbacks rfl rfl rfl (List.Sublist.refl _)
  · exact h.onEntry rfl rfl rfl rfl fun e => ⟨rfl, rfl, List.Sublist.refl _⟩

theorem Traced.section' (h : Traced d) {k : ℕ} (ht : d.section' k = some d') : Traced d' := by
  obtain ⟨caller, current, command, before, -, rfl⟩ := section_cases ht
  refine h.narrow rfl rfl rfl ?_
  intro e he
  rw [detach_callbacks] at he
  obtain ⟨e', he', hk⟩ := List.mem_filterMap.mp he
  rcases kept_eq_some hk with ⟨-, rfl⟩ | ⟨-, -, rfl⟩
  · exact ⟨e, he', rfl, rfl, List.Sublist.refl _⟩
  · exact ⟨e', he', rfl, rfl, List.nil_sublist _⟩

theorem Traced.step (h : Traced d) (hinv : Inv d) (i : Step)
    (ht : Dispatcher.step d i = some d') : Traced d' := by
  cases i with
  | registerCallback ownerCommand hasCallback =>
    obtain rfl := Option.some_inj.mp ht
    exact h.registerCallback ownerCommand hasCallback
  | enqueue =>
    obtain rfl := Option.some_inj.mp ht
    exact h.enqueue
  | take w => exact h.take hinv ht
  | finish w deregister => exact h.finish ht
  | drop w =>
    obtain ⟨_, _, -, rfl⟩ := drop_cases ht
    exact h.of_callbacks rfl rfl rfl (List.Sublist.refl _)
  | release w =>
    obtain ⟨_, _, -, rfl⟩ := release_cases ht
    exact h.of_callbacks rfl rfl rfl (List.Sublist.refl _)
  | erase w =>
    obtain ⟨_, -, rfl⟩ := erase_cases ht
    exact h.of_callbacks rfl rfl rfl List.eraseP_sublist
  | publish caller command =>
    obtain ⟨current, rfl, -⟩ := publish_cases ht
    exact h.of_callbacks rfl rfl rfl (List.Sublist.refl _)
  | section' k => exact h.section' ht
  | unpublish k =>
    obtain ⟨_, _, _, _, _, -, rfl⟩ := unpublish_cases ht
    exact h.of_callbacks rfl rfl rfl (List.Sublist.refl _)
  | await k =>
    obtain ⟨_, _, _, _, _, _, _, -, -, rfl⟩ := await_cases ht
    exact h.of_callbacks rfl rfl rfl (List.Sublist.refl _)
  | return' k =>
    obtain ⟨_, _, _, _, _, -, rfl⟩ := return_cases ht
    exact h.of_callbacks rfl rfl rfl (List.Sublist.refl _)

section History

variable {history : List Event} {entry : Ref} {message : ℕ}

theorem enqueued_lt (h : Explained Lawful history) {result : Bool} {receivers : List Ref}
    (he : .enqueued message result receivers ∈ history) : message < messageCount history := by
  induction history with
  | nil => exact absurd he List.not_mem_nil
  | cons event older ih =>
    have hle : messageCount older ≤ messageCount (event :: older) := by
      cases event with
      | enqueued _ _ _ => exact Nat.le_succ _
      | registered _ _ | delivered _ _ => exact Nat.le_refl _
    rcases List.mem_cons.mp he with rfl | he
    · rw [h.1.1]
      exact Nat.lt_succ_self _
    · exact Nat.lt_of_lt_of_le (ih h.2 he) hle

-- A message is enqueued once.
theorem enqueued_inj (h : Explained Lawful history) {r r' : Bool} {receivers receivers' : List Ref}
    (he : .enqueued message r receivers ∈ history) (he' : .enqueued message r' receivers' ∈ history) :
    r = r' ∧ receivers = receivers' := by
  induction history with
  | nil => exact absurd he List.not_mem_nil
  | cons event older ih =>
    rcases List.mem_cons.mp he with rfl | hold
    · rcases List.mem_cons.mp he' with heq | he'
      · obtain ⟨-, rfl, rfl⟩ := Event.enqueued.inj heq
        exact ⟨rfl, rfl⟩
      · have hlt := enqueued_lt h.2 he'
        rw [h.1.1] at hlt
        exact absurd hlt (Nat.lt_irrefl _)
    · rcases List.mem_cons.mp he' with rfl | he'
      · have hlt := enqueued_lt h.2 hold
        rw [h.1.1] at hlt
        exact absurd hlt (Nat.lt_irrefl _)
      · exact ih h.2 hold he'

theorem delivered_enqueued (h : Explained Lawful history)
    (hd : .delivered entry message ∈ history) :
    ∃ receivers, .enqueued message true receivers ∈ history ∧ entry ∈ receivers := by
  obtain ⟨newer, older, rfl⟩ := List.append_of_mem hd
  obtain ⟨-, ⟨receivers, hr, hm⟩, -⟩ := h.of_append.1
  exact ⟨receivers, List.mem_append_right _ (List.mem_cons_of_mem _ hr), hm⟩

end History

-- An accepted message goes to every entry that is not cancelled, a refused one to none.
theorem enqueue_spec (d : Dispatcher) :
    (d.enqueue.1 = true → d.enqueue.2.callbacks = d.callbacks.map (push d.messages)) ∧
    (d.enqueue.1 = false → d.enqueue.2.callbacks = d.callbacks) := by
  unfold Dispatcher.enqueue
  split
  next hnone =>
    refine ⟨fun _ => ?_, by simp⟩
    have hcancelled : ∀ e ∈ d.callbacks, push d.messages e = e := by
      intro e he
      cases hc : e.cancelled with
      | true => simp [push, hc]
      | false =>
        have hmem : e ∈ d.eligible := mem_eligible.mpr ⟨he, hc⟩
        rw [List.length_eq_zero_iff.mp hnone] at hmem
        exact absurd hmem List.not_mem_nil
    exact ((List.map_congr_left hcancelled).trans (List.map_id _)).symm
  · split
    · exact ⟨by simp, fun _ => rfl⟩
    · exact ⟨fun _ => rfl, by simp⟩

-- The rules of the dispatcher in a state.
structure Sound (d : Dispatcher) : Prop where
  total : d.pendingInvocations = (d.callbacks.map fun e => e.pending.length).sum
  bounded : d.pendingInvocations ≤ d.maxPendingInvocations
  ready_nodup : d.ready.Nodup
  scheduled_iff : ∀ e ∈ d.callbacks, e.cancelled = false →
    (e.scheduled = true ↔ d.ready.count e.id = 1 ∨ e.id ∈ executing d.workers)
  pending_scheduled : ∀ e ∈ d.callbacks, e.pending ≠ [] → e.scheduled = true
  executing_once : (executing d.workers).Nodup
  deliveries : ∀ newer event older, d.history = newer ++ event :: older → Lawful event older
  refused : ∀ message receivers, .enqueued message false receivers ∈ d.history →
    ∀ entry, .delivered entry message ∉ d.history
  enqueue_true : d.enqueue.1 = true → ∀ e ∈ d.callbacks, e.cancelled = false →
    ∃ e' ∈ d.enqueue.2.callbacks, e'.ref = e.ref ∧ e'.pending = e.pending ++ [d.messages]
  enqueue_false : d.enqueue.1 = false → d.enqueue.2.callbacks = d.callbacks

theorem Inv.sound (h : Inv d) (ht : Traced d) : Sound d where
  total := h.total
  bounded := h.bound
  ready_nodup := h.ready_nodup
  scheduled_iff := by
    intro e he hc
    have hcount : e.id ∈ d.ready ↔ d.ready.count e.id = 1 :=
      ⟨List.count_eq_one_of_mem h.ready_nodup, fun hc => List.count_pos_iff.mp (by omega)⟩
    rw [(h.entries e he).scheduled hc, hcount]
  pending_scheduled := fun e he => (h.entries e he).served
  executing_once := h.executing_nodup
  deliveries := explained_iff.mp ht.lawful
  refused := by
    intro message receivers he entry hd
    obtain ⟨_, htrue, -⟩ := delivered_enqueued ht.lawful hd
    exact absurd (enqueued_inj ht.lawful he htrue).1 Bool.false_ne_true
  enqueue_true := by
    intro haccepted e he hc
    rw [(enqueue_spec d).1 haccepted]
    refine ⟨push d.messages e, List.mem_map_of_mem he, ?_, ?_⟩
    · simp [push, hc, CallbackEntry.ref]
    · simp [push, hc]
  enqueue_false := (enqueue_spec d).2

theorem dispatcher_sound (workerCount maxPendingInvocations : ℕ) (steps : List Step)
    (d : Dispatcher)
    (hp : Transition.path step (create workerCount maxPendingInvocations) steps = some d) :
    Sound d := by
  have hboth : Inv d ∧ Traced d := by
    refine Transition.path_invariant_of_step (fun d => Inv d ∧ Traced d) ?_ ?_ hp
    · exact fun d i d' h ht => ⟨h.1.step i ht, h.2.step h.1 i ht⟩
    · exact ⟨Inv.create workerCount maxPendingInvocations, Traced.create workerCount _⟩
  exact hboth.1.sound hboth.2

-- The callback of `b` removes its own command while that of `a` is removed from outside.
def mixedRun : List Step :=
  [.registerCallback "a" true, .registerCallback "b" true, .enqueue, .take 0, .take 1, .enqueue,
    .publish (some 1) "b", .publish none "a", .section' 0, .section' 1, .unpublish 0, .unpublish 1,
    .return' 0, .finish 1 false, .drop 1, .release 1, .erase 1, .finish 0 false, .drop 0,
    .release 0, .await 1, .return' 1]

theorem dispatcher_sound_mixedRun : ∃ d, Transition.path step (create 2 4) mixedRun = some d ∧
    d.history = [.enqueued 1 true [⟨1, "a"⟩, ⟨2, "b"⟩], .delivered ⟨2, "b"⟩ 0,
      .delivered ⟨1, "a"⟩ 0, .enqueued 0 true [⟨1, "a"⟩, ⟨2, "b"⟩], .registered ⟨2, "b"⟩ 0,
      .registered ⟨1, "a"⟩ 0] ∧ d.callbacks = [] ∧ d.pendingInvocations = 0 ∧ Sound d := by
  obtain ⟨d, hp, hh, hc, hz⟩ := Transition.exists_path step (create 2 4) mixedRun
    (fun d => d.history = [.enqueued 1 true [⟨1, "a"⟩, ⟨2, "b"⟩], .delivered ⟨2, "b"⟩ 0,
      .delivered ⟨1, "a"⟩ 0, .enqueued 0 true [⟨1, "a"⟩, ⟨2, "b"⟩], .registered ⟨2, "b"⟩ 0,
      .registered ⟨1, "a"⟩ 0] ∧ d.callbacks = [] ∧ d.pendingInvocations = 0) (by decide)
  exact ⟨d, hp, hh, hc, hz, dispatcher_sound 2 4 mixedRun d hp⟩

end Dispatcher

end Glider.AnyMessage

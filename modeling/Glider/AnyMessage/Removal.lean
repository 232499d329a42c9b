import Mathlib.Logic.Relation
import Glider.AnyMessage.Deliveries
import Glider.AnyMessage.Calls

namespace Glider.AnyMessage

open Glider.Lib Relation

namespace Removal

-- The callbacks of the command that were registered before the call began.
def Targets (r : Removal) (entry : Ref) : Prop :=
  entry.ownerCommand = r.command ∧ entry.id < r.before

-- What a worker has in its hands while it makes the call.
def references (r : Removal) : List Ref :=
  if r.caller.isSome then r.stage.removed.map fun id => ⟨id, r.command⟩ else []

end Removal

namespace Dispatcher

-- The references the workers have, in their loop and in the calls they make.
def references (d : Dispatcher) : List Ref :=
  d.workers.filterMap holds ++ d.removals.flatMap Removal.references

-- A worker that executes `first` is in a call that has taken `second` out. It returns from `first`
-- after the leases of `second` have run out.
def Follows (d : Dispatcher) (first second : ℕ) : Prop :=
  ∃ r ∈ d.removals, ∃ w entry message, r.caller = some w ∧
    d.workers[w]? = some (.executing entry message) ∧ entry.id = first ∧ second ∈ r.stage.removed

-- The call will take out the entry, or another one whose lease outlasts it.
def Awaited (d : Dispatcher) (r : Removal) (id : ℕ) : Prop :=
  ∃ e ∈ d.callbacks, e.ownerCommand = r.command ∧ ReflTransGen d.Follows e.id id

-- When a call from outside goes through the registry, the old callbacks of its command that workers
-- still have in their hands are awaited.
def Accounted (d : Dispatcher) : Step → Prop
  | .section' k => ∀ r, d.removals[k]? = some r → r.Outside →
      ∀ entry ∈ d.references, r.Targets entry → d.Awaited r entry.id
  | _ => True

-- What a call has achieved.
structure Gone (d : Dispatcher) (r : Removal) : Prop where
  registry : ∀ e ∈ d.callbacks, ¬r.Targets e.ref
  workers : ∀ entry ∈ d.references, ¬r.Targets entry
  messages : ∀ entry message receivers old, .delivered entry message ∈ d.history →
    entry.ownerCommand = r.command → r.before ≤ entry.id →
    .enqueued message true receivers ∈ d.history → old ∈ receivers → ¬r.Targets old

variable {d d' : Dispatcher}

theorem mem_references {entry : Ref} : entry ∈ d.references ↔
    entry ∈ d.workers.filterMap holds ∨ ∃ r ∈ d.removals, r.caller.isSome = true ∧
      entry.ownerCommand = r.command ∧ entry.id ∈ r.stage.removed := by
  simp only [references, List.mem_append, List.mem_flatMap]
  refine or_congr Iff.rfl (exists_congr fun r => and_congr Iff.rfl ?_)
  unfold Removal.references
  split
  next hc =>
    simp only [List.mem_map, hc, true_and]
    constructor
    · rintro ⟨id, hid, rfl⟩
      exact ⟨rfl, hid⟩
    · rintro ⟨ho, hid⟩
      exact ⟨entry.id, hid, by rw [← ho]⟩
  next hc => simp [hc]

-- Every old callback that a worker has in its hands is waited for by the call, itself or through
-- others.
def Covered (d : Dispatcher) : Prop :=
  ∀ r ∈ d.removals, r.Outside → r.stage ≠ .published → ∀ entry ∈ d.references, r.Targets entry →
    ∃ id ∈ r.stage.removed, ReflTransGen d.Follows id entry.id

theorem Calls.not_targets (h : Calls d) {r : Removal} (hr : r ∈ d.removals) (ho : r.Outside)
    (hs : r.stage ≠ .published) {e : CallbackEntry} (he : e ∈ d.callbacks) :
    ¬r.Targets e.ref := by
  rintro ⟨hown, hlt⟩
  exact absurd ((h.calls r hr).cleared ho hs e he hown) (Nat.not_le_of_lt hlt)

theorem Follows.mono (hworkers : d'.workers = d.workers)
    (hremovals : ∀ r ∈ d.removals, ∀ id ∈ r.stage.removed,
      ∃ r' ∈ d'.removals, r'.caller = r.caller ∧ id ∈ r'.stage.removed) {first second : ℕ}
    (h : d.Follows first second) : d'.Follows first second := by
  obtain ⟨r, hr, w, entry, message, hc, hw, hid, hm⟩ := h
  obtain ⟨r', hr', hcaller, hm'⟩ := hremovals r hr second hm
  exact ⟨r', hr', w, entry, message, hcaller.trans hc, hworkers ▸ hw, hid, hm'⟩

theorem stage_ne_returned {r : Removal} {id : ℕ} (hid : id ∈ r.stage.removed) :
    r.stage ≠ .returned := by
  intro hs
  rw [hs] at hid
  exact absurd hid List.not_mem_nil

-- What is new in the hands of a worker comes out of the registry, and no call loses its caller.
theorem Covered.worker (h : Covered d) (hcalls : Calls d) {w : ℕ} {old new : Worker}
    (hs : WorkerStep d d' w old new) : Covered d' := by
  have hfollows : ∀ first second, d.Follows first second → d'.Follows first second := by
    rintro first second ⟨r, hr, v, entry, message, hc, hv, hid, hm⟩
    refine ⟨r, hs.removals ▸ hr, v, entry, message, hc, ?_, hid, hm⟩
    rw [hs.caller hr (stage_ne_returned hm) hc, hv]
  intro r hr ho hstage entry hentry ht
  rw [hs.removals] at hr
  have hold : entry ∈ d.references := by
    rcases mem_references.mp hentry with hheld | hcall
    · rcases hs.mem_held hheld with hheld | ⟨e, he, rfl⟩
      · exact mem_references.mpr (.inl hheld)
      · exact absurd ht (hcalls.not_targets hr ho hstage he)
    · rw [hs.removals] at hcall
      exact mem_references.mpr (.inr hcall)
  obtain ⟨id, hid, hpath⟩ := h r hr ho hstage entry hold ht
  exact ⟨id, hid, ReflTransGen.mono hfollows _ _ hpath⟩

-- A step after which every call still has its thread, its command and what it took out.
theorem Covered.of_calls (h : Covered d) (hworkers : d'.workers = d.workers)
    (hkept : ∀ r ∈ d.removals, ∀ id ∈ r.stage.removed,
      ∃ r' ∈ d'.removals, r'.caller = r.caller ∧ id ∈ r'.stage.removed)
    (hback : ∀ r' ∈ d'.removals, r'.stage ≠ .published → ∃ r ∈ d.removals,
      r.stage ≠ .published ∧ r'.caller = r.caller ∧ r'.current = r.current ∧
      r'.command = r.command ∧ r'.before = r.before ∧ r'.stage.removed = r.stage.removed) :
    Covered d' := by
  intro r' hr' ho hstage entry hentry ht
  obtain ⟨r, hr, hs, -, hcur, hcmd, hbefore, hremoved⟩ := hback r' hr' hstage
  have ho' : r.Outside := by
    unfold Removal.Outside at ho ⊢
    rwa [← hcur, ← hcmd]
  have ht' : r.Targets entry := by
    unfold Removal.Targets at ht ⊢
    rwa [← hcmd, ← hbefore]
  have hold : entry ∈ d.references := by
    rw [mem_references] at hentry ⊢
    rw [← hworkers]
    refine hentry.imp_right ?_
    rintro ⟨q', hq', hc, hown, hm⟩
    have hq : q'.stage ≠ .published := by
      intro hpub
      rw [hpub] at hm
      exact absurd hm List.not_mem_nil
    obtain ⟨q, hq, -, hcaller, -, hcmd', -, hrem⟩ := hback q' hq' hq
    exact ⟨q, hq, hcaller ▸ hc, hcmd' ▸ hown, hrem ▸ hm⟩
  obtain ⟨id, hid, hpath⟩ := h r hr ho' hs entry hold ht'
  exact ⟨id, hremoved ▸ hid, ReflTransGen.mono (fun _ _ => Follows.mono hworkers hkept) _ _ hpath⟩

theorem Covered.of_same (h : Covered d) (hworkers : d'.workers = d.workers)
    (hremovals : d'.removals = d.removals) : Covered d' := by
  refine h.of_calls hworkers ?_ ?_
  · exact fun r hr id hid => ⟨r, hremovals ▸ hr, rfl, hid⟩
  · exact fun r hr hs => ⟨r, hremovals ▸ hr, hs, rfl, rfl, rfl, rfl, rfl⟩

-- A call goes on and has the same entries in its hands.
theorem Covered.setCall (h : Covered d) {k : ℕ} {old new : Removal}
    (hk : d.removals[k]? = some old) (hworkers : d'.workers = d.workers)
    (hremovals : d'.removals = d.removals.set k new) (hs : old.stage ≠ .published)
    (hsame : new.caller = old.caller ∧ new.current = old.current ∧ new.command = old.command ∧
      new.before = old.before ∧ new.stage.removed = old.stage.removed) : Covered d' := by
  refine h.of_calls hworkers ?_ ?_
  · intro r hr id hid
    rw [hremovals]
    rcases Slots.mem_set_of_mem hk hr with rfl | hr
    · exact ⟨new, Slots.new_mem_set hk, hsame.1, hsame.2.2.2.2 ▸ hid⟩
    · exact ⟨r, hr, rfl, hid⟩
  · intro r hr hstage
    rw [hremovals] at hr
    rcases List.mem_or_eq_of_mem_set hr with hr | rfl
    · exact ⟨r, hr, hstage, rfl, rfl, rfl, rfl, rfl⟩
    · exact ⟨old, List.mem_of_getElem? hk, hs, hsame⟩

theorem Covered.publish (h : Covered d) {caller : Option ℕ} {command : String}
    (ht : d.publish caller command = some d') : Covered d' := by
  obtain ⟨current, rfl, -⟩ := publish_cases ht
  refine h.of_calls rfl ?_ ?_
  · exact fun r hr id hid => ⟨r, List.mem_append_left _ hr, rfl, hid⟩
  · intro r hr hs
    rcases List.mem_append.mp hr with hr | hr
    · exact ⟨r, hr, hs, rfl, rfl, rfl, rfl, rfl⟩
    · rw [List.mem_singleton.mp hr] at hs
      exact absurd rfl hs

-- The call that goes through the registry is covered by the guard. To the others nothing changes:
-- what is taken out now is none of their old callbacks, since these have left the registry.
theorem Covered.section' (h : Covered d) (hcalls : Calls d) {k : ℕ}
    (hg : Accounted d (.section' k)) (ht : d.section' k = some d') : Covered d' := by
  obtain ⟨r, removed, hs⟩ := section_step ht
  have hr := List.mem_of_getElem? hs.was
  have hmono : ∀ first second, d.Follows first second → d'.Follows first second := by
    intro first second hf
    refine hf.mono hs.workers ?_
    intro q hq id hid
    rw [hs.removals]
    rcases Slots.mem_set_of_mem hs.was hq with rfl | hq
    · rw [hs.published] at hid
      exact absurd hid List.not_mem_nil
    · exact ⟨q, hq, rfl, hid⟩
  have hrefs : ∀ entry ∈ d'.references, entry ∈ d.references ∨
      entry.ownerCommand = r.command ∧ entry.id ∈ removed := by
    intro entry hentry
    rw [mem_references, hs.workers, hs.removals] at hentry
    rcases hentry with hheld | ⟨q, hq, hc, hown, hm⟩
    · exact .inl (mem_references.mpr (.inl hheld))
    · rcases List.mem_or_eq_of_mem_set hq with hq | rfl
      · exact .inl (mem_references.mpr (.inr ⟨q, hq, hc, hown, hm⟩))
      · exact .inr ⟨hown, hm⟩
  intro q hq ho hstage entry hentry htarget
  rw [hs.removals] at hq
  rcases List.mem_or_eq_of_mem_set hq with hq | rfl
  · rcases hrefs entry hentry with hold | ⟨hown, hm⟩
    · obtain ⟨id, hid, hpath⟩ := h q hq ho hstage entry hold htarget
      exact ⟨id, hid, ReflTransGen.mono hmono _ _ hpath⟩
    · obtain ⟨e, he, hid, howner, -⟩ := (hs.mem_removed entry.id).mp hm
      have hnot := hcalls.not_targets hq ho hstage he
      exact absurd ⟨howner.trans (hown.symm.trans htarget.1), lt_of_eq_of_lt hid htarget.2⟩ hnot
  · rcases hrefs entry hentry with hold | ⟨-, hm⟩
    · obtain ⟨e, he, hown, hpath⟩ := hg r hs.was ho entry hold htarget
      refine ⟨e.id, ?_, ReflTransGen.mono hmono _ _ hpath⟩
      exact (hs.mem_removed e.id).mpr
        ⟨e, he, rfl, hown, hcalls.current_ne hr hs.published ho he hown⟩
    · exact ⟨entry.id, hm, .refl⟩

-- A worker that holds an entry has a lease of it.
theorem Calls.held_leased (h : Calls d) {entry : Ref} (he : entry ∈ d.workers.filterMap holds) :
    0 < d.leases entry.id := by
  obtain ⟨worker, hw, hh⟩ := List.mem_filterMap.mp he
  obtain ⟨w, hw⟩ := List.mem_iff_getElem?.mp hw
  apply h.leases_pos hw
  cases worker with
  | idle => exact absurd hh nofun
  | executing entry' message | releasing entry' retire => exact congrArg (Option.map Ref.id) hh
  | dropped entry' retire | erasing entry' => exact absurd hh nofun

-- What a call took out has no leases when it returns.
theorem Calls.unleased (h : Calls d) {r : Removal} (hr : r ∈ d.removals) {removed : List ℕ}
    (hs : r.stage = .waiting removed []) {id : ℕ} (hid : id ∈ r.stage.removed) :
    d.leases id = 0 := by
  rcases (h.calls r hr).drained id hid with hl | hz
  · rw [hs] at hl
    exact absurd hl List.not_mem_nil
  · exact hz

theorem Covered.return' (h : Covered d) (hcalls : Calls d) {k : ℕ} (ht : d.return' k = some d') :
    Covered d' := by
  obtain ⟨caller, current, command, before, removed, hk, rfl⟩ := return_cases ht
  have hr := List.mem_of_getElem? hk
  have hzero : ∀ id ∈ removed, d.leases id = 0 := fun id hid => hcalls.unleased hr rfl hid
  have hexec : ∀ first second, d.Follows first second → first ∉ removed := by
    rintro first second ⟨q, -, w, entry, message, -, hw, rfl, -⟩ hid
    have hpos := hcalls.leases_pos hw (show leased (.executing entry message) = some entry.id from rfl)
    rw [hzero entry.id hid] at hpos
    exact Nat.lt_irrefl _ hpos
  -- A chain that does not end in what the call took out does not pass through the call.
  have hchain : ∀ first last, ReflTransGen d.Follows first last → last ∉ removed →
      ReflTransGen (Follows { d with
        removals := d.removals.set k ⟨caller, current, command, before, .returned⟩ }) first last := by
    intro first last hpath
    induction hpath with
    | refl => exact fun _ => .refl
    | @tail middle last hpath hlast ih =>
      intro hnot
      refine (ih (hexec _ _ hlast)).tail ?_
      obtain ⟨q, hq, w, entry, message, hc, hw, hid, hm⟩ := hlast
      rcases Slots.mem_set_of_mem hk hq with rfl | hq
      · exact absurd hm hnot
      · exact ⟨q, hq, w, entry, message, hc, hw, hid, hm⟩
  intro q hq ho hstage entry hentry htarget
  have hfree : entry ∈ d.references ∧ entry.id ∉ removed := by
    rcases mem_references.mp hentry with hheld | ⟨p, hp, hc, hown, hm⟩
    · refine ⟨mem_references.mpr (.inl hheld), fun hid => ?_⟩
      have hpos := hcalls.held_leased hheld
      rw [hzero _ hid] at hpos
      exact Nat.lt_irrefl _ hpos
    · obtain ⟨j, hj⟩ := List.mem_iff_getElem?.mp hp
      rcases Slots.getElem?_set_cases hj with ⟨-, rfl⟩ | ⟨hjk, hj⟩
      · exact absurd hm List.not_mem_nil
      · refine ⟨mem_references.mpr (.inr ⟨p, List.mem_of_getElem? hj, hc, hown, hm⟩), fun hid => ?_⟩
        exact hjk (hcalls.apart j k p _ hj hk entry.id hm hid)
  rcases List.mem_or_eq_of_mem_set hq with hq | rfl
  · obtain ⟨id, hid, hpath⟩ := h q hq ho hstage entry hfree.1 htarget
    exact ⟨id, hid, hchain _ _ hpath hfree.2⟩
  · obtain ⟨id, hid, hpath⟩ := h _ hr ho nofun entry hfree.1 htarget
    cases hpath.cases_head with
    | inl heq => exact absurd (heq ▸ hid) hfree.2
    | inr hnext =>
      obtain ⟨second, hfollows, -⟩ := hnext
      exact absurd hid (hexec _ _ hfollows)

theorem Covered.step (h : Covered d) (hinv : Inv d) (hcalls : Calls d) (i : Step)
    (hg : Accounted d i) (ht : Dispatcher.step d i = some d') : Covered d' := by
  cases i with
  | registerCallback ownerCommand hasCallback =>
    obtain rfl := Option.some_inj.mp ht
    unfold Dispatcher.registerCallback
    split
    · exact h
    · exact h.of_same rfl rfl
  | enqueue =>
    obtain rfl := Option.some_inj.mp ht
    unfold Dispatcher.enqueue
    split
    · exact h.of_same rfl rfl
    · split
      · exact h.of_same rfl rfl
      · exact h.of_same rfl rfl
  | take w =>
    obtain ⟨_, _, _, hs, -⟩ := hcalls.take_step hinv ht
    exact h.worker hcalls hs
  | finish w deregister =>
    obtain ⟨_, _, _, hs, -⟩ := finish_step ht
    exact h.worker hcalls hs
  | drop w =>
    obtain ⟨_, _, hs, -⟩ := hcalls.drop_step ht
    exact h.worker hcalls hs
  | release w =>
    obtain ⟨_, _, _, hs, -⟩ := hcalls.release_step ht
    exact h.worker hcalls hs
  | erase w =>
    obtain ⟨_, hs, -⟩ := hcalls.erase_step ht
    exact h.worker hcalls hs
  | publish caller command => exact h.publish ht
  | section' k => exact h.section' hcalls hg ht
  | unpublish k =>
    obtain ⟨_, _, _, _, _, hk, rfl⟩ := unpublish_cases ht
    exact h.setCall hk rfl rfl nofun ⟨rfl, rfl, rfl, rfl, rfl⟩
  | await k =>
    obtain ⟨_, _, _, _, _, _, _, hk, -, rfl⟩ := await_cases ht
    exact h.setCall hk rfl rfl nofun ⟨rfl, rfl, rfl, rfl, rfl⟩
  | return' k => exact h.return' hcalls ht

-- The entry gets the message, or has got it.
def Meets (d : Dispatcher) (entry : Ref) (message : ℕ) : Prop :=
  .delivered entry message ∈ d.history ∨ ∃ e ∈ d.callbacks, e.ref = entry ∧ message ∈ e.pending

-- Nothing is delivered between the publication of a call and its section, and after the section the
-- callbacks of the command that are registered later share no message with the old ones.
structure Unmixed (d : Dispatcher) : Prop where
  quiet : ∀ r ∈ d.removals, r.stage.counted = true →
    ∀ entry message, .delivered entry message ∈ d.history → entry.id < r.before
  fresh : ∀ r ∈ d.removals, r.Outside → r.stage ≠ .published →
    ∀ entry message, d.Meets entry message → entry.ownerCommand = r.command → r.before ≤ entry.id →
    ∀ receivers old, .enqueued message true receivers ∈ d.history → old ∈ receivers → ¬r.Targets old

theorem Meets.mono (hhistory : d'.history = d.history)
    (hcallbacks : ∀ e' ∈ d'.callbacks, ∃ e ∈ d.callbacks, e'.ref = e.ref ∧
      e'.pending.Sublist e.pending) {entry : Ref} {message : ℕ} (h : d'.Meets entry message) :
    d.Meets entry message := by
  rcases h with hd | ⟨e', he', href, hm⟩
  · exact .inl (hhistory ▸ hd)
  · obtain ⟨e, he, hsame, hsub⟩ := hcallbacks e' he'
    exact .inr ⟨e, he, hsame.symm.trans href, hsub.subset hm⟩

-- A step that neither sends nor delivers, and takes no call past its section.
theorem Unmixed.mono (h : Unmixed d) (hhistory : d'.history = d.history)
    (hcallbacks : ∀ e' ∈ d'.callbacks, ∃ e ∈ d.callbacks, e'.ref = e.ref ∧
      e'.pending.Sublist e.pending)
    (hback : ∀ r' ∈ d'.removals, ∃ r ∈ d.removals, r'.current = r.current ∧
      r'.command = r.command ∧ r'.before = r.before ∧
      (r'.stage.counted = true → r.stage.counted = true) ∧
      (r'.stage ≠ .published → r.stage ≠ .published)) : Unmixed d' := by
  refine ⟨?_, ?_⟩
  · intro r' hr' hc
    obtain ⟨r, hr, -, -, hbefore, hcounted, -⟩ := hback r' hr'
    rw [hbefore, hhistory]
    exact h.quiet r hr (hcounted hc)
  · intro r' hr' ho hs entry message hm
    obtain ⟨r, hr, hcur, hcmd, hbefore, -, hpast⟩ := hback r' hr'
    have ho' : r.Outside := by
      unfold Removal.Outside at ho ⊢
      rwa [← hcur, ← hcmd]
    unfold Removal.Targets
    rw [hcmd, hbefore, hhistory]
    exact h.fresh r hr ho' (hpast hs) entry message (hm.mono hhistory hcallbacks)

theorem Unmixed.of_removals (h : Unmixed d) (hhistory : d'.history = d.history)
    (hcallbacks : ∀ e' ∈ d'.callbacks, ∃ e ∈ d.callbacks, e'.ref = e.ref ∧
      e'.pending.Sublist e.pending) (hremovals : d'.removals = d.removals) : Unmixed d' :=
  h.mono hhistory hcallbacks fun r hr => ⟨r, hremovals ▸ hr, rfl, rfl, rfl, id, id⟩

theorem Unmixed.setCall (h : Unmixed d) {k : ℕ} {old new : Removal}
    (hk : d.removals[k]? = some old) (hhistory : d'.history = d.history)
    (hcallbacks : d'.callbacks = d.callbacks) (hremovals : d'.removals = d.removals.set k new)
    (hsame : new.current = old.current ∧ new.command = old.command ∧ new.before = old.before)
    (hcounted : new.stage.counted = true → old.stage.counted = true)
    (hpast : old.stage ≠ .published) : Unmixed d' := by
  refine h.mono hhistory (fun e he => ⟨e, hcallbacks ▸ he, rfl, List.Sublist.refl _⟩) ?_
  intro r hr
  rw [hremovals] at hr
  rcases List.mem_or_eq_of_mem_set hr with hr | rfl
  · exact ⟨r, hr, rfl, rfl, rfl, id, id⟩
  · exact ⟨old, List.mem_of_getElem? hk, hsame.1, hsame.2.1, hsame.2.2, hcounted, fun _ => hpast⟩

theorem Unmixed.registerCallback (h : Unmixed d) (ownerCommand : String) (hasCallback : Bool) :
    Unmixed (d.registerCallback ownerCommand hasCallback).2 := by
  unfold Dispatcher.registerCallback
  split
  · exact h
  · have hdelivered : ∀ entry message, Event.delivered entry message ∈
        Event.registered ⟨d.nextId, ownerCommand⟩ d.messages :: d.history →
        .delivered entry message ∈ d.history := by
      intro entry message hd
      exact (List.mem_cons.mp hd).resolve_left nofun
    refine ⟨fun r hr hc entry message hd => h.quiet r hr hc entry message (hdelivered _ _ hd), ?_⟩
    intro r hr ho hs entry message hm hown hle receivers old he hold
    have hm' : d.Meets entry message := by
      rcases hm with hd | ⟨e, he, href, hin⟩
      · exact .inl (hdelivered _ _ hd)
      · rcases List.mem_append.mp he with he | he
        · exact .inr ⟨e, he, href, hin⟩
        · rw [List.mem_singleton.mp he] at hin
          exact absurd hin List.not_mem_nil
    have he' := (List.mem_cons.mp he).resolve_left nofun
    exact h.fresh r hr ho hs entry message hm' hown hle receivers old he' hold

-- A message is sent to registered callbacks, and of the command these are new.
theorem Unmixed.enqueued (h : Unmixed d) (ht : Traced d) (hcalls : Calls d) {result : Bool}
    {receivers : List Ref} (hreceivers : ∀ entry ∈ receivers, ∃ e ∈ d.callbacks, e.ref = entry)
    (hremovals : d'.removals = d.removals)
    (hhistory : d'.history = .enqueued d.messages result receivers :: d.history)
    (hcallbacks : ∀ e' ∈ d'.callbacks, ∃ e ∈ d.callbacks, e'.ref = e.ref ∧
      ∀ message ∈ e'.pending, message ∈ e.pending ∨ message = d.messages) : Unmixed d' := by
  have hdelivered : ∀ entry message, .delivered entry message ∈ d'.history →
      .delivered entry message ∈ d.history := by
    intro entry message hd
    rw [hhistory] at hd
    exact (List.mem_cons.mp hd).resolve_left nofun
  refine ⟨?_, ?_⟩
  · rw [hremovals]
    exact fun r hr hc entry message hd => h.quiet r hr hc entry message (hdelivered _ _ hd)
  · rw [hremovals, hhistory]
    intro r hr ho hs entry message hm hown hle receivers' old he hold
    rcases List.mem_cons.mp he with heq | he
    · obtain ⟨-, -, rfl⟩ := Event.enqueued.inj heq
      obtain ⟨e, hin, rfl⟩ := hreceivers old hold
      exact hcalls.not_targets hr ho hs hin
    · have hlt : message < d.messages := by
        rw [ht.messages]
        exact enqueued_lt ht.lawful he
      have hm' : d.Meets entry message := by
        rcases hm with hd | ⟨e', he', href, hin⟩
        · exact .inl (hdelivered _ _ hd)
        · obtain ⟨e, hmem, hsame, hpending⟩ := hcallbacks e' he'
          refine .inr ⟨e, hmem, hsame.symm.trans href, (hpending message hin).resolve_right ?_⟩
          exact Nat.ne_of_lt hlt
      exact h.fresh r hr ho hs entry message hm' hown hle receivers' old he hold

theorem Unmixed.enqueue (h : Unmixed d) (ht : Traced d) (hcalls : Calls d) :
    Unmixed d.enqueue.2 := by
  unfold Dispatcher.enqueue
  split
  · exact h.enqueued ht hcalls (fun _ he => absurd he List.not_mem_nil) rfl rfl
      fun e he => ⟨e, he, rfl, fun _ hm => .inl hm⟩
  · split
    · exact h.enqueued ht hcalls (fun _ he => absurd he List.not_mem_nil) rfl rfl
        fun e he => ⟨e, he, rfl, fun _ hm => .inl hm⟩
    · refine h.enqueued ht hcalls ?_ rfl rfl ?_
      · intro entry he
        obtain ⟨e, hin, rfl⟩ := List.mem_map.mp he
        exact ⟨e, (mem_eligible.mp hin).1, rfl⟩
      · intro e' he'
        obtain ⟨e, he, rfl⟩ := List.mem_map.mp he'
        refine ⟨e, he, push_ref _ e, ?_⟩
        intro message hm
        unfold push at hm
        split at hm
        · exact .inl hm
        · exact (List.mem_append.mp hm).imp_right List.mem_singleton.mp

theorem Unmixed.take (h : Unmixed d) (hinv : Inv d) (hcalls : Calls d) {w : ℕ}
    (ht : d.take w = some d') : Unmixed d' := by
  obtain ⟨e, he, message, hs, hpend, hgate, -, hhistory⟩ := hcalls.take_step hinv ht
  refine ⟨?_, ?_⟩
  · -- The gate is closed while a counted call is there.
    rw [hs.removals]
    intro r hr hc
    have hnone := List.countP_eq_zero.mp (hcalls.requests.symm.trans hgate) r hr
    exact absurd hc hnone
  · rw [hs.removals, hhistory]
    intro r hr ho hstage entry m hm hown hle receivers old hq hold
    have hm' : d.Meets entry m := by
      rcases hm with hd | ⟨e', he', href, hin⟩
      · rw [hhistory] at hd
        rcases List.mem_cons.mp hd with heq | hd
        · obtain ⟨rfl, rfl⟩ := Event.delivered.inj heq
          exact .inr ⟨e, he, rfl, hpend⟩
        · exact .inl hd
      · obtain ⟨e'', he'', hsame, hsub⟩ := hs.callbacks e' he'
        exact .inr ⟨e'', he'', hsame.symm.trans href, hsub.subset hin⟩
    have hq' := (List.mem_cons.mp hq).resolve_left nofun
    exact h.fresh r hr ho hstage entry m hm' hown hle receivers old hq' hold

theorem Unmixed.publish (h : Unmixed d) (htraced : Traced d) {caller : Option ℕ} {command : String}
    (ht : d.publish caller command = some d') : Unmixed d' := by
  obtain ⟨current, rfl, -⟩ := publish_cases ht
  refine ⟨?_, ?_⟩
  · intro r hr hc entry message hd
    rcases List.mem_append.mp hr with hr | hr
    · exact h.quiet r hr hc entry message hd
    · rw [List.mem_singleton.mp hr]
      obtain ⟨newer, older, heq⟩ := List.append_of_mem hd
      obtain ⟨⟨since, hreg, -⟩, -⟩ := explained_iff.mp htraced.lawful newer _ older heq
      refine htraced.registered_lt entry since ?_
      rw [heq]
      exact List.mem_append_right _ (List.mem_cons_of_mem _ hreg)
  · intro r hr ho hs
    rcases List.mem_append.mp hr with hr | hr
    · exact h.fresh r hr ho hs
    · rw [List.mem_singleton.mp hr] at hs
      exact absurd rfl hs

theorem Unmixed.section' (h : Unmixed d) (hcalls : Calls d) {k : ℕ} (ht : d.section' k = some d') :
    Unmixed d' := by
  obtain ⟨r, removed, hs⟩ := section_step ht
  have hr := List.mem_of_getElem? hs.was
  refine ⟨?_, ?_⟩
  · rw [hs.removals, hs.history]
    intro q hq hc
    rcases List.mem_or_eq_of_mem_set hq with hq | rfl
    · exact h.quiet q hq hc
    · exact h.quiet r hr (by rw [hs.published]; rfl)
  · rw [hs.removals, hs.history]
    intro q hq ho hstage entry message hm hown hle
    rcases List.mem_or_eq_of_mem_set hq with hq | rfl
    · refine h.fresh q hq ho hstage entry message (hm.mono hs.history ?_) hown hle
      intro e' he'
      obtain ⟨e, he, href, hsub, -⟩ := hs.callbacks e' he'
      exact ⟨e, he, href, hsub⟩
    · rcases hm with hd | ⟨e', he', rfl, -⟩
      · rw [hs.history] at hd
        have hlt := h.quiet r hr (by rw [hs.published]; rfl) entry message hd
        exact absurd hle (Nat.not_le_of_lt hlt)
      · obtain ⟨e, he, href, -, hstays⟩ := hs.callbacks e' he'
        have hown' : e.ownerCommand = r.command := (congrArg Ref.ownerCommand href).symm.trans hown
        rcases hstays with hne | hc
        · exact absurd hown' hne
        · exact absurd hc (hcalls.current_ne hr hs.published ho he hown')

theorem Unmixed.step (h : Unmixed d) (hinv : Inv d) (htraced : Traced d) (hcalls : Calls d)
    (i : Step) (ht : Dispatcher.step d i = some d') : Unmixed d' := by
  cases i with
  | registerCallback ownerCommand hasCallback =>
    obtain rfl := Option.some_inj.mp ht
    exact h.registerCallback ownerCommand hasCallback
  | enqueue =>
    obtain rfl := Option.some_inj.mp ht
    exact h.enqueue htraced hcalls
  | take w => exact h.take hinv hcalls ht
  | finish w deregister =>
    obtain ⟨_, _, _, hs, -, hhistory⟩ := finish_step ht
    exact h.of_removals hhistory hs.callbacks hs.removals
  | drop w =>
    obtain ⟨_, _, hs, -, hhistory⟩ := hcalls.drop_step ht
    exact h.of_removals hhistory hs.callbacks hs.removals
  | release w =>
    obtain ⟨_, _, _, hs, -, -, hhistory, -⟩ := hcalls.release_step ht
    exact h.of_removals hhistory hs.callbacks hs.removals
  | erase w =>
    obtain ⟨_, hs, -, hhistory⟩ := hcalls.erase_step ht
    exact h.of_removals hhistory hs.callbacks hs.removals
  | publish caller command => exact h.publish htraced ht
  | section' k => exact h.section' hcalls ht
  | unpublish k =>
    obtain ⟨_, _, _, _, _, hk, rfl⟩ := unpublish_cases ht
    exact h.setCall hk rfl rfl rfl ⟨rfl, rfl, rfl⟩ nofun nofun
  | await k =>
    obtain ⟨_, _, _, _, _, _, _, hk, -, rfl⟩ := await_cases ht
    exact h.setCall hk rfl rfl rfl ⟨rfl, rfl, rfl⟩ nofun nofun
  | return' k =>
    obtain ⟨_, _, _, _, _, hk, rfl⟩ := return_cases ht
    exact h.setCall hk rfl rfl rfl ⟨rfl, rfl, rfl⟩ nofun nofun

structure Barrier (d : Dispatcher) : Prop where
  inv : Inv d
  traced : Traced d
  calls : Calls d
  unmixed : Unmixed d
  covered : Covered d

theorem Barrier.create (workerCount maxPendingInvocations : ℕ) :
    Barrier (create workerCount maxPendingInvocations) :=
  ⟨Inv.create _ _, Traced.create _ _, Calls.create _ _,
    ⟨fun _ hr => absurd hr List.not_mem_nil, fun _ hr => absurd hr List.not_mem_nil⟩,
    fun _ hr => absurd hr List.not_mem_nil⟩

theorem Barrier.step (h : Barrier d) (i : Step) (hg : Accounted d i)
    (ht : Dispatcher.step d i = some d') : Barrier d' :=
  ⟨h.inv.step i ht, h.traced.step h.inv i ht, h.calls.step h.inv i ht,
    h.unmixed.step h.inv h.traced h.calls i ht, h.covered.step h.inv h.calls i hg ht⟩

theorem Barrier.gone (h : Barrier d) {r : Removal} (hr : r ∈ d.removals) (ho : r.Outside)
    (hs : r.stage = .returned) : Gone d r := by
  have hpast : r.stage ≠ .published := by
    rw [hs]
    exact nofun
  refine ⟨fun e he => h.calls.not_targets hr ho hpast he, ?_, ?_⟩
  · intro entry hentry htarget
    obtain ⟨id, hid, -⟩ := h.covered r hr ho hpast entry hentry htarget
    rw [hs] at hid
    exact absurd hid List.not_mem_nil
  · intro entry message receivers old hd hown hle he hold
    exact h.unmixed.fresh r hr ho hpast entry message (.inl hd) hown hle receivers old he hold

-- In the runs in which every call from outside accounts for the old callbacks in the workers' hands,
-- a call that has returned leaves none of them.
theorem gone_when_returned (workerCount maxPendingInvocations : ℕ) (steps : List Step)
    (d : Dispatcher)
    (hp : Transition.path step (create workerCount maxPendingInvocations) steps = some d)
    (hg : Transition.Guarded step Accounted (create workerCount maxPendingInvocations) steps) :
    ∀ r ∈ d.removals, r.Outside → r.stage = .returned → Gone d r := by
  have hb : Barrier d := Transition.path_invariant Barrier
    (fun _ i _ h hi ht => h.step i hi ht) (Barrier.create _ _) hg hp
  exact fun r hr ho hs => hb.gone hr ho hs

-- A guard that can be evaluated: whatever a worker has in its hands is still registered.
def AllRegistered (d : Dispatcher) : Step → Prop
  | .section' _ => ∀ entry ∈ d.references, ∃ e ∈ d.callbacks, e.ref = entry
  | _ => True

instance AllRegistered.decidable (d : Dispatcher) : (i : Step) → Decidable (AllRegistered d i)
  | .section' _ =>
    inferInstanceAs (Decidable (∀ entry ∈ d.references, ∃ e ∈ d.callbacks, e.ref = entry))
  | .registerCallback _ _ | .enqueue | .take _ | .finish _ _ | .drop _ | .release _ | .erase _
  | .publish _ _ | .unpublish _ | .await _ | .return' _ => isTrue trivial

theorem AllRegistered.accounted {i : Step} (h : AllRegistered d i) : Accounted d i := by
  cases i with
  | section' k =>
    intro r _ _ entry hentry htarget
    obtain ⟨e, he, rfl⟩ := h entry hentry
    exact ⟨e, he, htarget.1, .refl⟩
  | _ => trivial

-- The callback of `a` runs when `a` is removed, and another one is registered meanwhile.
def replacedRun : List Step :=
  [.registerCallback "a" true, .enqueue, .take 0, .enqueue, .publish none "a",
    .registerCallback "a" true, .enqueue, .section' 0, .registerCallback "a" true, .unpublish 0,
    .enqueue, .take 1, .finish 0 false, .drop 0, .release 0, .await 0, .finish 1 false, .drop 1,
    .await 0, .return' 0]

theorem gone_when_returned_replacedRun : ∃ d,
    Transition.path step (create 2 8) replacedRun = some d ∧
    d.removals = [⟨none, none, "a", 2, .returned⟩] ∧
    d.callbacks.map CallbackEntry.ref = [⟨3, "a"⟩] ∧ Gone d ⟨none, none, "a", 2, .returned⟩ := by
  obtain ⟨d, hp, hr, hc⟩ := Transition.exists_path step (create 2 8) replacedRun
    (fun d => d.removals = [⟨none, none, "a", 2, .returned⟩] ∧
      d.callbacks.map CallbackEntry.ref = [⟨3, "a"⟩]) (by decide)
  have hg : Transition.Guarded step AllRegistered (create 2 8) replacedRun := by decide
  refine ⟨d, hp, hr, hc, gone_when_returned 2 8 replacedRun d hp
    (hg.mono fun _ _ h => h.accounted) _ ?_ nofun rfl⟩
  rw [hr]
  exact List.mem_cons_self

-- A worker is about to give up its reference when another one has taken the next message, has
-- deregistered the callback and has erased it. The removal finds nothing to wait for.
theorem reference_left_behind : ¬∀ (workerCount maxPendingInvocations : ℕ) (steps : List Step)
    (d : Dispatcher),
    Transition.path step (create workerCount maxPendingInvocations) steps = some d →
    ∀ r ∈ d.removals, r.Outside → r.stage = .returned → Gone d r := by
  intro h
  obtain ⟨d, hp, hr, he⟩ := Transition.exists_path step (create 2 8)
    [.registerCallback "a" true, .enqueue, .enqueue, .take 0, .finish 0 false, .take 1,
      .finish 1 true, .drop 1, .release 1, .erase 1, .publish none "a", .section' 0, .unpublish 0,
      .return' 0]
    (fun d => ⟨none, none, "a", 2, .returned⟩ ∈ d.removals ∧ ⟨1, "a"⟩ ∈ d.references) (by decide)
  have hgone := h 2 8 _ d hp _ hr nofun rfl
  exact hgone.workers _ he ⟨rfl, by decide⟩

end Dispatcher

end Glider.AnyMessage

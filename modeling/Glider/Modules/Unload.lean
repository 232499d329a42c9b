import Glider.Modules.Leases

namespace Glider.Modules

open Glider.Lib

namespace Control

-- Executions have been stopped, the barrier has been passed, and the callbacks have been taken out.
def stopping : Control → Bool
  | .idle | .loading | .enabling | .registering => false
  | _ => true

def barred : Control → Bool
  | .fenced | .passed | .notifying | .removing _ | .removed | .unloading | .closing => true
  | _ => false

def cleared (d : AnyMessage.Dispatcher) : Control → Prop
  | .removing (some call) => ∃ r, d.removals[call]? = some r ∧ r.stage ≠ .published
  | .removed | .unloading | .closing => True
  | _ => False

theorem cleared.barred {d : AnyMessage.Dispatcher} {c : Control} (h : c.cleared d) :
    c.barred = true := by
  cases c <;> first | rfl | exact absurd h id

theorem cleared.of_removals {d d' : AnyMessage.Dispatcher} {c : Control}
    (hremovals : d'.removals = d.removals) (h : c.cleared d') : c.cleared d := by
  unfold cleared at h ⊢
  rw [← hremovals]
  exact h

theorem stopping_of_barred {c : Control} (h : c.barred = true) : c.stopping = true := by
  cases c <;> first | rfl | exact absurd h Bool.false_ne_true

end Control

namespace Management

-- Nothing of the module is left outside of its image.
structure Quiescent (name : String) (s : Management) : Prop where
  queued : ∀ task ∈ s.commandAsync.tasks, task.1 ≠ name
  running : ∀ worker ∈ s.commandWorkers, worker ≠ .running name
  retired : s.retired = 0
  work : ∀ c, ∀ task ∈ (s.lanes c).tasks, task.owner ≠ name
  destroying : s.destroying = 0
  callbacks : ∀ e ∈ s.dispatcher.callbacks, e.ownerCommand ≠ name
  threads : ∀ thread ∈ s.threads, thread.granted = false
  leases : ∀ lease ∈ s.callbackLeases, lease ≠ .granted

structure Inv (name : String) (s : Management) : Prop where
  leases : s.module.sharedLeases = holders name s
  closed : s.control.stopping = true ∨ s.dormant = true → s.module.acceptingExecutions = false
  free : s.control.barred = true ∨ s.dormant = true → Free name s
  cleared : s.control.cleared s.dispatcher ∨ s.dormant = true →
    ∀ e ∈ s.dispatcher.callbacks, e.ownerCommand ≠ name
  call : ∀ k, s.control = .removing (some k) →
    ∃ r, s.dispatcher.removals[k]? = some r ∧ r.command = name ∧ r.current = none
  unloading : s.control = .unloading → s.dormant = true
  registry : s.dispatcher.Inv
  calls : s.dispatcher.Calls

variable {name : String} {s s' : Management}

theorem Inv.quiescent (h : Inv name s) (hdormant : s.dormant = true) : Quiescent name s := by
  have hfree := h.free (.inr hdormant)
  refine ⟨hfree.queued, hfree.running, hfree.retired, ?_, hfree.destroying, h.cleared (.inr hdormant),
    hfree.threads, hfree.callbacks⟩
  intro c task ht
  simpa using List.countP_eq_zero.mp (hfree.lanes c) task ht

theorem Inv.env (h : Inv name s) (hs : EnvStep name s s') : Inv name s' := by
  have hstays : s'.control.barred = true ∨ s'.dormant = true →
      s.control.barred = true ∨ s.dormant = true := by
    rw [hs.control, hs.dormant]
    exact id
  have hclosed : s'.control.stopping = true ∨ s'.dormant = true →
      s.module.acceptingExecutions = false := by
    rw [hs.control, hs.dormant]
    exact h.closed
  have hremovals := hs.removals h.registry h.calls
  obtain ⟨hregistry, hcalls⟩ := hs.inv h.registry h.calls
  refine ⟨hs.leases h.leases, ?_, ?_, ?_, ?_, ?_, hregistry, hcalls⟩
  · exact fun hc => hs.accepting.trans (hclosed hc)
  · exact fun hb => hs.free (hclosed (hb.imp_left Control.stopping_of_barred)) (h.free (hstays hb))
  · intro hc e' he'
    have hfree := h.free (hstays (hc.imp_left Control.cleared.barred))
    have hold : s.control.cleared s.dispatcher ∨ s.dormant = true := by
      rw [← hs.control, ← hs.dormant]
      exact hc.imp_left (Control.cleared.of_removals hremovals)
    rcases hs.callbacks h.registry h.calls hfree e' he' with ⟨e, he, href⟩ | hne
    · rw [show e'.ownerCommand = e.ownerCommand from congrArg AnyMessage.Ref.ownerCommand href]
      exact h.cleared hold e he
    · exact hne
  · rw [hs.control, hremovals]
    exact h.call
  · rw [hs.control, hs.dormant]
    exact h.unloading

-- The control thread goes on to its next statement.
theorem Inv.goTo (h : Inv name s) {c : Control} {listener mutex : Bool}
    (hstopping : c.stopping = true → s.control.stopping = true)
    (hbarred : c.barred = true → s.control.barred = true)
    (hcleared : c.cleared s.dispatcher → s.control.cleared s.dispatcher)
    (hcall : ∀ k, c ≠ .removing (some k)) (hunloading : c ≠ .unloading) :
    Inv name { s with control := c, listener := listener, mutex := mutex } := by
  refine ⟨h.leases, ?_, ?_, ?_, fun k hk => absurd hk (hcall k), fun hu => absurd hu hunloading,
    h.registry, h.calls⟩
  · exact fun hc => h.closed (hc.imp_left hstopping)
  · intro hb
    obtain ⟨h1, h2, h3, h4, h5, h6, h7⟩ := h.free (hb.imp_left hbarred)
    exact ⟨h1, h2, h3, h4, h5, h6, h7⟩
  · exact fun hc => h.cleared (hc.imp_left hcleared)

-- What the control thread does to the queues and to the module, as far as the others see it.
theorem EnvStep.image {m : CommandModule} (hleases : m.sharedLeases = s.module.sharedLeases)
    (haccepting : m.acceptingExecutions = s.module.acceptingExecutions) :
    EnvStep name s { s with module := m } := by
  refine EnvStep.of_dispatcher rfl rfl rfl haccepting (fun hl => hleases.trans hl) ?_
  rintro - ⟨h1, h2, h3, h4, h5, h6, h7⟩
  exact ⟨h1, h2, h3, h4, h5, h6, h7⟩

theorem EnvStep.unblock : EnvStep name s
    { s with commandAsync := s.commandAsync.unblock name } := by
  refine EnvStep.of_dispatcher rfl rfl rfl rfl id ?_
  rintro - ⟨h1, h2, h3, h4, h5, h6, h7⟩
  exact ⟨h1, h2, h3, h4, h5, h6, h7⟩

theorem EnvStep.cancel : EnvStep name s
    { s with commandAsync := (s.commandAsync.cancel name).2,
             retired := s.retired + (s.commandAsync.cancel name).1.length } := by
  by_cases hname : name = ""
  · subst hname
    exact EnvStep.refl "" s
  · rw [Exec.Async.cancel_of_ne hname]
    refine EnvStep.of_dispatcher rfl rfl rfl rfl ?_ ?_
    · intro hl
      have hnone : (s.commandAsync.tasks.filter fun task => !(task.1 == name)).countP
          (fun task => task.1 == name) = 0 := by
        rw [List.countP_eq_zero]
        intro task ht
        simpa using (List.mem_filter.mp ht).2
      have hall : (s.commandAsync.tasks.filter fun task => task.1 == name).length =
          s.commandAsync.tasks.countP fun task => task.1 == name := List.countP_eq_length_filter.symm
      unfold holders at hl ⊢
      simp only at hl ⊢
      omega
    · intro _ hfree
      have hnone : s.commandAsync.tasks.filter (fun task => task.1 == name) = [] := by
        rw [List.filter_eq_nil_iff]
        intro task ht
        simpa using hfree.queued task ht
      refine ⟨hfree.threads, hfree.callbacks, ?_, hfree.running, ?_, hfree.lanes, hfree.destroying⟩
      · exact fun task ht => hfree.queued task (List.mem_of_mem_filter ht)
      · rw [hnone]
        exact hfree.retired

theorem EnvStep.destroyRetired : EnvStep name s { s.releaseShared s.retired with retired := 0 } := by
  refine EnvStep.of_dispatcher rfl rfl rfl rfl ?_ ?_
  · intro hl
    unfold holders at hl ⊢
    simp only [releaseShared, CommandModule.releaseShared] at hl ⊢
    omega
  · exact fun _ hfree => ⟨hfree.threads, hfree.callbacks, hfree.queued, hfree.running, rfl,
      hfree.lanes, hfree.destroying⟩

theorem EnvStep.cancelOwner (c : Work.WorkClass) : EnvStep name s
    ((s.setLane c ((s.lanes c).cancelOwner name)).releaseShared
      (owned name (s.lanes c) - owned name ((s.lanes c).cancelOwner name))) := by
  have hle : owned name ((s.lanes c).cancelOwner name) ≤ owned name (s.lanes c) :=
    owned_step_le name 0 (i := .cancelOwner name) (by intro _ _ _ _ heq; cases heq) rfl
  exact EnvStep.lane _ 0 (by omega)

theorem Inv.unloadDirect (h : Inv name s) (ht : s.unloadDirect = some s') : Inv name s' := by
  unfold Management.unloadDirect at ht
  split at ht
  next hidle hm =>
    split at ht
    · obtain rfl := Option.some_inj.mp ht
      refine ⟨h.leases, fun _ => rfl, ?_, ?_, fun _ hk => absurd hk nofun, nofun, h.registry, h.calls⟩
      · intro hb
        obtain ⟨h1, h2, h3, h4, h5, h6, h7⟩ := h.free (hb.imp_left fun hf => absurd hf nofun)
        exact ⟨h1, h2, h3, h4, h5, h6, h7⟩
      · exact fun hc => h.cleared (hc.imp_left False.elim)
    · obtain rfl := Option.some_inj.mp ht
      exact h
  · exact absurd ht nofun

theorem Inv.load (h : Inv name s) (ht : s.load = some s') : Inv name s' := by
  unfold Management.load at ht
  split at ht
  next hidle hm =>
    split at ht
    · obtain rfl := Option.some_inj.mp ht
      exact h.goTo nofun nofun False.elim (fun _ => nofun) nofun
    · obtain rfl := Option.some_inj.mp ht
      exact h
  · exact absurd ht nofun

-- The exclusive lease is given when no share is out, so nothing of the module has a lease.
theorem Inv.fence (h : Inv name s) (hc : s.control = .fencing) {m : CommandModule}
    (hm : s.module.acquireExclusive = some m) :
    Inv name { s with module := m, control := .fenced } := by
  obtain ⟨hzero, rfl⟩ := CommandModule.acquireExclusive_eq_some hm
  have hfree : Free name s := free_of_holders (h.leases.symm.trans hzero)
  refine ⟨h.leases, fun _ => h.closed (.inl (hc ▸ rfl)), ?_, ?_, fun _ hk => absurd hk nofun, nofun,
    h.registry, h.calls⟩
  · obtain ⟨h1, h2, h3, h4, h5, h6, h7⟩ := hfree
    exact fun _ => ⟨h1, h2, h3, h4, h5, h6, h7⟩
  · exact fun hc' => h.cleared (hc'.imp_left False.elim)

-- The steps of the control thread inside `removeAnyMessageCallbacksForCommand`.
theorem Inv.removal (h : Inv name s) {call : Option ℕ} (hc : s.control = .removing call) {k : ℕ}
    {i : AnyMessage.Dispatcher.Step} {d : AnyMessage.Dispatcher}
    (hd : AnyMessage.Dispatcher.step s.dispatcher i = some d)
    (hcallbacks : (Control.removing (some k)).cleared d ∨ s.dormant = true →
      ∀ e ∈ d.callbacks, e.ownerCommand ≠ name)
    (hcall : ∃ r, d.removals[k]? = some r ∧ r.command = name ∧ r.current = none) :
    Inv name { s with dispatcher := d, control := .removing (some k) } := by
  refine ⟨h.leases, fun _ => h.closed (.inl (hc ▸ rfl)), ?_, hcallbacks, ?_, nofun,
    h.registry.step i hd, h.calls.step h.registry i hd⟩
  · obtain ⟨h1, h2, h3, h4, h5, h6, h7⟩ := h.free (.inl (hc ▸ rfl))
    exact fun _ => ⟨h1, h2, h3, h4, h5, h6, h7⟩
  · rintro k' ⟨⟩
    exact hcall

theorem Inv.publish (h : Inv name s) (hc : s.control = .removing none) {d : AnyMessage.Dispatcher}
    (hd : s.dispatcher.publish none name = some d) :
    Inv name { s with dispatcher := d, control := .removing (some s.dispatcher.removals.length) } := by
  obtain rfl := Option.some_inj.mp hd
  have hnew : (s.dispatcher.removals ++ [(⟨none, none, name, s.dispatcher.nextId, .published⟩ :
      AnyMessage.Removal)])[s.dispatcher.removals.length]? =
        some ⟨none, none, name, s.dispatcher.nextId, .published⟩ :=
    List.getElem?_concat_length
  refine h.removal hc (i := .publish none name) rfl ?_ ⟨_, hnew, rfl, rfl⟩
  rintro (⟨r, hr, hpast⟩ | hdormant)
  · obtain rfl := Option.some_inj.mp (hnew.symm.trans hr)
    exact absurd rfl hpast
  · exact h.cleared (.inr hdormant)

-- The section takes every callback of the module out of the registry.
theorem Inv.detach (h : Inv name s) {k : ℕ} (hc : s.control = .removing (some k))
    {d : AnyMessage.Dispatcher} (hd : s.dispatcher.section' k = some d) :
    Inv name { s with dispatcher := d } := by
  obtain ⟨r, removed, hs⟩ := AnyMessage.Dispatcher.section_step hd
  obtain ⟨r', hr', hcommand, hcurrent⟩ := h.call k hc
  obtain rfl := Option.some_inj.mp (hs.was.symm.trans hr')
  have hlt : k < s.dispatcher.removals.length := (List.getElem?_eq_some_iff.mp hs.was).1
  have hnew : d.removals[k]? = some { r with stage := .detached removed } := by
    rw [hs.removals, List.getElem?_set_self hlt]
  have hinv := h.removal hc (k := k) (i := .section' k) hd ?_ ⟨_, hnew, hcommand, hcurrent⟩
  · rw [← hc] at hinv
    exact hinv
  · intro _ e' he'
    obtain ⟨e, he, href, -, hkept⟩ := hs.callbacks e' he'
    rw [show e'.ownerCommand = e.ownerCommand from congrArg AnyMessage.Ref.ownerCommand href]
    rcases hkept with hne | hself
    · exact hcommand ▸ hne
    · rw [hcurrent] at hself
      exact absurd hself nofun

-- After the section the call only moves on.
theorem Inv.proceed (h : Inv name s) {k : ℕ} (hc : s.control = .removing (some k))
    {i : AnyMessage.Dispatcher.Step} {d : AnyMessage.Dispatcher}
    (hd : AnyMessage.Dispatcher.step s.dispatcher i = some d)
    (hcallbacks : d.callbacks = s.dispatcher.callbacks) {old new : AnyMessage.Removal}
    (hk : s.dispatcher.removals[k]? = some old) (hpast : old.stage ≠ .published)
    (hremovals : d.removals = s.dispatcher.removals.set k new)
    (hsame : new.command = old.command ∧ new.current = old.current) :
    Inv name { s with dispatcher := d } := by
  obtain ⟨r, hr, hcommand, hcurrent⟩ := h.call k hc
  obtain rfl := Option.some_inj.mp (hk.symm.trans hr)
  have hlt : k < s.dispatcher.removals.length := (List.getElem?_eq_some_iff.mp hk).1
  have hnew : d.removals[k]? = some new := by
    rw [hremovals, List.getElem?_set_self hlt]
  have hinv := h.removal hc (k := k) hd ?_
    ⟨new, hnew, hsame.1.trans hcommand, hsame.2.trans hcurrent⟩
  · rw [← hc] at hinv
    exact hinv
  · rw [hcallbacks]
    intro _
    refine h.cleared (.inl ?_)
    rw [hc]
    exact ⟨old, hk, hpast⟩

theorem Inv.removeCallbacks (h : Inv name s) {call : Option ℕ} (hc : s.control = .removing call)
    (ht : s.removeCallbacks name call = some s') : Inv name s' := by
  cases call with
  | none =>
    simp only [Management.removeCallbacks] at ht
    obtain ⟨d, hd, rfl⟩ := Option.map_eq_some_iff.mp ht
    exact h.publish hc hd
  | some k =>
    simp only [Management.removeCallbacks] at ht
    split at ht
    next hstage =>
      obtain ⟨d, hd, rfl⟩ := Option.map_eq_some_iff.mp ht
      exact h.detach hc hd
    next hstage =>
      obtain ⟨d, hd, rfl⟩ := Option.map_eq_some_iff.mp ht
      obtain ⟨caller, current, command, before, removed, hk, rfl⟩ :=
        AnyMessage.Dispatcher.unpublish_cases hd
      exact h.proceed hc (i := .unpublish k) hd rfl hk (fun he => by cases he) rfl ⟨rfl, rfl⟩
    next hstage =>
      obtain ⟨d, hd, rfl⟩ := Option.map_eq_some_iff.mp ht
      obtain ⟨caller, current, command, before, removed, id, left, hk, -, rfl⟩ :=
        AnyMessage.Dispatcher.await_cases hd
      exact h.proceed hc (i := .await k) hd rfl hk (fun he => by cases he) rfl ⟨rfl, rfl⟩
    next hstage =>
      obtain ⟨d, hd, rfl⟩ := Option.map_eq_some_iff.mp ht
      obtain ⟨caller, current, command, before, removed, hk, rfl⟩ :=
        AnyMessage.Dispatcher.return_cases hd
      exact h.proceed hc (i := .return' k) hd rfl hk (fun he => by cases he) rfl ⟨rfl, rfl⟩
    next hstage =>
      obtain rfl := Option.some_inj.mp ht
      obtain ⟨r, hr, hreturned⟩ := Option.map_eq_some_iff.mp hstage
      refine h.goTo (fun _ => hc ▸ rfl) (fun _ => hc ▸ rfl) ?_ (fun _ he => by cases he)
        (fun he => by cases he)
      rw [hc]
      exact fun _ => ⟨r, hr, fun he => by cases hreturned.symm.trans he⟩
    · cases ht

-- Executions are stopped already, and the module is stopped once more.
theorem Inv.stopAgain (h : Inv name s) (hc : s.control.stopping = true) :
    Inv name { s with module := s.module.stopExecutions } :=
  h.env (EnvStep.image rfl (h.closed (.inl hc)).symm)

-- The image is closed under the exclusive lease, which goes back at once.
theorem Inv.closed_image (h : Inv name s) {m : CommandModule}
    (hm : s.module.acquireExclusive = some m) (succeeds : Bool) :
    Inv name
      { s with module := if succeeds then m.close.releaseExclusive else m.releaseExclusive } := by
  obtain ⟨-, rfl⟩ := CommandModule.acquireExclusive_eq_some hm
  refine h.env (EnvStep.image ?_ ?_)
  · cases succeeds <;> rfl
  · cases succeeds <;> rfl

theorem Inv.advance (h : Inv name s) {succeeds : Bool} (ht : s.advance name succeeds = some s') :
    Inv name s' := by
  unfold Management.advance at ht
  split at ht
  next hc => exact absurd ht nofun
  next hc =>
    obtain rfl := Option.some_inj.mp ht
    exact h.goTo (fun _ => hc ▸ rfl) nofun False.elim (fun _ => nofun) nofun
  next hc =>
    obtain rfl := Option.some_inj.mp ht
    exact (h.env EnvStep.cancel).goTo (fun _ => hc ▸ rfl) nofun False.elim (fun _ => nofun) nofun
  next hc =>
    obtain rfl := Option.some_inj.mp ht
    exact (h.env EnvStep.destroyRetired).goTo (fun _ => hc ▸ rfl) nofun False.elim
      (fun _ => nofun) nofun
  next c rest hc =>
    obtain rfl := Option.some_inj.mp ht
    exact (h.env (EnvStep.cancelOwner c)).goTo (fun _ => hc ▸ rfl) nofun False.elim
      (fun _ => nofun) nofun
  next hc =>
    obtain rfl := Option.some_inj.mp ht
    exact h.goTo (fun _ => hc ▸ rfl) nofun False.elim (fun _ => nofun) nofun
  next c rest hc =>
    split at ht
    · obtain rfl := Option.some_inj.mp ht
      exact h.goTo (fun _ => hc ▸ rfl) nofun False.elim (fun _ => nofun) nofun
    · exact absurd ht nofun
  next hc =>
    obtain rfl := Option.some_inj.mp ht
    exact (h.stopAgain (hc ▸ rfl)).goTo (fun _ => hc ▸ rfl) nofun False.elim (fun _ => nofun) nofun
  next hc =>
    obtain ⟨m, hm, rfl⟩ := Option.map_eq_some_iff.mp ht
    exact h.fence hc hm
  next hc =>
    obtain rfl := Option.some_inj.mp ht
    have hreleased : Inv name { s with module := s.module.releaseExclusive } :=
      h.env (EnvStep.image rfl rfl)
    exact hreleased.goTo (fun _ => hc ▸ rfl) (fun _ => hc ▸ rfl) False.elim (fun _ => nofun) nofun
  next hc =>
    split at ht
    · obtain rfl := Option.some_inj.mp ht
      exact (h.env EnvStep.unblock).goTo (fun _ => hc ▸ rfl) (fun _ => hc ▸ rfl) False.elim
        (fun _ => nofun) nofun
    · exact absurd ht nofun
  next hc =>
    obtain rfl := Option.some_inj.mp ht
    exact h.goTo (fun _ => hc ▸ rfl) (fun _ => hc ▸ rfl) False.elim (fun _ => nofun) nofun
  next call hc => exact h.removeCallbacks hc ht
  next hc =>
    split at ht
    · obtain rfl := Option.some_inj.mp ht
      refine ⟨h.leases, fun _ => h.closed (.inl (hc ▸ rfl)), ?_, ?_, fun _ hk => absurd hk nofun,
        fun _ => rfl, h.registry, h.calls⟩
      · obtain ⟨h1, h2, h3, h4, h5, h6, h7⟩ := h.free (.inl (hc ▸ rfl))
        exact fun _ => ⟨h1, h2, h3, h4, h5, h6, h7⟩
      · exact fun _ => h.cleared (.inl (hc ▸ trivial))
    · obtain rfl := Option.some_inj.mp ht
      exact h.goTo nofun nofun False.elim (fun _ => nofun) nofun
  next hc =>
    obtain rfl := Option.some_inj.mp ht
    exact (h.stopAgain (hc ▸ rfl)).goTo (fun _ => hc ▸ rfl) (fun _ => hc ▸ rfl)
      (fun _ => hc ▸ trivial) (fun _ => nofun) nofun
  next hc =>
    obtain ⟨m, hm, rfl⟩ := Option.map_eq_some_iff.mp ht
    exact (h.closed_image hm succeeds).goTo nofun nofun False.elim (fun _ => nofun) nofun
  next hc =>
    split at ht
    · obtain rfl := Option.some_inj.mp ht
      exact h.goTo nofun nofun False.elim (fun _ => nofun) nofun
    · split at ht
      · obtain rfl := Option.some_inj.mp ht
        have hopened : Inv name { s with module := s.module.openImage } :=
          h.env (EnvStep.image rfl rfl)
        exact hopened.goTo nofun nofun False.elim (fun _ => nofun) nofun
      · obtain rfl := Option.some_inj.mp ht
        exact h.goTo nofun nofun False.elim (fun _ => nofun) nofun
  next hc =>
    obtain rfl := Option.some_inj.mp ht
    refine ⟨h.leases, ?_, ?_, ?_, fun _ hk => absurd hk nofun, nofun, h.registry, h.calls⟩
    · rintro (hs | hd)
      · exact absurd hs nofun
      · exact absurd hd nofun
    · rintro (hb | hd)
      · exact absurd hb nofun
      · exact absurd hd nofun
    · rintro (hcl | hd)
      · exact absurd hcl id
      · exact absurd hd nofun
  next hc =>
    obtain rfl := Option.some_inj.mp ht
    exact h.goTo nofun nofun False.elim (fun _ => nofun) nofun

theorem Inv.step (h : Inv name s) (i : Step) (ht : Management.step name s i = some s') :
    Inv name s' := by
  cases i with
  | fetch t => exact h.env (EnvStep.fetch ht)
  | enter t purpose =>
    simp only [Management.step] at ht
    split at ht
    · exact absurd ht nofun
    · exact h.env (EnvStep.enter ht)
  | acquire t => exact h.env (EnvStep.acquire ht)
  | abandon t => exact h.env (EnvStep.abandon ht)
  | emplace t admission => exact h.env (EnvStep.emplace ht)
  | draw t hasWork => exact h.env (EnvStep.draw ht)
  | queue t due deadline => exact h.env (EnvStep.queue ht)
  | emplaceOther owner admission => exact h.env (EnvStep.emplaceOther ht)
  | queueOther owner c due deadline => exact h.env (EnvStep.queueOther ht)
  | takeCommand w => exact h.env (EnvStep.takeCommand ht)
  | destroyCommand w => exact h.env (EnvStep.destroyCommand ht)
  | finishCommand w => exact h.env (EnvStep.finishCommand ht)
  | laneStep c now i => exact h.env (EnvStep.laneStep ht)
  | eraseTask c now id => exact h.env (EnvStep.eraseTask ht)
  | destroyTask => exact h.env (EnvStep.destroyTask ht)
  | dispatch i => exact h.env (EnvStep.dispatch ht)
  | enterCallback w => exact h.env (EnvStep.enterCallback ht)
  | acquireCallback w => exact h.env (EnvStep.acquireCallback ht)
  | endIteration w => exact h.env (EnvStep.endIteration ht)
  | unloadDirect => exact h.unloadDirect ht
  | load => exact h.load ht
  | advance succeeds => exact h.advance ht

theorem Inv.start (config : Config) (registered : Bool) (name : String) :
    Inv name (start config registered name) := by
  have hnone : holders name (Management.start config registered name) = 0 := by
    simp [holders, Management.start, List.countP_replicate, laneTotal, owned, Work.WorkClass.all,
      Work.Lane.create, Work.Lane.tasks, Exec.Async.create, Thread.shares, Thread.granted,
      CallbackLease.shares]
  refine ⟨hnone.symm, ?_, ?_, ?_, fun _ hk => (by cases hk), fun hk => (by cases hk),
    AnyMessage.Dispatcher.Inv.create _ _, AnyMessage.Dispatcher.Calls.create _ _⟩
  · exact fun _ => rfl
  · exact fun _ => free_of_holders hnone
  · exact fun _ e he => absurd he List.not_mem_nil

-- In every interleaving: when the module's `unload` is called, nothing of the module is left in the
-- queues, in the registry or in the hands of a thread, and so it stays until executions are enabled
-- by the next load.
theorem quiescent_when_unloaded (config : Config) (registered : Bool) (name : String)
    (steps : List Step) (s : Management)
    (hp : Transition.path (step name) (start config registered name) steps = some s) :
    (s.control = .unloading → s.dormant = true) ∧ (s.dormant = true → Quiescent name s) := by
  have hinv : Inv name s := Transition.path_invariant_of_step (Inv name)
    (fun _ i _ h ht => h.step i ht) (Inv.start config registered name) hp
  exact ⟨hinv.unloading, hinv.quiescent⟩

-- A command of the module runs and another one waits, a task runs, a callback runs, one delivery has
-- its lease and another one has passed the first check.
def busyRun : List Step :=
  [.load, .advance true, .advance true, .advance true, .fetch 0, .acquire 0, .acquire 0,
    .acquire 0, .emplace 0 .absent, .takeCommand 0, .dispatch (.registerCallback "a" true),
    .enter 1 (.submit .Outbound), .acquire 1, .acquire 1, .acquire 1, .draw 1 true, .queue 1 0 none,
    .laneStep .Outbound 5 .take, .laneStep .Outbound 5 (.checkDeadline 1),
    .laneStep .Outbound 5 (.checkStop 1), .enter 1 .invoke, .acquire 1, .acquire 1, .acquire 1,
    .emplace 1 .absent, .dispatch .enqueue, .dispatch (.take 0), .enterCallback 0,
    .acquireCallback 0, .acquireCallback 0, .acquireCallback 0, .fetch 0, .acquire 0, .fetch 1,
    .acquire 1, .acquire 1, .acquire 1]

def unloadRun : List Step :=
  [.unloadDirect, .advance true, .acquire 0, .advance true, .emplace 1 .absent, .acquire 0,
    .advance true, .advance true, .advance true, .advance true, .advance true, .advance true,
    .advance true, .advance true, .advance true, .advance true, .laneStep .Outbound 9 (.complete 1),
    .eraseTask .Outbound 9 1, .advance true, .advance true, .destroyTask, .destroyCommand 0,
    .dispatch (.finish 0 false), .dispatch (.drop 0), .dispatch (.release 0), .endIteration 0,
    .advance true, .advance true, .finishCommand 0, .advance true, .advance true, .advance true,
    .advance true, .advance true, .advance true, .advance true, .advance true, .advance true,
    .advance true]

theorem quiescent_when_unloaded_busyRun : ∃ s t,
    Transition.path (step "a") (start ⟨2, 1, 4, Work.lanesOfProgram, 1, 4⟩ true "a") busyRun = some s ∧
    s.module.sharedLeases = 5 ∧ s.dispatcher.callbacks.length = 1 ∧
    Transition.path (step "a") s unloadRun = some t ∧ t.control = .unloading ∧ Quiescent "a" t := by
  obtain ⟨t, hp, hc⟩ := Transition.exists_path (step "a")
    (start ⟨2, 1, 4, Work.lanesOfProgram, 1, 4⟩ true "a") (busyRun ++ unloadRun)
    (fun t => t.control = .unloading) (by decide)
  obtain ⟨s, hs, hl⟩ := Transition.exists_path (step "a")
    (start ⟨2, 1, 4, Work.lanesOfProgram, 1, 4⟩ true "a") busyRun
    (fun s => s.module.sharedLeases = 5 ∧ s.dispatcher.callbacks.length = 1) (by decide)
  obtain ⟨u, hu, ht⟩ := Transition.path_append_eq_some.mp hp
  obtain rfl := Option.some_inj.mp (hs.symm.trans hu)
  obtain ⟨hdormant, hquiescent⟩ := quiescent_when_unloaded _ true "a" _ t hp
  exact ⟨s, t, hs, hl.1, hl.2, ht, hc, hquiescent (hdormant hc)⟩

end Management

end Glider.Modules

import Glider.Modules.References

namespace Glider.Modules

open Glider.Lib

namespace Reload

variable {s s' : Reload}

-- An object in a local variable of `reloadDirect`.
structure Owned (s : Reload) (object : ℕ) : Prop where
  made : object < s.made
  alive : object ∉ s.destroyed
  local' : s.handle ≠ some object

-- No listener was made for it, it was taken out of the manager and stopped, or the barrier was passed.
structure Spare (s : Reload) (object : ℕ) : Prop extends Owned s object where
  untouched : object ∉ s.references

structure Old (s : Reload) (object : ℕ) : Prop extends Owned s object where
  stopped : (s.objects object).acceptingExecutions = false
  unregistered : s.listener ≠ some object

structure Sealed (s : Reload) (object : ℕ) : Prop extends Owned s object where
  unleased : object ∉ s.granted
  kept : object ∉ s.references ∨ (s.objects object).acceptingExecutions = false
  unregistered : s.listener ≠ some object

def HandleStopped (s : Reload) : Prop :=
  ∀ object, s.handle = some object → (s.objects object).acceptingExecutions = false

def Candidate (s : Reload) : Prop := ∀ object, s.handle = some object → object ∉ s.references

def Outcome.Open (s : Reload) : Outcome → Prop
  | .replaced previous => Old s previous
  | .restored failedCandidate _ => Spare s failedCandidate

def Outcome.Shut (s : Reload) : Outcome → Prop
  | .replaced previous => Sealed s previous
  | .restored failedCandidate _ => Spare s failedCandidate

-- What is known at each statement of `reloadDirect`. The manager never loses the name, so the early
-- returns for a lost name are not reached.
def At (s : Reload) : ReloadDirect → Prop
  | .idle => True
  | .preflight replacement _ current =>
    s.handle = some current ∧ ∀ object, replacement = some object → Spare s object
  | .stopReplacement replacement current | .stopCurrent replacement current =>
    s.handle = some current ∧ Spare s replacement
  | .unregister replacement => Spare s replacement ∧ HandleStopped s
  | .cancel replacement | .retire replacement _ | .exchange replacement =>
    Spare s replacement ∧ HandleStopped s ∧ s.listener = none
  | .load previous | .register previous | .restore previous => Old s previous ∧ Candidate s
  | .cancelAndDrain previous => Old s previous
  | .stop outcome | .fence outcome => Outcome.Open s outcome
  | .fenced outcome | .drain outcome | .unload outcome | .close outcome | .enable outcome =>
    Outcome.Shut s outcome
  | .onUnload previous | .removeCallbacks previous | .onReload previous => Sealed s previous
  | .loadAgain failedCandidate | .registerAgain failedCandidate => Spare s failedCandidate
  | .abort _ => False
  | .leave object | .finalClose object | .destroy object => Sealed s object

structure Inv (s : Reload) : Prop where
  handle : ∃ object, s.handle = some object ∧ object < s.made ∧ object ∉ s.destroyed
  position : At s s.control
  destroyed : ∀ object ∈ s.destroyed, object < s.made ∧ object ∉ s.references
  references : ∀ object ∈ s.references, object < s.made
  leases : ∀ object, (s.objects object).sharedLeases = s.shares.count object

theorem granted_subset_references {object : ℕ} (h : object ∈ s.granted) : object ∈ s.references :=
  shares_subset_references (granted_subset_shares h)

theorem Spare.sealed {object : ℕ} (h : Spare s object) : Sealed s object :=
  ⟨h.toOwned, fun hg => h.untouched (granted_subset_references hg), .inl h.untouched,
    fun hl => h.untouched (mem_references.mpr (.inl hl))⟩

section Follows

variable {object : ℕ}

theorem Owned.follows (h : Owned s object) (hs : Follows s s') : Owned s' object :=
  ⟨hs.made ▸ h.made, hs.destroyed ▸ h.alive, hs.handle ▸ h.local'⟩

theorem Spare.follows (h : Spare s object) (hs : Follows s s') : Spare s' object :=
  ⟨h.toOwned.follows hs, fun hr => h.untouched (hs.references object hr)⟩

theorem Old.follows (h : Old s object) (hs : Follows s s') : Old s' object :=
  ⟨h.toOwned.follows hs, (hs.accepting object).trans h.stopped, hs.listener ▸ h.unregistered⟩

-- The one place where a lease could come back: it would have to be granted.
theorem Sealed.follows (h : Sealed s object) (hs : Follows s s') : Sealed s' object := by
  refine ⟨h.toOwned.follows hs, ?_, ?_, hs.listener ▸ h.unregistered⟩
  · intro hg
    rcases h.kept with hu | ha
    · exact hu (hs.references object (granted_subset_references hg))
    · rcases hs.granted object hg with hg | hacc
      · exact h.unleased hg
      · rw [ha] at hacc
        exact Bool.false_ne_true hacc
  · exact h.kept.imp (fun hu hr => hu (hs.references object hr)) (hs.accepting object).trans

theorem HandleStopped.follows (h : HandleStopped s) (hs : Follows s s') : HandleStopped s' := by
  intro object ho
  rw [hs.accepting object]
  exact h object (hs.handle ▸ ho)

theorem Candidate.follows (h : Candidate s) (hs : Follows s s') : Candidate s' :=
  fun object ho hr => h object (hs.handle ▸ ho) (hs.references object hr)

theorem At.follows {c : ReloadDirect} (h : At s c) (hs : Follows s s') : At s' c := by
  cases c with
  | idle => trivial
  | preflight r n c => exact ⟨hs.handle.trans h.1, fun o ho => (h.2 o ho).follows hs⟩
  | stopReplacement r c | stopCurrent r c => exact ⟨hs.handle.trans h.1, h.2.follows hs⟩
  | unregister r => exact ⟨h.1.follows hs, h.2.follows hs⟩
  | cancel r => exact ⟨h.1.follows hs, h.2.1.follows hs, hs.listener.trans h.2.2⟩
  | retire r l | exchange r => exact ⟨h.1.follows hs, h.2.1.follows hs, hs.listener.trans h.2.2⟩
  | load p | register p | restore p => exact ⟨h.1.follows hs, h.2.follows hs⟩
  | cancelAndDrain p => exact Old.follows h hs
  | stop o | fence o =>
    cases o with
    | replaced p => exact Old.follows h hs
    | restored f p => exact Spare.follows h hs
  | fenced o | drain o | unload o | close o | enable o =>
    cases o with
    | replaced p => exact Sealed.follows h hs
    | restored f p => exact Spare.follows h hs
  | onUnload p | removeCallbacks p | onReload p => exact Sealed.follows h hs
  | loadAgain f | registerAgain f => exact Spare.follows h hs
  | abort o => exact h
  | leave o | finalClose o | destroy o => exact Sealed.follows h hs

theorem Inv.follows (h : Inv s) (hs : Follows s s') : Inv s' := by
  refine ⟨?_, ?_, ?_, ?_, hs.leases h.leases⟩
  · rw [hs.handle, hs.made, hs.destroyed]
    exact h.handle
  · rw [hs.control]
    exact h.position.follows hs
  · rw [hs.destroyed, hs.made]
    exact fun object hd =>
      (h.destroyed object hd).imp_right fun hu hr => hu (hs.references object hr)
  · rw [hs.made]
    exact fun object hr => h.references object (hs.references object hr)

end Follows

-- A statement of `reloadDirect` that leaves the manager's entry alone and captures nothing.
structure Moves (s s' : Reload) : Prop where
  handle : s'.handle = s.handle
  made : s'.made = s.made
  destroyed : s'.destroyed = s.destroyed
  listener : ∀ object, s'.listener = some object → s.listener = some object
  references : ∀ object ∈ s'.references, object ∈ s.references
  granted : ∀ object ∈ s'.granted, object ∈ s.granted
  leases : (∀ object, (s.objects object).sharedLeases = s.shares.count object) →
    ∀ object, (s'.objects object).sharedLeases = s'.shares.count object

section Moves

variable {object : ℕ}

theorem Inv.moves (h : Inv s) (hs : Moves s s') (hat : At s' s'.control) : Inv s' := by
  refine ⟨?_, hat, ?_, ?_, hs.leases h.leases⟩
  · rw [hs.handle, hs.made, hs.destroyed]
    exact h.handle
  · rw [hs.destroyed, hs.made]
    exact fun object hd =>
      (h.destroyed object hd).imp_right fun hu hr => hu (hs.references object hr)
  · rw [hs.made]
    exact fun object hr => h.references object (hs.references object hr)

theorem Owned.moves (h : Owned s object) (hs : Moves s s') : Owned s' object :=
  ⟨hs.made ▸ h.made, hs.destroyed ▸ h.alive, hs.handle ▸ h.local'⟩

theorem Spare.moves (h : Spare s object) (hs : Moves s s') : Spare s' object :=
  ⟨h.toOwned.moves hs, fun hr => h.untouched (hs.references object hr)⟩

theorem Old.moves (h : Old s object) (hs : Moves s s')
    (hstopped : (s'.objects object).acceptingExecutions = false) : Old s' object :=
  ⟨h.toOwned.moves hs, hstopped, fun hl => h.unregistered (hs.listener object hl)⟩

theorem Sealed.moves (h : Sealed s object) (hs : Moves s s')
    (hstopped : (s.objects object).acceptingExecutions = false →
      (s'.objects object).acceptingExecutions = false) : Sealed s' object :=
  ⟨h.toOwned.moves hs, fun hg => h.unleased (hs.granted object hg),
    h.kept.imp (fun hu hr => hu (hs.references object hr)) hstopped,
    fun hl => h.unregistered (hs.listener object hl)⟩

theorem Candidate.moves (h : Candidate s) (hs : Moves s s') : Candidate s' :=
  fun object ho hr => h object (hs.handle ▸ ho) (hs.references object hr)

-- The module objects change without their leases.
theorem Moves.objects {objects : ℕ → CommandModule} {c : ReloadDirect} {commandAsync : Exec.Async ℕ}
    (hretired : c.retired = s.control.retired) (htasks : commandAsync.tasks = s.commandAsync.tasks)
    (hleases : ∀ x, (objects x).sharedLeases = (s.objects x).sharedLeases) :
    Moves s { s with objects := objects, commandAsync := commandAsync, control := c } := by
  have hclosures : Reload.closures { s with
      objects := objects, commandAsync := commandAsync, control := c } = s.closures := by
    simp only [Reload.closures, hretired, htasks]
  refine ⟨rfl, rfl, rfl, fun _ => id, ?_, ?_, ?_⟩
  · intro x hx
    rw [mem_references, hclosures] at hx
    exact mem_references.mpr hx
  · intro x hx
    rw [Reload.granted, hclosures] at hx
    exact hx
  · intro hl x
    rw [Reload.shares, hclosures]
    exact (hleases x).trans (hl x)

theorem Moves.goTo {c : ReloadDirect} (hretired : c.retired = s.control.retired) :
    Moves s (s.goTo c) := Moves.objects hretired rfl fun _ => rfl

theorem Moves.onObject (object : ℕ) {f : CommandModule → CommandModule} {c : ReloadDirect}
    (hretired : c.retired = s.control.retired)
    (hf : (f (s.objects object)).sharedLeases = (s.objects object).sharedLeases) :
    Moves s ((s.onObject object f).goTo c) := by
  refine Moves.objects hretired rfl fun x => ?_
  simp only [Reload.onObject, Function.update_apply]
  split
  next heq => rw [heq, hf]
  · rfl

theorem onObject_stopped {x : ℕ} {f : CommandModule → CommandModule} {c : ReloadDirect}
    (hf : (s.objects object).acceptingExecutions = false →
      (f (s.objects object)).acceptingExecutions = false)
    (hx : (s.objects x).acceptingExecutions = false) :
    (((s.onObject object f).goTo c).objects x).acceptingExecutions = false := by
  simp only [Reload.goTo, Reload.onObject, Function.update_apply]
  split
  next heq => exact hf (heq ▸ hx)
  · exact hx

theorem onObject_of_ne {x : ℕ} {f : CommandModule → CommandModule} {c : ReloadDirect}
    (hne : x ≠ object) : ((s.onObject object f).goTo c).objects x = s.objects x :=
  Function.update_of_ne hne _ _

end Moves

-- The closures that `cancel` takes out keep their leases until they are destroyed.
theorem Moves.cancel (hnone : s.control.retired = []) (name : String) (replacement : ℕ) :
    Moves s { s with
      commandAsync := (s.commandAsync.cancel name).2,
      control := .retire replacement ((s.commandAsync.cancel name).1.map Prod.snd) } := by
  have hperm : (Reload.closures { s with
      commandAsync := (s.commandAsync.cancel name).2,
      control := .retire replacement ((s.commandAsync.cancel name).1.map Prod.snd) }).Perm
        s.closures := by
    by_cases hname : name = ""
    · subst hname
      simp [Reload.closures, Exec.Async.cancel_empty, hnone]
    · rw [Exec.Async.cancel_of_ne hname]
      have hparts := (List.filter_append_perm (fun task : Exec.Task ℕ => task.1 == name)
        s.commandAsync.tasks).map Prod.snd
      rw [List.map_append] at hparts
      simp only [Reload.closures, ReloadDirect.retired_retire, hnone, List.append_nil]
      rw [List.perm_iff_count] at hparts ⊢
      intro x
      have hx := hparts x
      simp only [List.count_append] at hx ⊢
      omega
  refine ⟨rfl, rfl, rfl, fun _ => id, ?_, ?_, ?_⟩
  · exact fun x hx => ((hperm.append_left _).mem_iff).mp hx
  · exact fun x hx => ((hperm.append_left _).mem_iff).mp hx
  · exact fun hl x => (hl x).trans ((hperm.append_left _).count_eq x).symm

theorem Moves.retire (next : ℕ) {replacement : ℕ} {closures : List ℕ}
    (hc : s.control = .retire replacement closures) :
    Moves s { s with
      objects := fun object => (s.objects object).releaseShared (closures.count object),
      control := .exchange next } := by
  have hsub : ∀ x, x ∈ Reload.closures { s with
      objects := fun object => (s.objects object).releaseShared (closures.count object),
      control := .exchange next } → x ∈ s.closures := by
    intro x hx
    simp only [Reload.closures, ReloadDirect.retired, List.append_nil] at hx
    exact List.mem_append_left _ hx
  refine ⟨rfl, rfl, rfl, fun _ => id, ?_, ?_, ?_⟩
  · intro x hx
    rw [mem_references] at hx ⊢
    exact hx.imp_right (Or.imp_right (hsub x))
  · intro x hx
    rw [Reload.granted, List.mem_append] at hx ⊢
    exact hx.imp_right (hsub x)
  · intro hl x
    have hx := hl x
    simp only [Reload.shares, Reload.closures, hc, ReloadDirect.retired, List.count_append,
      List.count_nil, CommandModule.releaseShared] at hx ⊢
    omega

-- The exclusive lease is given when no share is out.
theorem Old.sealed {object : ℕ} (h : Old s object) (hinv : Inv s)
    (hzero : (s.objects object).sharedLeases = 0) : Sealed s object := by
  refine ⟨h.toOwned, ?_, .inr h.stopped, h.unregistered⟩
  intro hg
  rw [hinv.leases object, List.count_eq_zero] at hzero
  exact hzero (granted_subset_shares hg)

-- The manager's entry is exchanged for an object of a local variable.
theorem Inv.exchange (h : Inv s) {object : ℕ} {c : ReloadDirect}
    (hretired : c.retired = s.control.retired) (ho : Owned s object)
    (hat : At { s with handle := some object, control := c } c) :
    Inv { s with handle := some object, control := c } := by
  have hclosures : Reload.closures { s with handle := some object, control := c } = s.closures := by
    simp only [Reload.closures, hretired]
  refine ⟨⟨object, rfl, ho.made, ho.alive⟩, hat, ?_, ?_, ?_⟩
  · intro x hx
    rw [mem_references, hclosures]
    exact (h.destroyed x hx).imp_right fun hu hr => hu (mem_references.mpr hr)
  · intro x hx
    rw [mem_references, hclosures] at hx
    exact h.references x (mem_references.mpr hx)
  · intro x
    rw [Reload.shares, hclosures]
    exact h.leases x

-- A listener for the manager's entry is registered.
theorem Inv.register (h : Inv s) {c : ReloadDirect} (hretired : c.retired = s.control.retired)
    (hat : At { s with listener := s.handle, control := c } c) :
    Inv { s with listener := s.handle, control := c } := by
  have hclosures : Reload.closures { s with listener := s.handle, control := c } = s.closures := by
    simp only [Reload.closures, hretired]
  have hreferences : ∀ x, x ∈ Reload.references { s with listener := s.handle, control := c } →
      s.handle = some x ∨ x ∈ s.references := by
    intro x hx
    rw [mem_references, hclosures] at hx
    exact hx.imp_right fun hr => mem_references.mpr (.inr hr)
  obtain ⟨object, hhandle, hmade, halive⟩ := h.handle
  refine ⟨⟨object, hhandle, hmade, halive⟩, hat, ?_, ?_, ?_⟩
  · intro x hx
    refine (h.destroyed x hx).imp_right fun hu hr => ?_
    rcases hreferences x hr with hl | hr
    · obtain rfl := Option.some_inj.mp (hhandle.symm.trans hl)
      exact halive hx
    · exact hu hr
  · intro x hx
    rcases hreferences x hx with hl | hr
    · obtain rfl := Option.some_inj.mp (hhandle.symm.trans hl)
      exact hmade
    · exact h.references x hr
  · intro x
    rw [Reload.shares, hclosures]
    exact h.leases x

theorem Inv.reloadDirect (h : Inv s) {dynamic : Bool} {candidate : Option Bool}
    (ht : s.reloadDirect dynamic candidate = some s') : Inv s' := by
  unfold Reload.reloadDirect at ht
  split at ht
  next current hidle hhandle =>
    split at ht
    · split at ht
      · obtain rfl := Option.some_inj.mp ht
        refine h.moves (Moves.goTo (hidle ▸ rfl)) ⟨hhandle, fun _ ho => by cases ho⟩
      next sameName =>
        obtain rfl := Option.some_inj.mp ht
        obtain ⟨object, hobject, hmade, halive⟩ := h.handle
        have hnew : s.made ∉ s.references := fun hr => Nat.lt_irrefl _ (h.references _ hr)
        have hclosures : Reload.closures { s.onObject s.made fun _ => loadedModule with
            made := s.made + 1, control := .preflight (some s.made) sameName current } =
              s.closures := by
          simp only [Reload.closures, onObject, ReloadDirect.retired, hidle]
        refine ⟨⟨object, hobject, Nat.lt_succ_of_lt hmade, halive⟩, ⟨hhandle, ?_⟩, ?_, ?_, ?_⟩
        · rintro x ⟨⟩
          refine ⟨⟨Nat.lt_succ_self _, fun hd => Nat.lt_irrefl _ (h.destroyed _ hd).1, ?_⟩, ?_⟩
          · intro heq
            obtain rfl := Option.some_inj.mp (hobject.symm.trans heq)
            exact Nat.lt_irrefl _ hmade
          · rw [mem_references, hclosures]
            exact fun hr => hnew (mem_references.mpr hr)
        · intro x hx
          rw [mem_references, hclosures]
          exact ⟨Nat.lt_succ_of_lt (h.destroyed x hx).1,
            fun hr => (h.destroyed x hx).2 (mem_references.mpr hr)⟩
        · intro x hx
          rw [mem_references, hclosures] at hx
          exact Nat.lt_succ_of_lt (h.references x (mem_references.mpr hx))
        · intro x
          rw [Reload.shares, hclosures]
          show (Function.update s.objects s.made loadedModule x).sharedLeases = s.shares.count x
          rw [Function.update_apply]
          split
          next heq =>
            rw [heq, List.count_eq_zero.mpr fun hs => hnew (shares_subset_references hs)]
            rfl
          · exact h.leases x
    · obtain rfl := Option.some_inj.mp ht
      exact h
  · obtain rfl := Option.some_inj.mp ht
    exact h
  · cases ht

-- An object is destroyed when no delivery thread is in `acquireExecutionLease` of it, or on the way
-- there.
def Unfetched (s : Reload) : Step → Prop
  | .advance _ => ∀ object ∈ s.control.destroys, ∀ d ∈ s.deliveries, d.fetched ≠ some object
  | _ => True

instance Unfetched.decidable (s : Reload) : (i : Step) → Decidable (Unfetched s i)
  | .advance _ => inferInstanceAs (Decidable (∀ object ∈ s.control.destroys, ∀ d ∈ s.deliveries,
      d.fetched ≠ some object))
  | .fetch _ | .acquire _ | .prepare _ _ | .emplace _ _ | .takeCommand _ | .execute _
  | .destroyCommand _ | .finishCommand _ | .reloadDirect _ _ => isTrue trivial

theorem Inv.destroy (h : Inv s) {object : ℕ} (hc : s.control = .destroy object)
    (hunfetched : ∀ d ∈ s.deliveries, d.fetched ≠ some object) :
    Inv { s with destroyed := object :: s.destroyed, control := .idle } := by
  have hsealed : Sealed s object := by
    have hat := h.position
    rw [hc] at hat
    exact hat
  have huntouched : object ∉ s.references := by
    intro hr
    rcases mem_references.mp hr with hl | hd | hcl
    · exact hsealed.unregistered hl
    · obtain ⟨d, hd, ho⟩ := List.mem_filterMap.mp hd
      rcases Delivery.fetched_or_granted ho with hf | hg
      · exact hunfetched d hd hf
      · exact hsealed.unleased (List.mem_append_left _ (List.mem_filterMap.mpr ⟨d, hd, hg⟩))
    · exact hsealed.unleased (List.mem_append_right _ hcl)
  have hclosures : Reload.closures { s with
      destroyed := object :: s.destroyed, control := .idle } = s.closures := by
    simp only [Reload.closures, hc, ReloadDirect.retired]
  obtain ⟨current, hhandle, hmade, halive⟩ := h.handle
  refine ⟨⟨current, hhandle, hmade, ?_⟩, trivial, ?_, ?_, ?_⟩
  · rintro (_ | ⟨_, hd⟩)
    · exact hsealed.local' hhandle
    · exact halive hd
  · intro x hx
    rw [mem_references, hclosures]
    rcases List.mem_cons.mp hx with rfl | hx
    · exact ⟨hsealed.made, fun hr => huntouched (mem_references.mpr hr)⟩
    · exact (h.destroyed x hx).imp_right fun hu hr => hu (mem_references.mpr hr)
  · intro x hx
    rw [mem_references, hclosures] at hx
    exact h.references x (mem_references.mpr hx)
  · intro x
    rw [Reload.shares, hclosures]
    exact h.leases x

theorem Inv.at (h : Inv s) {c : ReloadDirect} (hc : s.control = c) : At s c := hc ▸ h.position

-- `load` opens an image or leaves everything as it is.
theorem Inv.openHandle (h : Inv s) {succeeds : Bool} {registering failed : ReloadDirect}
    (hregistering : registering.retired = s.control.retired)
    (hfailed : failed.retired = s.control.retired)
    (hat : ∀ c, c = registering ∨ c = failed → ∀ s', Moves s s' →
      (∀ x, s.handle ≠ some x → s'.objects x = s.objects x) → At s' c) :
    Inv (s.openHandle succeeds registering failed) := by
  unfold Reload.openHandle
  split
  next hnone =>
    exact h.moves (Moves.goTo hfailed) (hat _ (.inr rfl) _ (Moves.goTo hfailed) fun _ _ => rfl)
  next object hobject =>
    split
    · exact h.moves (Moves.goTo hregistering)
        (hat _ (.inl rfl) _ (Moves.goTo hregistering) fun _ _ => rfl)
    · split
      · have hm : Moves s ((s.onObject object fun m => m.openImage.enableExecutions).goTo
            registering) := Moves.onObject object hregistering rfl
        refine h.moves hm (hat _ (.inl rfl) _ hm ?_)
        intro x hx
        exact onObject_of_ne fun heq => hx (heq ▸ hobject)
      · exact h.moves (Moves.goTo hfailed) (hat _ (.inr rfl) _ (Moves.goTo hfailed) fun _ _ => rfl)

-- Closing an image takes no lease away.
theorem Inv.closeImage (h : Inv s) {object : ℕ} {succeeds : Bool} {next : ReloadDirect}
    (ht : s.closeImage object succeeds next = some s')
    (hretired : next.retired = s.control.retired)
    (hat : ∀ s', Moves s s' → (∀ x, (s.objects x).acceptingExecutions = false →
      (s'.objects x).acceptingExecutions = false) → At s' next) : Inv s' := by
  obtain ⟨m, hm, rfl⟩ := Option.map_eq_some_iff.mp ht
  obtain ⟨-, rfl⟩ := CommandModule.acquireExclusive_eq_some hm
  have hmoves : Moves s ((s.onObject object fun _ =>
      if succeeds then CommandModule.releaseExclusive (CommandModule.close
        { s.objects object with exclusiveLease := true })
      else CommandModule.releaseExclusive { s.objects object with exclusiveLease := true }).goTo
        next) := by
    refine Moves.onObject object hretired ?_
    cases succeeds <;> rfl
  refine h.moves hmoves (hat _ hmoves fun x hx => onObject_stopped (fun ha => ?_) hx)
  cases succeeds <;> exact ha

theorem Inv.drainTo (h : Inv s) {name : String} {next : ReloadDirect}
    (ht : s.drainTo name next = some s') (hretired : next.retired = s.control.retired)
    (hat : ∀ s', Moves s s' → (∀ x, s'.objects x = s.objects x) → At s' next) : Inv s' := by
  unfold Reload.drainTo at ht
  split at ht
  · obtain rfl := Option.some_inj.mp ht
    have hmoves : Moves s { s with
        commandAsync := s.commandAsync.unblock name, control := next } :=
      Moves.objects hretired rfl fun _ => rfl
    exact h.moves hmoves (hat _ hmoves fun _ => rfl)
  · exact absurd ht nofun

theorem Shut.moves {outcome : Outcome} (h : Outcome.Shut s outcome) (hs : Moves s s')
    (hstopped : ∀ x, (s.objects x).acceptingExecutions = false →
      (s'.objects x).acceptingExecutions = false) : Outcome.Shut s' outcome := by
  cases outcome with
  | replaced p => exact Sealed.moves h hs (hstopped p)
  | restored f p => exact Spare.moves h hs

theorem Open.shut {outcome : Outcome} (hinv : Inv s) (h : Outcome.Open s outcome)
    (hzero : (s.objects outcome.barred).sharedLeases = 0) : Outcome.Shut s outcome := by
  cases outcome with
  | replaced p => exact Old.sealed h hinv hzero
  | restored f p => exact h

theorem Open.moves {outcome : Outcome} (h : Outcome.Open s outcome) (hs : Moves s s')
    (hstopped : ∀ x, (s.objects x).acceptingExecutions = false →
      (s'.objects x).acceptingExecutions = false) : Outcome.Open s' outcome := by
  cases outcome with
  | replaced p => exact Old.moves h hs (hstopped p h.stopped)
  | restored f p => exact Spare.moves h hs

theorem Moves.unregister {replacement : ℕ} (hc : s.control = .unregister replacement) :
    Moves s { s with listener := none, control := .cancel replacement } := by
  have hclosures : Reload.closures { s with listener := none, control := .cancel replacement } =
      s.closures := by
    simp only [Reload.closures, hc, ReloadDirect.retired]
  refine ⟨rfl, rfl, rfl, fun _ he => (by cases he), ?_, ?_, ?_⟩
  · intro x hx
    rw [mem_references, hclosures] at hx
    exact mem_references.mpr (.inr (hx.resolve_left fun he => by cases he))
  · intro x hx
    rw [Reload.granted, hclosures] at hx
    exact hx
  · intro hl x
    rw [Reload.shares, hclosures]
    exact hl x

theorem Inv.preflight (h : Inv s) {replacement : Option ℕ} {sameName : Bool} {current : ℕ}
    (hc : s.control = .preflight replacement sameName current) {name : String} {succeeds : Bool}
    (ht : s.advance name succeeds = some s') : Inv s' := by
  obtain ⟨hhandle, hspare⟩ := h.at hc
  cases replacement with
  | none =>
    simp only [Reload.advance, hc] at ht
    obtain rfl := Option.some_inj.mp ht
    exact h.moves (Moves.goTo (hc ▸ rfl)) trivial
  | some r =>
    simp only [Reload.advance, hc] at ht
    split at ht
    · obtain rfl := Option.some_inj.mp ht
      have hm : Moves s (s.goTo (.stopReplacement r current)) := Moves.goTo (hc ▸ rfl)
      exact h.moves hm ⟨hhandle, (hspare r rfl).moves hm⟩
    · obtain rfl := Option.some_inj.mp ht
      have hm : Moves s (s.goTo (.leave r)) := Moves.goTo (hc ▸ rfl)
      exact h.moves hm ((hspare r rfl).moves hm).sealed

-- The replacement goes into the manager, and the previous object, which is stopped and has no
-- listener, into a local variable.
theorem Inv.swap (h : Inv s) {replacement : ℕ} (hc : s.control = .exchange replacement)
    {previous : ℕ} (hhandle : s.handle = some previous) :
    Inv { s with handle := some replacement, control := .load previous } := by
  obtain ⟨hspare, hstopped, hsilent⟩ := h.at hc
  obtain ⟨object, hobject, hmade, halive⟩ := h.handle
  obtain rfl := Option.some_inj.mp (hhandle.symm.trans hobject)
  refine h.exchange (hc ▸ rfl) hspare.toOwned
    ⟨⟨⟨hmade, halive, ?_⟩, hstopped previous hhandle, ?_⟩, ?_⟩
  · rintro ⟨⟩
    exact hspare.local' hhandle
  · exact hsilent ▸ nofun
  · rintro x ⟨⟩ hr
    rw [mem_references] at hr
    simp only [Reload.closures, ReloadDirect.retired] at hr
    refine hspare.untouched (mem_references.mpr ?_)
    simp only [Reload.closures, hc, ReloadDirect.retired]
    exact hr

-- The candidate has not been registered, and goes into a local variable again.
theorem Inv.restore (h : Inv s) {previous : ℕ} (hc : s.control = .restore previous)
    {failedCandidate : ℕ} (hhandle : s.handle = some failedCandidate) :
    Inv { s with handle := some previous, control := .stop (.restored failedCandidate previous) } := by
  obtain ⟨hold, hcandidate⟩ := h.at hc
  obtain ⟨object, hobject, hmade, halive⟩ := h.handle
  obtain rfl := Option.some_inj.mp (hhandle.symm.trans hobject)
  refine h.exchange (hc ▸ rfl) hold.toOwned ⟨⟨hmade, halive, ?_⟩, ?_⟩
  · rintro ⟨⟩
    exact hold.local' hhandle
  · intro hr
    rw [mem_references] at hr
    simp only [Reload.closures, ReloadDirect.retired] at hr
    refine hcandidate failedCandidate hhandle (mem_references.mpr ?_)
    simp only [Reload.closures, hc, ReloadDirect.retired]
    exact hr

theorem Inv.advance (h : Inv s) {name : String} {succeeds : Bool}
    (hunfetched : Unfetched s (.advance succeeds)) (ht : s.advance name succeeds = some s') :
    Inv s' := by
  cases hc : s.control with
  | idle =>
    simp only [Reload.advance, hc] at ht
    exact absurd ht nofun
  | preflight r n c => exact h.preflight hc ht
  | stopReplacement r c =>
    simp only [Reload.advance, hc] at ht
    obtain rfl := Option.some_inj.mp ht
    have hat := h.at hc
    have hm : Moves s ((s.onObject r (·.stopExecutions)).goTo (.stopCurrent r c)) :=
      Moves.onObject r (hc ▸ rfl) rfl
    exact h.moves hm ⟨hat.1, hat.2.moves hm⟩
  | stopCurrent r c =>
    simp only [Reload.advance, hc] at ht
    obtain rfl := Option.some_inj.mp ht
    have hat := h.at hc
    have hm : Moves s ((s.onObject c (·.stopExecutions)).goTo (.unregister r)) :=
      Moves.onObject c (hc ▸ rfl) rfl
    refine h.moves hm ⟨hat.2.moves hm, ?_⟩
    intro x hx
    obtain rfl := Option.some_inj.mp (hat.1.symm.trans hx)
    simp [Reload.goTo, Reload.onObject, CommandModule.stopExecutions]
  | unregister r =>
    simp only [Reload.advance, hc] at ht
    obtain rfl := Option.some_inj.mp ht
    have hat := h.at hc
    have hm := Moves.unregister hc
    exact h.moves hm ⟨hat.1.moves hm, hat.2, rfl⟩
  | cancel r =>
    simp only [Reload.advance, hc] at ht
    obtain rfl := Option.some_inj.mp ht
    have hat := h.at hc
    have hm := Moves.cancel (s := s) (hc ▸ rfl) name r
    exact h.moves hm ⟨hat.1.moves hm, hat.2.1, hat.2.2⟩
  | retire r closures =>
    simp only [Reload.advance, hc] at ht
    obtain rfl := Option.some_inj.mp ht
    have hat := h.at hc
    have hm := Moves.retire r hc
    exact h.moves hm ⟨hat.1.moves hm, hat.2.1, hat.2.2⟩
  | exchange r =>
    obtain ⟨p, hhandle, -⟩ := h.handle
    simp only [Reload.advance, hc, hhandle] at ht
    obtain rfl := Option.some_inj.mp ht
    exact h.swap hc hhandle
  | load p =>
    simp only [Reload.advance, hc] at ht
    obtain rfl := Option.some_inj.mp ht
    obtain ⟨hold, hcandidate⟩ := h.at hc
    refine h.openHandle (hc ▸ rfl) (hc ▸ rfl) ?_
    rintro c hcase s' hm hsame
    have hstopped : (s'.objects p).acceptingExecutions = false := by
      rw [hsame p hold.local']
      exact hold.stopped
    rcases hcase with rfl | rfl
    · exact ⟨hold.moves hm hstopped, hcandidate.moves hm⟩
    · exact ⟨hold.moves hm hstopped, hcandidate.moves hm⟩
  | register p =>
    simp only [Reload.advance, hc] at ht
    obtain rfl := Option.some_inj.mp ht
    obtain ⟨hold, -⟩ := h.at hc
    refine h.register (hc ▸ rfl) ⟨?_, hold.stopped, hold.local'⟩
    exact ⟨hold.made, hold.alive, hold.local'⟩
  | restore p =>
    obtain ⟨f, hhandle, -⟩ := h.handle
    simp only [Reload.advance, hc, hhandle] at ht
    obtain rfl := Option.some_inj.mp ht
    exact h.restore hc hhandle
  | cancelAndDrain p =>
    simp only [Reload.advance, hc] at ht
    obtain rfl := Option.some_inj.mp ht
    have hold : Old s p := h.at hc
    have hm : Moves s (s.goTo (.stop (.replaced p))) := Moves.goTo (hc ▸ rfl)
    exact h.moves hm (hold.moves hm hold.stopped)
  | stop o =>
    simp only [Reload.advance, hc] at ht
    obtain rfl := Option.some_inj.mp ht
    have hm : Moves s ((s.onObject o.barred (·.stopExecutions)).goTo (.fence o)) :=
      Moves.onObject o.barred (hc ▸ rfl) rfl
    exact h.moves hm (Open.moves (h.at hc) hm fun x hx => onObject_stopped (fun _ => rfl) hx)
  | fence o =>
    simp only [Reload.advance, hc] at ht
    obtain ⟨m, hm, rfl⟩ := Option.map_eq_some_iff.mp ht
    obtain ⟨hzero, rfl⟩ := CommandModule.acquireExclusive_eq_some hm
    have hshut : Outcome.Shut s o := Open.shut h (h.at hc) hzero
    have hmoves : Moves s ((s.onObject o.barred fun _ =>
        { s.objects o.barred with exclusiveLease := true }).goTo (.fenced o)) :=
      Moves.onObject o.barred (hc ▸ rfl) rfl
    exact h.moves hmoves (Shut.moves hshut hmoves fun x hx => onObject_stopped id hx)
  | fenced o =>
    simp only [Reload.advance, hc] at ht
    obtain rfl := Option.some_inj.mp ht
    have hm : Moves s ((s.onObject o.barred (·.releaseExclusive)).goTo (.drain o)) :=
      Moves.onObject o.barred (hc ▸ rfl) rfl
    exact h.moves hm (Shut.moves (h.at hc) hm fun x hx => onObject_stopped id hx)
  | drain o =>
    simp only [Reload.advance, hc] at ht
    have hshut : Outcome.Shut s o := h.at hc
    refine h.drainTo ht (by cases o <;> exact hc ▸ rfl) ?_
    intro s' hm hsame
    have hshut' := Shut.moves hshut hm fun x hx => by rw [hsame x, hx]
    cases o with
    | replaced p | restored f p => exact hshut'
  | onUnload p =>
    simp only [Reload.advance, hc] at ht
    obtain rfl := Option.some_inj.mp ht
    have hm : Moves s (s.goTo (.removeCallbacks p)) := Moves.goTo (hc ▸ rfl)
    exact h.moves hm (Sealed.moves (h.at hc) hm id)
  | removeCallbacks p =>
    simp only [Reload.advance, hc] at ht
    obtain rfl := Option.some_inj.mp ht
    have hm : Moves s (s.goTo (.unload (.replaced p))) := Moves.goTo (hc ▸ rfl)
    exact h.moves hm (Sealed.moves (h.at hc) hm id)
  | unload o =>
    simp only [Reload.advance, hc] at ht
    have hshut : Outcome.Shut s o := h.at hc
    split at ht
    · obtain rfl := Option.some_inj.mp ht
      have hm : Moves s ((s.onObject o.leaving (·.stopExecutions)).goTo (.close o)) :=
        Moves.onObject o.leaving (hc ▸ rfl) rfl
      exact h.moves hm (Shut.moves hshut hm fun x hx => onObject_stopped (fun _ => rfl) hx)
    · obtain rfl := Option.some_inj.mp ht
      have hm : Moves s (s.goTo (afterUnload o)) :=
        Moves.goTo (by cases o <;> exact hc ▸ rfl)
      have hshut' := Shut.moves hshut hm fun x hx => hx
      cases o with
      | replaced p | restored f p => exact h.moves hm hshut'
  | close o =>
    simp only [Reload.advance, hc] at ht
    have hshut : Outcome.Shut s o := h.at hc
    refine h.closeImage ht (by cases o <;> exact hc ▸ rfl) ?_
    intro s' hm hstopped
    have hshut' := Shut.moves hshut hm hstopped
    cases o with
    | replaced p | restored f p => exact hshut'
  | enable o =>
    obtain ⟨current, hhandle, -⟩ := h.handle
    simp only [Reload.advance, hc, hhandle] at ht
    obtain rfl := Option.some_inj.mp ht
    have hshut : Outcome.Shut s o := h.at hc
    have hm : Moves s ((s.onObject current (·.enableExecutions)).goTo (afterEnable o)) :=
      Moves.onObject current (by cases o <;> exact hc ▸ rfl) rfl
    cases o with
    | replaced p =>
      have hne : p ≠ current := by
        rintro rfl
        exact hshut.local' hhandle
      refine h.moves hm (Sealed.moves hshut hm fun hp => ?_)
      rw [onObject_of_ne hne]
      exact hp
    | restored f p => exact h.moves hm (Spare.moves hshut hm)
  | onReload p =>
    simp only [Reload.advance, hc] at ht
    obtain rfl := Option.some_inj.mp ht
    have hm : Moves s (s.goTo (.leave p)) := Moves.goTo (hc ▸ rfl)
    exact h.moves hm (Sealed.moves (h.at hc) hm id)
  | loadAgain f =>
    simp only [Reload.advance, hc] at ht
    obtain rfl := Option.some_inj.mp ht
    have hspare : Spare s f := h.at hc
    refine h.openHandle (hc ▸ rfl) (hc ▸ rfl) ?_
    rintro c hcase s' hm -
    rcases hcase with rfl | rfl
    · exact hspare.moves hm
    · exact (hspare.moves hm).sealed
  | registerAgain f =>
    simp only [Reload.advance, hc] at ht
    obtain rfl := Option.some_inj.mp ht
    have hspare : Spare s f := h.at hc
    refine h.register (hc ▸ rfl) ?_
    refine Spare.sealed ⟨⟨hspare.made, hspare.alive, hspare.local'⟩, ?_⟩
    intro hr
    rw [mem_references] at hr
    simp only [Reload.closures, ReloadDirect.retired] at hr
    refine hspare.untouched (mem_references.mpr (.inr ?_))
    simp only [Reload.closures, hc, ReloadDirect.retired]
    exact hr.resolve_left hspare.local'
  | abort o => exact absurd (h.at hc) id
  | leave o =>
    simp only [Reload.advance, hc] at ht
    have hsealed : Sealed s o := h.at hc
    split at ht
    · obtain rfl := Option.some_inj.mp ht
      have hm : Moves s ((s.onObject o (·.stopExecutions)).goTo (.finalClose o)) :=
        Moves.onObject o (hc ▸ rfl) rfl
      exact h.moves hm (hsealed.moves hm fun ho => onObject_stopped (fun _ => rfl) ho)
    · obtain rfl := Option.some_inj.mp ht
      have hm : Moves s (s.goTo (.destroy o)) := Moves.goTo (hc ▸ rfl)
      exact h.moves hm (hsealed.moves hm id)
  | finalClose o =>
    simp only [Reload.advance, hc] at ht
    have hsealed : Sealed s o := h.at hc
    exact h.closeImage ht (hc ▸ rfl) fun s' hm hstopped => hsealed.moves hm (hstopped o)
  | destroy o =>
    simp only [Reload.advance, hc] at ht
    obtain rfl := Option.some_inj.mp ht
    exact h.destroy hc (hunfetched o (hc ▸ rfl))

theorem Inv.step (h : Inv s) {name : String} (i : Step) (hunfetched : Unfetched s i)
    (ht : Reload.step name s i = some s') : Inv s' := by
  cases i with
  | fetch t => exact h.follows (Follows.fetch ht)
  | acquire t => exact h.follows (Follows.acquire ht)
  | prepare t succeeds => exact h.follows (Follows.prepare ht)
  | emplace t admission => exact h.follows (Follows.emplace ht)
  | takeCommand w => exact h.follows (Follows.takeCommand ht)
  | execute w => exact h.follows (Follows.execute ht)
  | destroyCommand w => exact h.follows (Follows.destroyCommand ht)
  | finishCommand w => exact h.follows (Follows.finishCommand ht)
  | reloadDirect dynamic candidate => exact h.reloadDirect ht
  | advance succeeds => exact h.advance hunfetched ht

theorem Inv.start (deliveries runners queueSize : ℕ) :
    Inv (start deliveries runners queueSize) := by
  have hreferences : (Reload.start deliveries runners queueSize).references = [0] := by
    simp [Reload.references, Reload.closures, Reload.start, Exec.Async.create,
      List.filterMap_replicate, Delivery.object, Runner.object, ReloadDirect.retired]
  have hshares : (Reload.start deliveries runners queueSize).shares = [] := by
    simp [Reload.shares, Reload.closures, Reload.start, Exec.Async.create,
      List.filterMap_replicate, Delivery.share, Runner.object, ReloadDirect.retired]
  refine ⟨⟨0, rfl, Nat.zero_lt_one, List.not_mem_nil⟩, trivial,
    fun object hd => absurd hd List.not_mem_nil, ?_, ?_⟩
  · rw [hreferences]
    intro object ho
    rw [List.mem_singleton.mp ho]
    exact Nat.zero_lt_one
  · rw [hshares]
    exact fun _ => rfl

theorem dereferences_subset_references {i : Step} {object : ℕ} (h : object ∈ s.dereferences i) :
    object ∈ s.references := by
  have hdelivery : ∀ {t : ℕ} {d : Delivery}, s.deliveries[t]? = some d →
      d.object = some object → object ∈ s.references := fun hd ho =>
    mem_references.mpr (.inr (.inl (List.mem_filterMap.mpr ⟨_, List.mem_of_getElem? hd, ho⟩)))
  have hrunner : ∀ {w : ℕ} {r : Runner}, s.runners[w]? = some r → r.object = some object →
      object ∈ s.references := by
    intro w r hr ho
    refine mem_references.mpr (.inr (.inr ?_))
    exact List.mem_append_left _ (List.mem_append_right _
      (List.mem_filterMap.mpr ⟨r, List.mem_of_getElem? hr, ho⟩))
  cases i with
  | fetch t => exact absurd h List.not_mem_nil
  | acquire t | prepare t succeeds | emplace t admission =>
    simp only [dereferences] at h
    split at h
    next hd => exact hdelivery hd (congrArg some (List.mem_singleton.mp h).symm)
    · exact absurd h List.not_mem_nil
  | takeCommand w => exact absurd h List.not_mem_nil
  | execute w | destroyCommand w =>
    simp only [dereferences] at h
    split at h
    next hr => exact hrunner hr (congrArg some (List.mem_singleton.mp h).symm)
    · exact absurd h List.not_mem_nil
  | finishCommand w | reloadDirect dynamic candidate => exact absurd h List.not_mem_nil
  | advance succeeds =>
    simp only [dereferences] at h
    split at h
    next hc =>
      refine mem_references.mpr (.inr (.inr (List.mem_append_right _ ?_)))
      rw [hc]
      exact h
    · exact absurd h List.not_mem_nil

-- In the runs in which no delivery thread is on the way into `acquireExecutionLease` of an object when
-- that object is destroyed, no captured pointer is used after the destruction of its object.
theorem dereferences_alive (deliveries runners queueSize : ℕ) (name : String) (steps : List Step)
    (s : Reload)
    (hp : Transition.path (step name) (start deliveries runners queueSize) steps = some s)
    (hg : Transition.Guarded (step name) Unfetched (start deliveries runners queueSize) steps) :
    ∀ i, (step name s i).isSome → ∀ object ∈ s.dereferences i, object ∉ s.destroyed := by
  have hinv : Inv s := Transition.path_invariant Inv (fun _ i _ h hi ht => h.step i hi ht)
    (Inv.start deliveries runners queueSize) hg hp
  exact fun i _ object ho hd => (hinv.destroyed object hd).2 (dereferences_subset_references ho)

-- One thread is refused by the old object while another one's closure still runs, and then the
-- listener of the new object is fetched.
def handoverRun : List Step :=
  [.fetch 0, .acquire 0, .fetch 1, .acquire 1, .acquire 1, .acquire 1, .prepare 1 true,
    .emplace 1 .absent, .takeCommand 0, .execute 0, .reloadDirect true (some true), .advance true,
    .advance true, .advance true, .acquire 0, .advance true, .advance true, .advance true,
    .acquire 0, .advance true, .advance true, .advance true, .advance true, .advance true,
    .execute 0, .destroyCommand 0, .advance true, .advance true, .finishCommand 0, .advance true,
    .advance true, .advance true, .advance true, .advance true, .advance true, .advance true,
    .advance true, .advance true, .fetch 0]

theorem dereferences_alive_handoverRun : ∃ s,
    Transition.path (step "a") (start 2 1 4) handoverRun = some s ∧ s.destroyed = [0] ∧
    s.dereferences (.acquire 0) = [1] ∧
    ∀ object ∈ s.dereferences (.acquire 0), object ∉ s.destroyed := by
  obtain ⟨s, hp, hd, hr, hi⟩ := Transition.exists_path (step "a") (start 2 1 4) handoverRun
    (fun s => s.destroyed = [0] ∧ s.dereferences (.acquire 0) = [1] ∧
      (step "a" s (.acquire 0)).isSome) (by decide)
  have hg : Transition.Guarded (step "a") Unfetched (start 2 1 4) handoverRun := by decide
  exact ⟨s, hp, hd, hr, dereferences_alive 2 1 4 "a" handoverRun s hp hg _ hi⟩

-- The listener is fetched, the module is reloaded, and the listener runs.
theorem dereferences_destroyed : ¬∀ (deliveries runners queueSize : ℕ) (name : String)
    (steps : List Step) (s : Reload),
    Transition.path (step name) (start deliveries runners queueSize) steps = some s →
    ∀ i, (step name s i).isSome → ∀ object ∈ s.dereferences i, object ∉ s.destroyed := by
  intro h
  obtain ⟨s, hp, hi, hr, hd⟩ := Transition.exists_path (step "a") (start 1 1 4)
    (.fetch 0 :: .reloadDirect true (some true) :: List.replicate 22 (.advance true))
    (fun s => (step "a" s (.acquire 0)).isSome ∧ 0 ∈ s.dereferences (.acquire 0) ∧
      0 ∈ s.destroyed) (by decide)
  exact h 1 1 4 "a" _ s hp _ hi 0 hr hd

end Reload

end Glider.Modules

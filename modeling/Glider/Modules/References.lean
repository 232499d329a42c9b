import Glider.Lib.Slots
import Glider.Modules.Reload

namespace Glider.Modules

open Glider.Lib

namespace Delivery

-- The captured pointer, the share of the lock, and the lease once it is granted.
def object : Delivery → Option ℕ
  | .idle => none
  | .acquiring object _ => some object
  | .holding object => some object
  | .prepared object => some object

def share : Delivery → Option ℕ
  | .acquiring object .locked => some object
  | .holding object => some object
  | .prepared object => some object
  | _ => none

def granted : Delivery → Option ℕ
  | .holding object => some object
  | .prepared object => some object
  | _ => none

-- The listener has been fetched, and `acquireExecutionLease` has not returned.
def fetched : Delivery → Option ℕ
  | .acquiring object _ => some object
  | _ => none

theorem object_of_share {d : Delivery} {object : ℕ} (h : d.share = some object) :
    d.object = some object := by
  cases d with
  | idle => exact absurd h nofun
  | acquiring o stage =>
    cases stage with
    | locked => exact h
    | called | accepted => exact absurd h nofun
  | holding o | prepared o => exact h

theorem share_of_granted {d : Delivery} {object : ℕ} (h : d.granted = some object) :
    d.share = some object := by
  cases d <;> first | exact h | exact absurd h nofun

theorem fetched_or_granted {d : Delivery} {object : ℕ} (h : d.object = some object) :
    d.fetched = some object ∨ d.granted = some object := by
  cases d with
  | idle => exact absurd h nofun
  | acquiring o stage => exact .inl h
  | holding o | prepared o => exact .inr h

theorem count_share_acquiring (object x : ℕ) (stage : Acquiring) :
    ((Delivery.acquiring object stage).share.toList).count x =
      if object = x then CommandModule.shares stage else 0 := by
  cases stage <;> simp [share, CommandModule.shares, List.count_singleton]

theorem count_share_after (object x : ℕ) (progress : Progress) :
    ((Delivery.after object progress).share.toList).count x =
      if object = x then CommandModule.sharesAfter progress else 0 := by
  cases progress with
  | goesOn next => exact count_share_acquiring object x next
  | granted => simp [after, share, CommandModule.sharesAfter, List.count_singleton]
  | refused => simp [after, share, CommandModule.sharesAfter]

end Delivery

def Runner.object : Runner → Option ℕ
  | .running object => some object
  | _ => none

-- The closures that `cancel` has taken out and not yet destroyed.
def ReloadDirect.retired : ReloadDirect → List ℕ
  | .retire _ closures => closures
  | _ => []

-- The object whose memory the statement gives back.
def ReloadDirect.destroys : ReloadDirect → Option ℕ
  | .destroy object => some object
  | _ => none

@[simp] theorem ReloadDirect.retired_retire (replacement : ℕ) (closures : List ℕ) :
    (ReloadDirect.retire replacement closures).retired = closures := rfl

namespace Reload

def closures (s : Reload) : List ℕ :=
  s.commandAsync.tasks.map Prod.snd ++ s.runners.filterMap Runner.object ++ s.control.retired

def shares (s : Reload) : List ℕ := s.deliveries.filterMap Delivery.share ++ s.closures

def granted (s : Reload) : List ℕ := s.deliveries.filterMap Delivery.granted ++ s.closures

-- Every captured pointer that is still around.
def references (s : Reload) : List ℕ :=
  s.listener.toList ++ s.deliveries.filterMap Delivery.object ++ s.closures

variable {s s' : Reload}

theorem mem_references {object : ℕ} : object ∈ s.references ↔
    s.listener = some object ∨ object ∈ s.deliveries.filterMap Delivery.object ∨
      object ∈ s.closures := by
  simp [references]

theorem granted_subset_shares {object : ℕ} (h : object ∈ s.granted) : object ∈ s.shares := by
  rcases List.mem_append.mp h with h | h
  · obtain ⟨d, hd, hg⟩ := List.mem_filterMap.mp h
    exact List.mem_append_left _ (List.mem_filterMap.mpr ⟨d, hd, Delivery.share_of_granted hg⟩)
  · exact List.mem_append_right _ h

theorem shares_subset_references {object : ℕ} (h : object ∈ s.shares) : object ∈ s.references := by
  rw [mem_references]
  rcases List.mem_append.mp h with h | h
  · obtain ⟨d, hd, hg⟩ := List.mem_filterMap.mp h
    exact .inr (.inl (List.mem_filterMap.mpr ⟨d, hd, Delivery.object_of_share hg⟩))
  · exact .inr (.inr h)

-- What the delivery threads and the workers do. A lease is only granted while executions are accepted.
structure Follows (s s' : Reload) : Prop where
  control : s'.control = s.control
  handle : s'.handle = s.handle
  listener : s'.listener = s.listener
  made : s'.made = s.made
  destroyed : s'.destroyed = s.destroyed
  accepting : ∀ object,
    (s'.objects object).acceptingExecutions = (s.objects object).acceptingExecutions
  references : ∀ object ∈ s'.references, object ∈ s.references
  granted : ∀ object ∈ s'.granted,
    object ∈ s.granted ∨ (s.objects object).acceptingExecutions = true
  leases : (∀ object, (s.objects object).sharedLeases = s.shares.count object) →
    ∀ object, (s'.objects object).sharedLeases = s'.shares.count object

theorem onObject_accepting {object : ℕ} {f : CommandModule → CommandModule}
    (hf : (f (s.objects object)).acceptingExecutions = (s.objects object).acceptingExecutions)
    (x : ℕ) :
    ((s.onObject object f).objects x).acceptingExecutions = (s.objects x).acceptingExecutions := by
  simp only [onObject, Function.update_apply]
  split
  next heq => rw [heq, hf]
  · rfl

-- A delivery thread moves on and the module it has captured changes with it.
theorem Follows.delivery (object : ℕ) (f : CommandModule → CommandModule) {t : ℕ}
    {old new : Delivery} (ht : s.deliveries[t]? = some old)
    (haccepting : (f (s.objects object)).acceptingExecutions =
      (s.objects object).acceptingExecutions)
    (hobject : ∀ x, new.object = some x → old.object = some x ∨ s.listener = some x)
    (hgranted : ∀ x, new.granted = some x →
      old.granted = some x ∨ (s.objects x).acceptingExecutions = true)
    (hleases : ∀ x, old.share.toList.count x ≤ (s.objects x).sharedLeases →
      ((s.onObject object f).objects x).sharedLeases + old.share.toList.count x =
        (s.objects x).sharedLeases + new.share.toList.count x) :
    Follows s ((s.onObject object f).setDelivery t new) := by
  have hmem := List.mem_of_getElem? ht
  refine ⟨rfl, rfl, rfl, rfl, rfl, onObject_accepting haccepting, ?_, ?_, ?_⟩
  · intro x hx
    rw [mem_references] at hx ⊢
    rcases hx with hx | hx | hx
    · exact .inl hx
    · rcases Slots.mem_filterMap_set hx with hn | hx
      · rcases hobject x hn with ho | hl
        · exact .inr (.inl (List.mem_filterMap.mpr ⟨old, hmem, ho⟩))
        · exact .inl hl
      · exact .inr (.inl hx)
    · exact .inr (.inr hx)
  · intro x hx
    rcases List.mem_append.mp hx with hx | hx
    · rcases Slots.mem_filterMap_set hx with hn | hx
      · exact (hgranted x hn).imp_left fun ho =>
          List.mem_append_left _ (List.mem_filterMap.mpr ⟨old, hmem, ho⟩)
      · exact .inl (List.mem_append_left _ hx)
    · exact .inl (List.mem_append_right _ hx)
  · intro hl x
    have hset := Slots.count_filterMap_set Delivery.share ht new x
    have hle : old.share.toList.count x ≤ (s.deliveries.filterMap Delivery.share).count x := by
      obtain ⟨hperm, -⟩ := Slots.filterMap_set_perm Delivery.share ht new
      rw [hperm.count_eq, List.count_append]
      exact Nat.le_add_right _ _
    have hx := hl x
    simp only [shares, List.count_append] at hx ⊢
    have hm := hleases x (by omega)
    show ((s.onObject object f).objects x).sharedLeases =
      ((s.deliveries.set t new).filterMap Delivery.share).count x + s.closures.count x
    omega

theorem onObject_id (s : Reload) (object : ℕ) : s.onObject object id = s := by
  simp [onObject]

theorem Follows.move {t : ℕ} {old new : Delivery} (ht : s.deliveries[t]? = some old)
    (hobject : ∀ x, new.object = some x → old.object = some x ∨ s.listener = some x)
    (hgranted : ∀ x, new.granted = some x →
      old.granted = some x ∨ (s.objects x).acceptingExecutions = true)
    (hshare : new.share = old.share) : Follows s (s.setDelivery t new) := by
  have hs := Follows.delivery 0 id ht rfl hobject hgranted ?_
  · rw [onObject_id] at hs
    exact hs
  · intro x _
    rw [onObject_id, hshare]

-- The lease goes back to the module.
theorem Follows.giveBack {t object : ℕ} {old : Delivery} (ht : s.deliveries[t]? = some old)
    (hshare : old.share = some object) :
    Follows s ((s.onObject object (·.releaseShared 1)).setDelivery t .idle) := by
  refine Follows.delivery object _ ht rfl nofun nofun ?_
  intro x hle
  rw [hshare] at hle ⊢
  simp only [onObject, Function.update_apply]
  split
  next heq =>
    subst heq
    simp only [CommandModule.releaseShared, Option.toList_some, Delivery.share, Option.toList_none,
      List.count_singleton_self, List.count_nil] at hle ⊢
    omega
  next hne =>
    simp [Delivery.share, Ne.symm hne]

theorem Follows.fetch {t : ℕ} (ht : s.fetch t = some s') : Follows s s' := by
  unfold Reload.fetch at ht
  split at ht
  next object hidle hlistener =>
    obtain rfl := Option.some_inj.mp ht
    exact Follows.move hidle (fun x hx => .inr (hlistener.trans hx)) nofun rfl
  · exact absurd ht nofun

theorem Follows.acquire {t : ℕ} (ht : s.acquire t = some s') : Follows s s' := by
  unfold Reload.acquire at ht
  split at ht
  next object stage hd =>
    obtain ⟨⟨progress, m⟩, hm, rfl⟩ := Option.map_eq_some_iff.mp ht
    obtain ⟨haccepting, hgrants⟩ := CommandModule.acquireExecutionLease_flags hm
    have hleases := CommandModule.acquireExecutionLease_leases hm
    refine Follows.delivery object _ hd haccepting ?_ ?_ ?_
    · intro x hx
      cases progress with
      | goesOn next | granted => exact .inl hx
      | refused => exact absurd hx nofun
    · intro x hx
      cases progress with
      | goesOn next => exact absurd hx nofun
      | granted =>
        obtain rfl := Option.some_inj.mp hx
        exact .inr (hgrants rfl)
      | refused => exact absurd hx nofun
    · intro x hle
      rw [Delivery.count_share_acquiring] at hle ⊢
      rw [Delivery.count_share_after]
      simp only [onObject, Function.update_apply]
      by_cases heq : object = x
      · subst heq
        rw [if_pos rfl] at hle
        simp only [if_true]
        exact hleases hle
      · simp only [if_neg heq, if_neg (Ne.symm heq)]
  · exact absurd ht nofun

theorem Follows.prepare {t : ℕ} {succeeds : Bool} (ht : s.prepare t succeeds = some s') :
    Follows s s' := by
  unfold Reload.prepare at ht
  split at ht
  next object hd =>
    split at ht
    · obtain rfl := Option.some_inj.mp ht
      exact Follows.move hd (fun x hx => .inl hx) (fun x hx => .inl hx) rfl
    · obtain rfl := Option.some_inj.mp ht
      exact Follows.giveBack hd rfl
  · exact absurd ht nofun

-- The closures change places, and the leases with them.
theorem Follows.of_perm (hcontrol : s'.control = s.control) (hhandle : s'.handle = s.handle)
    (hlistener : s'.listener = s.listener) (hmade : s'.made = s.made)
    (hdestroyed : s'.destroyed = s.destroyed) (hobjects : s'.objects = s.objects)
    (hreferences : ∀ object ∈ s'.references, object ∈ s.references)
    (hgranted : ∀ object ∈ s'.granted, object ∈ s.granted)
    (hshares : s'.shares.Perm s.shares) : Follows s s' := by
  refine ⟨hcontrol, hhandle, hlistener, hmade, hdestroyed, fun _ => by rw [hobjects], hreferences,
    fun object ho => .inl (hgranted object ho), ?_⟩
  intro hl object
  rw [hobjects, hl object, hshares.count_eq]

theorem Follows.emplaced {t object : ℕ} (ht : s.deliveries[t]? = some (.prepared object))
    {commandAsync : Exec.Async ℕ} {name : String}
    (htasks : commandAsync.tasks = s.commandAsync.tasks ++ [(name, object)]) :
    Follows s { s.setDelivery t .idle with commandAsync := commandAsync } := by
  have hmem := List.mem_of_getElem? ht
  have hclosures : ∀ x,
      x ∈ Reload.closures { s.setDelivery t .idle with commandAsync := commandAsync } →
      x = object ∨ x ∈ s.closures := by
    intro x hx
    simp only [Reload.closures, htasks, List.map_append, List.mem_append, List.map_cons, List.map_nil,
      List.mem_singleton] at hx ⊢
    tauto
  refine Follows.of_perm rfl rfl rfl rfl rfl rfl ?_ ?_ ?_
  · intro x hx
    rw [mem_references] at hx ⊢
    rcases hx with hx | hx | hx
    · exact .inl hx
    · exact .inr (.inl ((Slots.mem_filterMap_set hx).resolve_left nofun))
    · rcases hclosures x hx with rfl | hx
      · exact .inr (.inl (List.mem_filterMap.mpr ⟨_, hmem, rfl⟩))
      · exact .inr (.inr hx)
  · intro x hx
    rcases List.mem_append.mp hx with hx | hx
    · exact List.mem_append_left _ ((Slots.mem_filterMap_set hx).resolve_left nofun)
    · rcases hclosures x hx with rfl | hx
      · exact List.mem_append_left _ (List.mem_filterMap.mpr ⟨_, hmem, rfl⟩)
      · exact List.mem_append_right _ hx
  · rw [List.perm_iff_count]
    intro x
    have hset := Slots.count_filterMap_set Delivery.share ht .idle x
    simp only [Delivery.share, Option.toList_some, Option.toList_none, List.count_nil] at hset
    simp only [shares, Reload.closures, setDelivery, htasks, List.map_append, List.count_append,
      List.map_cons, List.map_nil]
    omega

theorem Follows.emplace {name : String} {t : ℕ} {admission : Exec.Admission}
    (ht : s.emplace name t admission = some s') : Follows s s' := by
  unfold Reload.emplace at ht
  split at ht
  next object hd =>
    rcases s.commandAsync.emplaceTaskIf_cases name object admission with
      ⟨-, -, evaluated, heq⟩ | ⟨attempt, hne, -, -, heq⟩
    · simp only [heq, if_true] at ht
      obtain rfl := Option.some_inj.mp ht
      exact Follows.emplaced hd (Exec.Async.push_tasks ..)
    · simp only [heq, if_neg hne] at ht
      obtain rfl := Option.some_inj.mp ht
      exact Follows.giveBack hd rfl
  · exact absurd ht nofun

theorem Follows.takeCommand {w : ℕ} (ht : s.takeCommand w = some s') : Follows s s' := by
  unfold Reload.takeCommand at ht
  split at ht
  next front commandAsync hw hfront =>
    obtain rfl := Option.some_inj.mp ht
    unfold Exec.Async.takeFront at hfront
    split at hfront
    · exact absurd hfront nofun
    next first rest htasks =>
      obtain ⟨rfl, rfl⟩ := Prod.mk.inj (Option.some_inj.mp hfront)
      have hperm : (Reload.closures { s with
          commandAsync := { s.commandAsync with
            tasks := rest, activeTasks := s.commandAsync.activeTasks.increment first.1 },
          runners := s.runners.set w (.running first.2) }).Perm s.closures := by
        rw [List.perm_iff_count]
        intro x
        have hset := Slots.count_filterMap_set Runner.object hw (.running first.2) x
        simp only [Runner.object, Option.toList_some, Option.toList_none, List.count_nil] at hset
        simp only [Reload.closures, htasks, List.count_append, List.map_cons, List.count_cons,
          List.count_nil] at hset ⊢
        omega
      refine Follows.of_perm rfl rfl rfl rfl rfl rfl ?_ ?_ (hperm.append_left _)
      · exact fun x hx => ((hperm.append_left _).mem_iff).mp hx
      · exact fun x hx => ((hperm.append_left _).mem_iff).mp hx
  · exact absurd ht nofun

theorem Follows.refl (s : Reload) : Follows s s :=
  ⟨rfl, rfl, rfl, rfl, rfl, fun _ => rfl, fun _ => id, fun _ => .inl, id⟩

theorem Follows.execute {w : ℕ} (ht : s.execute w = some s') : Follows s s' := by
  unfold Reload.execute at ht
  split at ht
  · obtain rfl := Option.some_inj.mp ht
    exact Follows.refl s
  · exact absurd ht nofun

theorem Follows.destroyCommand {w : ℕ} (ht : s.destroyCommand w = some s') : Follows s s' := by
  unfold Reload.destroyCommand at ht
  split at ht
  next object hw =>
    obtain rfl := Option.some_inj.mp ht
    have hclosures : ∀ x, x ∈ Reload.closures { s.onObject object (·.releaseShared 1) with
        runners := s.runners.set w .destroyed } → x ∈ s.closures := by
      intro x hx
      simp only [Reload.closures, List.mem_append] at hx ⊢
      refine hx.imp_left (Or.imp_right fun hr => ?_)
      exact (Slots.mem_filterMap_set hr).resolve_left nofun
    refine ⟨rfl, rfl, rfl, rfl, rfl, ?_, ?_, ?_, ?_⟩
    · intro x
      exact onObject_accepting (f := (·.releaseShared 1)) rfl x
    · intro x hx
      rw [mem_references] at hx ⊢
      exact hx.imp_right (Or.imp_right (hclosures x))
    · intro x hx
      rw [Reload.granted, List.mem_append] at hx ⊢
      exact .inl (hx.imp_right (hclosures x))
    · intro hl x
      have hx := hl x
      have hset := Slots.count_filterMap_set Runner.object hw .destroyed x
      simp only [Runner.object, Option.toList_some, Option.toList_none, List.count_nil,
        List.count_singleton] at hset
      simp only [shares, Reload.closures, List.count_append, onObject, Function.update_apply] at hx ⊢
      split
      next heq =>
        subst heq
        simp only [CommandModule.releaseShared, beq_self_eq_true, if_true] at hset ⊢
        omega
      next hne =>
        rw [if_neg (by simpa using Ne.symm hne)] at hset
        omega
  · cases ht

theorem Follows.finishCommand {name : String} {w : ℕ} (ht : s.finishCommand name w = some s') :
    Follows s s' := by
  unfold Reload.finishCommand at ht
  split at ht
  next hw =>
    obtain rfl := Option.some_inj.mp ht
    have hperm : (Reload.closures { s with
        commandAsync := s.commandAsync.finish name,
        runners := s.runners.set w .idle }).Perm s.closures := by
      rw [List.perm_iff_count]
      intro x
      have hset := Slots.count_filterMap_set Runner.object hw .idle x
      simp only [Runner.object, Option.toList_none, List.count_nil] at hset
      simp only [Reload.closures, Exec.Async.finish_tasks, List.count_append] at hset ⊢
      omega
    refine Follows.of_perm rfl rfl rfl rfl rfl rfl ?_ ?_ (hperm.append_left _)
    · exact fun x hx => ((hperm.append_left _).mem_iff).mp hx
    · exact fun x hx => ((hperm.append_left _).mem_iff).mp hx
  · exact absurd ht nofun

end Reload

end Glider.Modules

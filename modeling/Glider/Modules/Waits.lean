import Glider.Modules.Plans

namespace Glider.Modules.Admission

open Glider.Lib Glider.Lib.Threads

variable {policy : Policy} {c c' : Core} {t : ℕ}

-- Everything that an operation can do when it is answered.
inductive Acts (policy : Policy) (c : Core) (t : ℕ) : (op : Op) → Core → op.Answer → Prop where
  | lock (h : c.mutex = none) : Acts policy c t .lock { c with mutex := some t } ()
  | unlock : Acts policy c t .unlock { c with mutex := none } ()
  | find (name : String) : Acts policy c t (.find name) c (c.handles name)
  | loadAccepting (object : ℕ) : Acts policy c t (.loadAccepting object) c (c.accepting object)
  | acquireShared {object : ℕ} {c' : Core} (h : c.acquireShared policy t object = some c') :
      Acts policy c t (.acquireShared object) c' ()
  | releaseShared (object : ℕ) :
      Acts policy c t (.releaseShared object) (c.setShared object (c.shared object - 1)) ()
  | emplace (object : ℕ) (accepted : Bool) :
      Acts policy c t (.emplace object) (c.emplace object accepted) ()
  | stopExecutions (object : ℕ) :
      Acts policy c t (.stopExecutions object) (c.setAccepting object false) ()
  | enableExecutions (object : ℕ) :
      Acts policy c t (.enableExecutions object) (c.setAccepting object true) ()
  | acquireExclusive {object : ℕ} (hshared : c.shared object = 0)
      (hexclusive : c.exclusive object = false) :
      Acts policy c t (.acquireExclusive object) ((c.setExclusive object true).setWriters object
        ((c.writers object).filter (· ≠ t))) ()
  | releaseExclusive (object : ℕ) :
      Acts policy c t (.releaseExclusive object) (c.setExclusive object false) ()
  | makes (object : ℕ) : Acts policy c t (.makeReloadCandidate object) c.makeObject (some c.made)
  | makesNone (object : ℕ) : Acts policy c t (.makeReloadCandidate object) c none
  | exchanges {name : String} {previous : ℕ} (object : ℕ) (h : c.handles name = some previous) :
      Acts policy c t (.exchange name object) (c.setHandle name object) (some previous)
  | exchangesNone {name : String} (object : ℕ) (h : c.handles name = none) :
      Acts policy c t (.exchange name object) c none
  | loads (object : ℕ) :
      Acts policy c t (.load object) ((c.setAccepting object true).setLoaded object true) true
  | loadsNot (object : ℕ) : Acts policy c t (.load object) c false
  | finish (result : Bool) : Acts policy c t (.finish result) { c with control := none } ()
  | beside {op : Op} {answer : op.Answer} {c' : Core} (hop : op.Beside)
      (hmutex : c'.mutex = c.mutex) (hhandles : c'.handles = c.handles)
      (haccepting : c'.accepting = c.accepting) (hexclusive : c'.exclusive = c.exclusive)
      (hwriters : c'.writers = c.writers) (hcontrol : c'.control = c.control)
      (hmade : c'.made = c.made) :
      Acts policy c t op c' answer

theorem acts_of_act {op : Op} {i : Bool} {answer : op.Answer}
    (h : c.act policy t op i = some (c', some answer)) : Acts policy c t op c' answer := by
  cases op with
  | lock =>
    simp only [Core.act] at h
    split at h
    next hfree =>
      cases h
      exact .lock hfree
    · cases h
  | acquireShared object =>
    obtain ⟨c'', hc, heq⟩ := Option.map_eq_some_iff.mp h
    cases heq
    exact .acquireShared hc
  | acquireExclusive object =>
    have heq := Option.some.inj h
    rw [Core.acquireExclusive] at heq
    split at heq
    next hfree =>
      cases heq
      exact .acquireExclusive hfree.1 hfree.2
    · cases heq
  | makeReloadCandidate object =>
    cases i <;> cases h
    · exact .makesNone object
    · exact .makes object
  | exchange name object =>
    simp only [Core.act, Core.exchange] at h
    cases hfound : c.handles name with
    | none =>
      simp only [hfound] at h
      cases h
      exact .exchangesNone object hfound
    | some previous =>
      simp only [hfound] at h
      cases h
      exact .exchanges object hfound
  | load object =>
    simp only [Core.act] at h
    split at h <;> cases h
    · exact .loads object
    · exact .loadsNot object
  | enterImage object =>
    obtain ⟨-, heq⟩ := Option.ite_none_right_eq_some.mp h
    cases heq
    exact .beside trivial rfl rfl rfl rfl rfl rfl rfl
  | check check =>
    cases check <;> cases h <;> exact .beside trivial rfl rfl rfl rfl rfl rfl rfl
  | close object =>
    simp only [Core.act] at h
    split at h <;> cases h <;> exact .beside trivial rfl rfl rfl rfl rfl rfl rfl
  | isLoaded | leaveImage | onCommand | listener | modules | elsewhere =>
    cases h
    exact .beside trivial rfl rfl rfl rfl rfl rfl rfl
  | _ =>
    cases h
    constructor

theorem acquireShared_eq_some {object : ℕ} (h : c.acquireShared policy t object = some c') :
    c' = c.setShared object (c.shared object + 1) := by
  rw [Core.acquireShared] at h
  split at h
  · exact (Option.some.inj h).symm
  · cases h

-- Every object is registered under one name at most.
structure Registry (c : Core) : Prop where
  made : ∀ name object, c.handles name = some object → object < c.made
  once : ∀ name name' object, c.handles name = some object → c.handles name' = some object →
    name = name'

-- What the control thread knows is so.
structure Known (c : Core) (k : Plan) : Prop where
  current : ∀ name object, k.current = some (name, object) → c.handles name = some object
  stopped : ∀ object ∈ k.stopped, c.accepting object = false
  closed : ∀ object ∈ k.closed, c.accepting object = false
  hidden : ∀ object ∈ k.hidden, object < c.made ∧ ∀ name, c.handles name ≠ some object
  exclusive : ∀ object, c.exclusive object = true → k.exclusive = some object

-- Another thread that has the mutex is not about to take a lease on a closed object, and has not
-- found an object that is not registered.
structure Apart (k : Plan) (m : Stage) : Prop where
  closed : m.locked = true → ∀ object ∈ k.closed, m.tested ≠ some object
  hidden : m.locked = true → ∀ object ∈ k.hidden, m.found ≠ some object

-- What a thread under the mutex has found is registered at some time, and only that is looked at.
structure Searches (c : Core) (m : Stage) : Prop where
  tested : ∀ object, m.locked = true → m.tested = some object → m.found = some object
  found : ∀ object, m.locked = true → m.found = some object → object < c.made

section Step

variable {op : Op} {answer : op.Answer} {m : Stage} {k : Plan}

theorem accepting_stopped {object other : ℕ} (h : c.accepting other = false) :
    (c.setAccepting object false).accepting other = false := by
  obtain rfl | hne := eq_or_ne other object
  · exact Function.update_self ..
  · exact (Function.update_of_ne hne ..).trans h

-- A flag that is set again is not one that is relied on.
theorem Known.start (h : Known c k) (object : ℕ) :
    Known (c.setAccepting object true) (k.start object) := by
  have hkept : ∀ {objects : List ℕ}, (∀ other ∈ objects, c.accepting other = false) →
      ∀ other ∈ objects.filter (· ≠ object),
        (c.setAccepting object true).accepting other = false := by
    intro objects hall other hother
    obtain ⟨hmem, hne⟩ := List.mem_filter.mp hother
    exact (Function.update_of_ne (of_decide_eq_true hne) ..).trans (hall other hmem)
  exact ⟨h.current, hkept h.stopped, hkept h.closed, h.hidden, h.exclusive⟩

theorem Known.exchange {name : String} {object previous : ℕ} (h : Known c k)
    (hregistry : Registry c) (hobject : object ∈ k.hidden)
    (hfound : c.handles name = some previous) :
    Known (c.setHandle name object) (k.exchange name object previous) := by
  have hne : object ≠ previous := by
    rintro rfl
    exact (h.hidden object hobject).2 name hfound
  have hhandles : ∀ other, other ≠ object → (∀ name', name' ≠ name → c.handles name' ≠ some other) →
      ∀ name', (c.setHandle name object).handles name' ≠ some other := by
    intro other hother hnot name' heq
    obtain rfl | hname := eq_or_ne name' name
    · have hself : (c.setHandle name' object).handles name' = some object :=
        Function.update_self ..
      exact hother (Option.some.inj (hself.symm.trans heq)).symm
    · exact hnot name' hname ((Function.update_of_ne hname ..).symm.trans heq)
  refine ⟨nofun, h.stopped, fun other hother => ?_, fun other hother => ?_, h.exclusive⟩
  · unfold Plan.exchange at hother
    dsimp only at hother
    split at hother
    next hat =>
      obtain ⟨current, hcurrent, hclosed⟩ := Plan.closedAt_iff.mp hat
      obtain rfl := Option.some.inj ((h.current name current hcurrent).symm.trans hfound)
      rcases List.mem_cons.mp hother with rfl | hother
      · exact h.closed other hclosed
      · exact h.closed other hother
    · exact h.closed other hother
  · rcases List.mem_cons.mp hother with rfl | hother
    · refine ⟨hregistry.made name other hfound, hhandles other hne.symm fun name' hname heq => ?_⟩
      exact hname (hregistry.once name' name other heq hfound)
    · obtain ⟨hmem, hother⟩ := List.mem_filter.mp hother
      obtain ⟨hmade, hnot⟩ := h.hidden other hmem
      exact ⟨hmade, hhandles other (of_decide_eq_true hother) fun name' _ => hnot name'⟩

theorem Known.next (h : Known c k) (hregistry : Registry c)
    (hallows : m.AllowsControl k op) (hacts : Acts policy c t op c' answer) :
    Known c' (k.next m.locked op answer) := by
  cases hacts with
  | lock hfree =>
    refine ⟨h.current, h.stopped, fun object hobject => ?_, h.hidden, h.exclusive⟩
    exact (List.mem_append.mp hobject).elim (h.stopped object) (h.closed object)
  | unlock => exact ⟨h.current, h.stopped, h.closed, h.hidden, h.exclusive⟩
  | find name =>
    refine ⟨fun name' object heq => ?_, h.stopped, h.closed, h.hidden, h.exclusive⟩
    obtain ⟨found, hfound, heq⟩ := Option.map_eq_some_iff.mp heq
    cases heq
    exact hfound
  | loadAccepting object => exact h
  | acquireShared hshared =>
    obtain rfl := acquireShared_eq_some hshared
    exact ⟨h.current, h.stopped, h.closed, h.hidden, h.exclusive⟩
  | releaseShared object => exact ⟨h.current, h.stopped, h.closed, h.hidden, h.exclusive⟩
  | emplace object accepted =>
    cases accepted <;> exact ⟨h.current, h.stopped, h.closed, h.hidden, h.exclusive⟩
  | stopExecutions object =>
    have hself : (c.setAccepting object false).accepting object = false :=
      Function.update_self ..
    have hstopped : ∀ {objects : List ℕ}, (∀ other ∈ objects, c.accepting other = false) →
        ∀ other ∈ object :: objects, (c.setAccepting object false).accepting other = false := by
      intro objects hall
      exact List.forall_mem_cons.mpr
        ⟨hself, fun other hmem => accepting_stopped (hall other hmem)⟩
    refine ⟨h.current, hstopped h.stopped, fun other hother => ?_, h.hidden, h.exclusive⟩
    change other ∈ (if m.locked then object :: k.closed else k.closed) at hother
    split at hother
    · exact hstopped h.closed other hother
    · exact accepting_stopped (h.closed other hother)
  | enableExecutions object => exact h.start object
  | @acquireExclusive object hshared hfree =>
    refine ⟨h.current, h.stopped, h.closed, h.hidden, fun other hexclusive => ?_⟩
    obtain rfl | hne := eq_or_ne other object
    · rfl
    · have hold : c.exclusive other = true :=
        (Function.update_of_ne hne ..).symm.trans hexclusive
      cases (h.exclusive other hold).symm.trans hallows.2.1
  | releaseExclusive object =>
    refine ⟨h.current, h.stopped, h.closed, h.hidden, fun other hexclusive => ?_⟩
    obtain rfl | hne := eq_or_ne other object
    · cases (Function.update_self ..).symm.trans hexclusive
    · have hold : c.exclusive other = true :=
        (Function.update_of_ne hne ..).symm.trans hexclusive
      cases (h.exclusive other hold).symm.trans hallows
      exact absurd rfl hne
  | makes object =>
    have hstart := h.start c.made
    refine ⟨hstart.current, hstart.stopped, hstart.closed, List.forall_mem_cons.mpr ⟨?_, ?_⟩,
      h.exclusive⟩
    · exact ⟨Nat.lt_succ_self _, fun name heq => Nat.lt_irrefl _ (hregistry.made name _ heq)⟩
    · intro other hother
      obtain ⟨hmade, hnot⟩ := h.hidden other hother
      exact ⟨Nat.lt_succ_of_lt hmade, hnot⟩
  | makesNone object => exact h
  | exchanges object hfound => exact h.exchange hregistry hallows.2 hfound
  | exchangesNone object hnone => exact h
  | loads object =>
    have hstart := h.start object
    exact ⟨hstart.current, hstart.stopped, hstart.closed, hstart.hidden, h.exclusive⟩
  | loadsNot object => exact h
  | finish => exact ⟨h.current, h.stopped, h.closed, h.hidden, h.exclusive⟩
  | beside hop hmutex hhandles haccepting hexclusive hwriters hcontrol hmade =>
    have hsame : k.next m.locked op answer = k := by
      cases op <;> first | exact hop.elim | rfl
    rw [hsame]
    refine ⟨?_, ?_, ?_, ?_, hexclusive ▸ h.exclusive⟩
    · rw [hhandles]
      exact h.current
    · rw [haccepting]
      exact h.stopped
    · rw [haccepting]
      exact h.closed
    · rw [hhandles, hmade]
      exact h.hidden

theorem Apart.next (h : Apart k m) (hknown : Known c k) (hacts : Acts policy c t op c' answer) :
    Apart k (m.next op answer) := by
  cases hacts with
  | lock => exact ⟨fun _ _ _ => nofun, fun _ _ _ => nofun⟩
  | unlock => exact ⟨nofun, nofun⟩
  | find name =>
    exact ⟨fun _ _ _ => nofun, fun _ object hobject => (hknown.hidden object hobject).2 name⟩
  | loadAccepting object =>
    refine ⟨fun _ other hother htested => ?_, h.hidden⟩
    obtain ⟨haccepting, heq⟩ := Option.ite_none_right_eq_some.mp htested
    cases heq
    exact Bool.false_ne_true ((hknown.closed object hother).symm.trans haccepting)
  | acquireShared => exact ⟨fun _ _ _ => nofun, h.hidden⟩
  | beside hop =>
    rw [Stage.next_of_beside m hop]
    exact h
  | _ => exact ⟨h.closed, h.hidden⟩

theorem made_le (hacts : Acts policy c t op c' answer) : c.made ≤ c'.made := by
  cases hacts with
  | makes => exact Nat.le_succ _
  | acquireShared hshared =>
    obtain rfl := acquireShared_eq_some hshared
    exact Nat.le_refl _
  | emplace object accepted => cases accepted <;> exact Nat.le_refl _
  | beside hop hmutex hhandles haccepting hexclusive hwriters hcontrol hmade =>
    exact Nat.le_of_eq hmade.symm
  | _ => exact Nat.le_refl _

theorem Searches.mono (h : Searches c m) (hmade : c.made ≤ c'.made) : Searches c' m :=
  ⟨h.tested, fun object hlocked hfound => Nat.lt_of_lt_of_le (h.found object hlocked hfound) hmade⟩

theorem Searches.next (h : Searches c m) (hregistry : Registry c) (hallows : m.Allows op)
    (hacts : Acts policy c t op c' answer) : Searches c' (m.next op answer) := by
  refine Searches.mono (c := c) ?_ (made_le hacts)
  cases hacts with
  | lock => exact ⟨fun _ _ => nofun, fun _ _ => nofun⟩
  | unlock => exact ⟨fun _ => nofun, fun _ => nofun⟩
  | find name => exact ⟨fun _ _ => nofun, fun object _ => hregistry.made name object⟩
  | loadAccepting object =>
    refine ⟨fun other hlocked htested => ?_, h.found⟩
    obtain ⟨-, heq⟩ := Option.ite_none_right_eq_some.mp htested
    cases heq
    exact hallows hlocked
  | acquireShared => exact ⟨fun _ _ => nofun, h.found⟩
  | beside hop =>
    rw [Stage.next_of_beside m hop]
    exact h
  | _ => exact ⟨h.tested, h.found⟩

-- Only a thread that comes to have the mutex, or has it, comes to know more.
theorem subset_of_unlocked (hallows : m.AllowsControl k op) (hlocked : m.locked = false)
    (hop : op ≠ .lock) :
    (k.next m.locked op answer).closed ⊆ k.closed ∧
      (k.next m.locked op answer).hidden ⊆ k.hidden := by
  have hsame : k.closed ⊆ k.closed ∧ k.hidden ⊆ k.hidden :=
    ⟨List.Subset.refl _, List.Subset.refl _⟩
  cases op with
  | lock => exact absurd rfl hop
  | stopExecutions object =>
    rw [hlocked]
    exact hsame
  | enableExecutions object => exact ⟨List.filter_sublist.subset, List.Subset.refl _⟩
  | load object =>
    cases answer with
    | true => exact ⟨List.filter_sublist.subset, List.Subset.refl _⟩
    | false => exact hsame
  | makeReloadCandidate object => exact absurd (hlocked.symm.trans hallows) Bool.false_ne_true
  | exchange name object => exact absurd (hlocked.symm.trans hallows.1) Bool.false_ne_true
  | _ => exact hsame

theorem locked_next (hallows : m.Allows op) (hacts : Acts policy c t op c' answer)
    (hmutex : c.mutex = some t ↔ m.locked = true) :
    (c'.mutex = some t ↔ (m.next op answer).locked = true) ∧
      ∀ u ≠ t, c'.mutex = some u ↔ c.mutex = some u := by
  cases hacts with
  | lock hfree =>
    refine ⟨iff_of_true rfl rfl, fun u hu => ?_⟩
    rw [hfree]
    exact iff_of_false (fun heq => hu (Option.some.inj heq).symm) nofun
  | unlock =>
    refine ⟨iff_of_false nofun Bool.false_ne_true, fun u hu => ?_⟩
    rw [hmutex.mpr hallows]
    exact iff_of_false nofun fun heq => hu (Option.some.inj heq).symm
  | acquireShared hshared =>
    obtain rfl := acquireShared_eq_some hshared
    exact ⟨hmutex, fun _ _ => Iff.rfl⟩
  | emplace object accepted => cases accepted <;> exact ⟨hmutex, fun _ _ => Iff.rfl⟩
  | beside hop hsame =>
    rw [Stage.next_of_beside m hop, hsame]
    exact ⟨hmutex, fun _ _ => Iff.rfl⟩
  | _ => exact ⟨hmutex, fun _ _ => Iff.rfl⟩

-- A thread that is not the control thread leaves what that one knows as it is.
structure Frame (c c' : Core) : Prop where
  handles : c'.handles = c.handles
  accepting : c'.accepting = c.accepting
  exclusive : c'.exclusive = c.exclusive
  control : c'.control = c.control
  made : c'.made = c.made

theorem frame_of_user (hallows : m.Allows op) (hnone : m.control = none)
    (hacts : Acts policy c t op c' answer) : Frame c c' := by
  have hcontrol : ¬∃ k, m.control = some k ∧ m.AllowsControl k op := by
    rintro ⟨k, hk, -⟩
    cases hnone.symm.trans hk
  cases hacts with
  | lock | unlock | find | loadAccepting | releaseShared => exact ⟨rfl, rfl, rfl, rfl, rfl⟩
  | acquireShared hshared =>
    obtain rfl := acquireShared_eq_some hshared
    exact ⟨rfl, rfl, rfl, rfl, rfl⟩
  | emplace object accepted => cases accepted <;> exact ⟨rfl, rfl, rfl, rfl, rfl⟩
  | beside hop hmutex hhandles haccepting hexclusive hwriters hcontrol hmade =>
    exact ⟨hhandles, haccepting, hexclusive, hcontrol, hmade⟩
  | _ => exact absurd hallows hcontrol

theorem Known.of_frame (h : Known c k) (hframe : Frame c c') : Known c' k where
  current := hframe.handles ▸ h.current
  stopped := hframe.accepting ▸ h.stopped
  closed := hframe.accepting ▸ h.closed
  hidden := hframe.handles ▸ hframe.made ▸ h.hidden
  exclusive := hframe.exclusive ▸ h.exclusive

theorem Registry.next (h : Registry c) (hknown : Known c k) (hallows : m.AllowsControl k op)
    (hacts : Acts policy c t op c' answer) : Registry c' := by
  cases hacts with
  | acquireShared hshared =>
    obtain rfl := acquireShared_eq_some hshared
    exact ⟨h.made, h.once⟩
  | emplace object accepted => cases accepted <;> exact ⟨h.made, h.once⟩
  | makes => exact ⟨fun name object hfound => Nat.lt_succ_of_lt (h.made name object hfound), h.once⟩
  | @exchanges name previous object hfound =>
    obtain ⟨hmade, hnot⟩ := hknown.hidden object hallows.2
    have hself : (c.setHandle name object).handles name = some object := Function.update_self ..
    have hother : ∀ name', name' ≠ name → (c.setHandle name object).handles name' =
        c.handles name' := fun name' hne => Function.update_of_ne hne ..
    refine ⟨fun name' other heq => ?_, fun name₁ name₂ other h₁ h₂ => ?_⟩
    · obtain rfl | hne := eq_or_ne name' name
      · cases hself.symm.trans heq
        exact hmade
      · exact h.made name' other ((hother name' hne).symm.trans heq)
    · obtain rfl | hne₁ := eq_or_ne name₁ name
      · obtain rfl | hne₂ := eq_or_ne name₂ name₁
        · rfl
        · cases hself.symm.trans h₁
          exact absurd ((hother name₂ hne₂).symm.trans h₂) (hnot name₂)
      · obtain rfl | hne₂ := eq_or_ne name₂ name
        · cases hself.symm.trans h₂
          exact absurd ((hother name₁ hne₁).symm.trans h₁) (hnot name₁)
        · exact h.once name₁ name₂ other ((hother name₁ hne₁).symm.trans h₁)
            ((hother name₂ hne₂).symm.trans h₂)
  | beside hop hmutex hhandles haccepting hexclusive hwriters hcontrol hmade =>
    exact ⟨hhandles ▸ hmade ▸ h.made, hhandles ▸ h.once⟩
  | _ => exact ⟨h.made, h.once⟩

theorem Registry.of_frame (h : Registry c) (hframe : Frame c c') : Registry c' :=
  ⟨hframe.handles ▸ hframe.made ▸ h.made, hframe.handles ▸ h.once⟩

theorem control_next {k' : Plan} (h : (m.next op answer).control = some k') :
    (∀ result, op ≠ .finish result) ∧
      ∃ k, m.control = some k ∧ k' = k.next m.locked op answer := by
  have hmap : (∀ result, op ≠ .finish result) ∧
      m.control.map (fun k => k.next m.locked op answer) = some k' := by
    cases op <;> first | exact ⟨fun _ => nofun, h⟩ | cases h
  obtain ⟨hop, hmap⟩ := hmap
  obtain ⟨k, hk, rfl⟩ := Option.map_eq_some_iff.mp hmap
  exact ⟨hop, k, hk, rfl⟩

theorem outside_next : (m.next op answer).outside = m.outside := by
  cases op <;> rfl

theorem allowsControl_of_allows (hallows : m.Allows op) (hk : m.control = some k) :
    m.AllowsControl k op := by
  cases op with
  | makeReloadCandidate | exchange | acquireExclusive | releaseExclusive | finish =>
    obtain ⟨k', hk', hcontrol⟩ := hallows
    cases hk.symm.trans hk'
    exact hcontrol
  | _ => exact trivial

theorem control_of_acts (hacts : Acts policy c t op c' answer)
    (hop : ∀ result, op ≠ .finish result) :
    c'.control = c.control := by
  cases hacts with
  | finish result => exact absurd rfl (hop result)
  | acquireShared hshared =>
    obtain rfl := acquireShared_eq_some hshared
    rfl
  | emplace object accepted => cases accepted <;> rfl
  | beside hop hmutex hhandles haccepting hexclusive hwriters hcontrol => exact hcontrol
  | _ => rfl

end Step

-- The state of the manager together with where the threads are.
structure Sound (c : Core) (stages : ℕ → Option Stage) : Prop where
  registry : Registry c
  mutex : ∀ t, c.mutex = some t ↔ ∃ m, stages t = some m ∧ m.locked = true
  control : ∀ t m k, stages t = some m → m.control = some k → c.control = some t
  free : c.control = none → ∀ object, c.exclusive object = false
  inside : ∀ t m, stages t = some m → m.outside = false
  searches : ∀ t m, stages t = some m → Searches c m
  known : ∀ t m k, stages t = some m → m.control = some k → Known c k
  apart : ∀ t u m k m', t ≠ u → stages t = some m → m.control = some k → stages u = some m' →
    Apart k m'

namespace Sound

variable {stages : ℕ → Option Stage} {op : Op} {answer : op.Answer} {m m' : Stage}

-- One thread comes to another stage.
theorem change (h : Sound c stages) (hregistry : Registry c')
    (hmutex : (c'.mutex = some t ↔ m'.locked = true) ∧
      ∀ u ≠ t, c'.mutex = some u ↔ c.mutex = some u)
    (hfree : c'.control = none → ∀ object, c'.exclusive object = false)
    (hinside : m'.outside = false) (hsearches : Searches c' m') (hmade : c.made ≤ c'.made)
    (hown : ∀ k, m'.control = some k → c'.control = some t ∧ Known c' k ∧
      ∀ u ≠ t, ∀ m, stages u = some m → Apart k m)
    (hothers : ∀ u ≠ t, ∀ m k, stages u = some m → m.control = some k →
      c'.control = some u ∧ Known c' k ∧ Apart k m') :
    Sound c' (Function.update stages t (some m')) := by
  have hself : Function.update stages t (some m') t = some m' := Function.update_self ..
  have hother : ∀ u, u ≠ t → Function.update stages t (some m') u = stages u := fun u hu =>
    Function.update_of_ne hu ..
  have hplan : ∀ u m k, Function.update stages t (some m') u = some m → m.control = some k →
      c'.control = some u ∧ Known c' k := by
    intro u m k hstage hk
    obtain rfl | hu := eq_or_ne u t
    · cases hself.symm.trans hstage
      exact ⟨(hown k hk).1, (hown k hk).2.1⟩
    · obtain ⟨hcontrol, hknown, -⟩ := hothers u hu m k ((hother u hu).symm.trans hstage) hk
      exact ⟨hcontrol, hknown⟩
  refine ⟨hregistry, fun u => ?_, fun u m k hstage hk => (hplan u m k hstage hk).1, hfree,
    fun u m hstage => ?_, fun u m hstage => ?_, fun u m k hstage hk => (hplan u m k hstage hk).2,
    fun u v m k m'' huv hstage hk hstage' => ?_⟩
  · obtain rfl | hu := eq_or_ne u t
    · rw [hself, hmutex.1]
      exact ⟨fun hlocked => ⟨m', rfl, hlocked⟩,
        fun ⟨_, heq, hlocked⟩ => Option.some.inj heq ▸ hlocked⟩
    · rw [hother u hu, hmutex.2 u hu]
      exact h.mutex u
  · obtain rfl | hu := eq_or_ne u t
    · cases hself.symm.trans hstage
      exact hinside
    · exact h.inside u m ((hother u hu).symm.trans hstage)
  · obtain rfl | hu := eq_or_ne u t
    · cases hself.symm.trans hstage
      exact hsearches
    · exact (h.searches u m ((hother u hu).symm.trans hstage)).mono hmade
  · obtain rfl | hu := eq_or_ne u t
    · cases hself.symm.trans hstage
      exact (hown k hk).2.2 v huv.symm m'' ((hother v huv.symm).symm.trans hstage')
    · have hold : stages u = some m := (hother u hu).symm.trans hstage
      obtain rfl | hv := eq_or_ne v t
      · cases hself.symm.trans hstage'
        exact (hothers u hu m k hold hk).2.2
      · exact h.apart u v m k m'' huv hold hk ((hother v hv).symm.trans hstage')

-- There is one control thread.
theorem eq_of_control (h : Sound c stages) {t u : ℕ} {k k' : Plan} (ht : stages t = some m)
    (hk : m.control = some k) (hu : stages u = some m') (hk' : m'.control = some k') : u = t :=
  Option.some.inj ((h.control u m' k' hu hk').symm.trans (h.control t m k ht hk))

-- No other thread has the mutex when the control thread takes it or has it.
theorem unlocked (h : Sound c stages) (hstage : stages t = some m)
    (hacts : Acts policy c t op c' answer) (htakes : m.locked = true ∨ op = .lock) {u : ℕ}
    (hu : u ≠ t) (hstage' : stages u = some m') : m'.locked ≠ true := by
  intro hlocked
  have hheld : c.mutex = some u := (h.mutex u).mpr ⟨m', hstage', hlocked⟩
  rcases htakes with hlocked' | rfl
  · have hown : c.mutex = some t := (h.mutex t).mpr ⟨m, hstage, hlocked'⟩
    exact hu (Option.some.inj (hheld.symm.trans hown))
  · cases hacts with
    | lock hfree => cases hfree.symm.trans hheld
    | beside hop => exact hop

theorem free_of_acts {k : Plan} (hbusy : c.control = some t)
    (hknown : Known c k) (hallows : m.AllowsControl k op)
    (hacts : Acts policy c t op c' answer) (hidle : c'.control = none) (object : ℕ) :
    c'.exclusive object = false := by
  by_cases hop : ∃ result, op = .finish result
  · obtain ⟨result, rfl⟩ := hop
    cases hacts with
    | finish =>
      refine Bool.eq_false_iff.mpr fun hexclusive => ?_
      cases (hknown.exclusive object hexclusive).symm.trans hallows.2
    | beside hop => exact hop.elim
  · cases (hidle.symm.trans (control_of_acts hacts (not_exists.mp hop))).trans hbusy

theorem answers (h : Sound c stages) (hstage : stages t = some m) (hallows : m.Allows op)
    (hacts : Acts policy c t op c' answer) :
    Sound c' (Function.update stages t (some (m.next op answer))) := by
  have hself : c.mutex = some t ↔ m.locked = true := by
    rw [h.mutex t, hstage]
    exact ⟨fun ⟨_, heq, hlocked⟩ => Option.some.inj heq ▸ hlocked, fun hlocked => ⟨m, rfl, hlocked⟩⟩
  have hmutex := locked_next hallows hacts hself
  have hinside : (m.next op answer).outside = false := outside_next.trans (h.inside t m hstage)
  have hsearches := (h.searches t m hstage).next h.registry hallows hacts
  cases hcontrol : m.control with
  | none =>
    have hframe := frame_of_user hallows hcontrol hacts
    refine h.change (h.registry.of_frame hframe) hmutex ?_ hinside hsearches (made_le hacts) ?_ ?_
    · rw [hframe.control, hframe.exclusive]
      exact h.free
    · intro k hk
      obtain ⟨-, k', hk', -⟩ := control_next hk
      cases hcontrol.symm.trans hk'
    · intro u hu m' k hstage' hk
      have hknown := h.known u m' k hstage' hk
      refine ⟨hframe.control.trans (h.control u m' k hstage' hk), hknown.of_frame hframe, ?_⟩
      exact (h.apart u t m' k m hu hstage' hk hstage).next hknown hacts
  | some k =>
    have hallows' := allowsControl_of_allows hallows hcontrol
    have hknown := h.known t m k hstage hcontrol
    have hbusy := h.control t m k hstage hcontrol
    refine h.change (h.registry.next hknown hallows' hacts) hmutex ?_ hinside hsearches
      (made_le hacts) ?_ ?_
    · exact free_of_acts hbusy hknown hallows' hacts
    · intro k' hk'
      obtain ⟨hop, k'', hk'', rfl⟩ := control_next hk'
      obtain rfl := Option.some.inj (hcontrol.symm.trans hk'')
      refine ⟨(control_of_acts hacts hop).trans hbusy, hknown.next h.registry hallows' hacts,
        fun u hu m' hstage' => ?_⟩
      by_cases htakes : m.locked = true ∨ op = .lock
      · have hnot := h.unlocked hstage hacts htakes hu hstage'
        exact ⟨fun hlocked => absurd hlocked hnot, fun hlocked => absurd hlocked hnot⟩
      · obtain ⟨hlocked, hop⟩ := not_or.mp htakes
        obtain ⟨hclosed, hhidden⟩ :=
          subset_of_unlocked hallows' (Bool.eq_false_iff.mpr hlocked) hop
        have hapart := h.apart t u m k m' hu.symm hstage hcontrol hstage'
        exact ⟨fun hl object hobject => hapart.closed hl object (hclosed hobject),
          fun hl object hobject => hapart.hidden hl object (hhidden hobject)⟩
    · intro u hu m' k' hstage' hk'
      exact absurd (h.eq_of_control hstage hcontrol hstage' hk') hu

theorem begins {call : Call} (h : Sound c stages) (hnew : stages t = none)
    (hbegins : c.begins t false call = some c') :
    Sound c' (Function.update stages t (some (discipline.start call))) := by
  have hmutex : (c.mutex = some t ↔ false = true) ∧
      ∀ u ≠ t, c.mutex = some u ↔ c.mutex = some u := by
    refine ⟨iff_of_false (fun heq => ?_) Bool.false_ne_true, fun _ _ => Iff.rfl⟩
    obtain ⟨m, hstage, -⟩ := (h.mutex t).mp heq
    cases hnew.symm.trans hstage
  have hsearches : ∀ {c : Core} {leases : List ℕ} {control : Option Plan},
      Searches c (.create leases control) := ⟨fun _ => nofun, fun _ => nofun⟩
  have hapart : ∀ {k : Plan} {leases : List ℕ} {control : Option Plan},
      Apart k (.create leases control) := ⟨nofun, nofun⟩
  -- a call that is not for the control thread
  have huser : ∀ leases, Frame c c' → c'.mutex = c.mutex →
      Sound c' (Function.update stages t (some (.create leases none))) := by
    intro leases hframe hsame
    refine h.change (h.registry.of_frame hframe) (hsame ▸ hmutex) ?_ rfl hsearches
      (Nat.le_of_eq hframe.made.symm) nofun fun u hu m k hstage hk => ?_
    · rw [hframe.control, hframe.exclusive]
      exact h.free
    · exact ⟨hframe.control.trans (h.control u m k hstage hk),
        (h.known u m k hstage hk).of_frame hframe, hapart⟩
  have hcontrol : ∀ hfree : c.control = none, c' = { c with control := some t } →
      Sound c' (Function.update stages t (some (.create [] (some .empty)))) := by
    rintro hfree rfl
    refine h.change ⟨h.registry.made, h.registry.once⟩ hmutex nofun rfl hsearches
      (Nat.le_refl _) ?_ fun u hu m k hstage hk => ?_
    · rintro k ⟨⟩
      refine ⟨rfl, ⟨nofun, nofun, nofun, nofun, fun object hexclusive => ?_⟩, fun _ _ _ _ =>
        ⟨fun _ => nofun, fun _ => nofun⟩⟩
      cases (h.free hfree object).symm.trans hexclusive
    · cases hfree.symm.trans (h.control u m k hstage hk)
  cases call with
  | deliver name | host script =>
    cases hbegins
    exact huser [] ⟨rfl, rfl, rfl, rfl, rfl⟩ rfl
  | run object script =>
    obtain ⟨-, heq⟩ := Option.ite_none_right_eq_some.mp hbegins
    cases heq
    exact huser [object] ⟨rfl, rfl, rfl, rfl, rfl⟩ rfl
  | unload name | reload name =>
    obtain ⟨hfree, heq⟩ := Option.ite_none_right_eq_some.mp hbegins
    exact hcontrol hfree (Option.some.inj heq).symm
  | destroy => cases hbegins

end Sound

section World

variable {w w' : World}

theorem waits_eq_some {op : Op} {i : Bool} (h : c.act policy t op i = some (c', none)) :
    ∃ object, op = .acquireExclusive object ∧
      c' = c.setWriters object ((c.writers object).insert t) := by
  cases op with
  | acquireExclusive object =>
    have heq := Option.some.inj h
    rw [Core.acquireExclusive] at heq
    split at heq
    · cases heq
    · cases heq
      exact ⟨object, rfl, rfl⟩
  | acquireShared object =>
    obtain ⟨c'', hc, heq⟩ := Option.map_eq_some_iff.mp h
    cases heq
  | check check => cases check <;> cases h
  | _ => (simp only [Core.act] at h; repeat' split at h) <;> cases h

theorem writers_of_acts {op : Op} {answer : op.Answer} (hacts : Acts policy c t op c' answer)
    {object u : ℕ} (hu : u ∈ c'.writers object) :
    u ∈ c.writers object ∧ (op = .acquireExclusive object → u ≠ t) := by
  cases hacts with
  | @acquireExclusive other hshared hexclusive =>
    obtain rfl | hne := eq_or_ne object other
    · have hself : ((c.setExclusive object true).setWriters object
          ((c.writers object).filter (· ≠ t))).writers object =
            (c.writers object).filter (· ≠ t) := Function.update_self ..
      rw [hself] at hu
      obtain ⟨hmem, hother⟩ := List.mem_filter.mp hu
      exact ⟨hmem, fun _ => of_decide_eq_true hother⟩
    · have hold : ((c.setExclusive other true).setWriters other
          ((c.writers other).filter (· ≠ t))).writers object = c.writers object :=
        Function.update_of_ne hne ..
      exact ⟨hold ▸ hu, fun heq => absurd (Op.acquireExclusive.inj heq).symm hne⟩
  | acquireShared hshared =>
    obtain rfl := acquireShared_eq_some hshared
    exact ⟨hu, nofun⟩
  | emplace object accepted => cases accepted <;> exact ⟨hu, nofun⟩
  | beside hop hmutex hhandles haccepting hexclusive hwriters =>
    refine ⟨hwriters ▸ hu, ?_⟩
    rintro rfl
    exact hop.elim
  | _ => exact ⟨hu, nofun⟩

theorem Sound.of_waits {stages : ℕ → Option Stage} (h : Sound c stages) (object : ℕ)
    (writers : List ℕ) : Sound (c.setWriters object writers) stages where
  registry := ⟨h.registry.made, h.registry.once⟩
  mutex := h.mutex
  control := h.control
  free := h.free
  inside := h.inside
  searches u m hstage := ⟨(h.searches u m hstage).tested, (h.searches u m hstage).found⟩
  known u m k hstage hk := (h.known u m k hstage hk).of_frame ⟨rfl, rfl, rfl, rfl, rfl⟩
  apart := h.apart

-- What holds in every state that a run leads to.
structure Orderly (w : World) : Prop where
  follows : discipline.Follows w
  sound : Sound w.shared (discipline.stage w)
  writers : ∀ object, ∀ u ∈ w.shared.writers object, w.asks u = some (.acquireExclusive object)

theorem Orderly.initial (hstart : c.Start) : Orderly (Threads.initial c) := by
  have hno : ∀ {t : ℕ} {m : Stage}, discipline.stage (Threads.initial c : World) t ≠ some m :=
    fun heq => Option.some_ne_none _ heq.symm
  refine ⟨Discipline.Follows.initial c, ⟨⟨hstart.made, hstart.apart⟩, fun t => ?_, ?_,
    fun _ => hstart.exclusive, ?_, ?_, ?_, ?_⟩, fun object u hu => ?_⟩
  · exact iff_of_false (fun heq => nomatch hstart.mutex.symm.trans heq) fun ⟨m, hm, _⟩ => hno hm
  · exact fun t m k hm => absurd hm hno
  · exact fun t m hm => absurd hm hno
  · exact fun t m hm => absurd hm hno
  · exact fun t m k hm => absurd hm hno
  · exact fun t u m k m' htu hm => absurd hm hno
  · have hnone : c.writers object = [] := hstart.writers object
    have hu : u ∈ c.writers object := hu
    rw [hnone] at hu
    exact absurd hu List.not_mem_nil

theorem Orderly.of_step (h : Orderly w) {i : Move Call Bool}
    (hstep : step (system policy false) w i = some w') : Orderly w' := by
  have hfollows := h.follows.of_step (governs policy false) hstep
  cases Discipline.moves_of_step h.follows hstep with
  | begins hbegins =>
    rename_i call shared
    refine ⟨hfollows, ?_, fun object u hu => ?_⟩
    · rw [Discipline.stages_begun]
      exact h.sound.begins (h.follows.fresh _ (Nat.le_refl _)).2 hbegins
    · have hold : u ∈ w.shared.writers object := by
        cases call with
        | deliver name | host script =>
          cases hbegins
          exact hu
        | run object script =>
          obtain ⟨-, heq⟩ := Option.ite_none_right_eq_some.mp hbegins
          cases heq
          exact hu
        | unload name | reload name =>
          obtain ⟨-, heq⟩ := Option.ite_none_right_eq_some.mp hbegins
          cases heq
          exact hu
        | destroy => cases hbegins
      have hasks := h.writers object u hold
      have hne : u ≠ w.started := by
        rintro rfl
        have hnone := (h.follows.fresh _ (Nat.le_refl w.started)).1
        rw [Threads.asks, hnone] at hasks
        cases hasks
      exact (asks_congr (Discipline.running_begun_of_ne hne ..)).trans hasks
  | answers hstage hallows hact hrunning =>
    rename_i t i op next shared answer m
    have hacts := acts_of_act hact
    have hallows' : m.Allows op := by
      refine hallows.resolve_left fun hout => ?_
      exact Bool.false_ne_true ((h.sound.inside t m hstage).symm.trans hout)
    refine ⟨hfollows, ?_, fun object u hu => ?_⟩
    · rw [Discipline.stages_answers hstage]
      exact h.sound.answers hstage hallows' hacts
    · obtain ⟨hold, hother⟩ := writers_of_acts hacts hu
      have hasks := h.writers object u hold
      have hne : u ≠ t := by
        rintro rfl
        exact hother (Option.some.inj ((asks_of_running hrunning).symm.trans hasks)) rfl
      exact (asks_congr (Discipline.running_record_of_ne hne)).trans hasks
  | waits hstage hallows hact hrunning =>
    rename_i t i op shared m
    obtain ⟨object, rfl, rfl⟩ := waits_eq_some hact
    obtain ⟨next, hrunning⟩ := hrunning
    refine ⟨hfollows, h.sound.of_waits object _, fun other u hu => ?_⟩
    obtain rfl | hne := eq_or_ne other object
    · have hself : (w.shared.setWriters other ((w.shared.writers other).insert t)).writers other =
          (w.shared.writers other).insert t := Function.update_self ..
      have hu : u ∈ (w.shared.writers other).insert t := hself ▸ hu
      rcases List.mem_insert_iff.mp hu with rfl | hold
      · exact asks_of_running hrunning
      · exact h.writers other u hold
    · have hsame : (w.shared.setWriters object ((w.shared.writers object).insert t)).writers
          other = w.shared.writers other := Function.update_of_ne hne ..
      exact h.writers other u (hsame ▸ hu)
  | ends hstage hpost =>
    rename_i t result m
    have hstages : discipline.stage (w.record t (.ends result) none w.shared) =
        discipline.stage w := funext fun u => Discipline.stage_ends ..
    refine ⟨hfollows, ?_, fun object u hu => ?_⟩
    · have hsound := h.sound
      rw [← hstages] at hsound
      exact hsound
    · have hasks := h.writers object u hu
      have hne : u ≠ t := by
        rintro rfl
        cases (asks_of_ends hstep).symm.trans hasks
      exact (asks_congr (Discipline.running_record_of_ne hne)).trans hasks
  | hangsUp hstage hhangs hrunning => cases hhangs

theorem orderly_of_path (hstart : c.Start) {steps : List (Move Call Bool)}
    (hpath : Transition.path (step (system policy false)) (Threads.initial c) steps = some w) :
    Orderly w :=
  Transition.path_invariant_of_step Orderly (fun _ _ _ h hstep => h.of_step hstep)
    (.initial hstart) hpath

theorem Orderly.allows (h : Orderly w) {u : ℕ} {op : Op} (hasks : w.asks u = some op) :
    ∃ m, discipline.stage w u = some m ∧ m.Allows op := by
  obtain ⟨m, hstage, hallows⟩ := Discipline.allows_of_asks h.follows hasks
  refine ⟨m, hstage, hallows.resolve_left fun hout => ?_⟩
  exact Bool.false_ne_true ((h.sound.inside u m hstage).symm.trans hout)

-- The thread that waits for an exclusive lease is the control thread, outside of a section.
theorem Orderly.unloading (h : Orderly w) {u object : ℕ}
    (hu : w.asks u = some (.acquireExclusive object)) :
    ∃ m k, discipline.stage w u = some m ∧ m.control = some k ∧ m.locked = false ∧
      k.exclusive = none ∧ (object ∈ k.closed ∨ object ∈ k.hidden) := by
  obtain ⟨m, hstage, k, hk, hlocked, hnone, hobject⟩ := h.allows hu
  exact ⟨m, k, hstage, hk, hlocked, hnone, hobject⟩

variable {u object : ℕ}

theorem Orderly.free_of_unloading (h : Orderly w) (hu : w.asks u = some (.acquireExclusive object))
    {other : ℕ} (hother : other ≠ object) :
    w.shared.exclusive other = false ∧ w.shared.writers other = [] := by
  obtain ⟨m, k, hstage, hk, -, hnone, -⟩ := h.unloading hu
  constructor
  · refine Bool.eq_false_iff.mpr fun hexclusive => ?_
    cases ((h.sound.known u m k hstage hk).exclusive other hexclusive).symm.trans hnone
  · refine List.eq_nil_iff_forall_not_mem.mpr fun v hv => ?_
    have hasks := h.writers other v hv
    obtain ⟨m', k', hstage', hk', -⟩ := h.unloading hasks
    obtain rfl := h.sound.eq_of_control hstage hk hstage' hk'
    exact hother (Op.acquireExclusive.inj (Option.some.inj (hasks.symm.trans hu)))

-- The owner of the mutex waits for nothing.
theorem Orderly.owner_goes_on (h : Orderly w) (hpolicy : policy.Documented)
    (hu : w.asks u = some (.acquireExclusive object)) {v : ℕ} (hv : w.shared.mutex = some v) :
    v ≠ u ∧ w.asks v ≠ some .lock ∧ (∀ other, w.asks v ≠ some (.acquireExclusive other)) ∧
      ∀ other, w.asks v = some (.acquireShared other) →
        other ≠ object ∧ (w.shared.acquireShared policy v other).isSome = true := by
  obtain ⟨m, k, hstage, hk, hunlocked, hnone, hobject⟩ := h.unloading hu
  obtain ⟨m', hstage', hlocked⟩ := (h.sound.mutex v).mp hv
  have hne : v ≠ u := by
    rintro rfl
    cases hstage.symm.trans hstage'
    exact Bool.false_ne_true (hunlocked.symm.trans hlocked)
  refine ⟨hne, fun hasks => ?_, fun other hasks => ?_, fun other hasks => ?_⟩
  · obtain ⟨m'', hstage'', hfree⟩ := h.allows hasks
    cases hstage'.symm.trans hstage''
    exact Bool.false_ne_true (hfree.symm.trans hlocked)
  · obtain ⟨m'', k'', hstage'', hk'', -⟩ := h.unloading hasks
    exact hne (h.sound.eq_of_control hstage hk hstage'' hk'')
  · obtain ⟨m'', hstage'', htested, -⟩ := h.allows hasks
    cases hstage'.symm.trans hstage''
    have hapart := h.sound.apart u v m k m' hne.symm hstage hk hstage'
    have hother : other ≠ object := by
      rintro rfl
      rcases hobject with hclosed | hhidden
      · exact hapart.closed hlocked other hclosed htested
      · exact hapart.hidden hlocked other hhidden
          ((h.sound.searches v m' hstage').tested other hlocked htested)
    obtain ⟨hexclusive, hwriters⟩ := h.free_of_unloading hu hother
    refine ⟨hother, ?_⟩
    rw [Core.acquireShared, if_pos ⟨hexclusive, hpolicy _ v other hexclusive hwriters⟩]
    rfl

-- The shared leases that a thread holds.
def leases (w : World) (t : ℕ) : List ℕ := ((discipline.stage w t).map Stage.leases).getD []

-- While a module is unloaded or reloaded, no thread that holds a lease of it waits for a lease, and
-- the mutex is with a thread that waits for nothing.
theorem no_lease_deadlock (policy : Policy) (hpolicy : policy.Documented) (c : Core)
    (hstart : c.Start) (steps : List (Move Call Bool)) (w : World)
    (hpath : Transition.path (step (system policy false)) (Threads.initial c) steps = some w)
    (u object : ℕ) (hu : w.asks u = some (.acquireExclusive object)) :
    (∀ t, object ∈ leases w t → ∀ other, w.asks t = some (.acquireShared other) →
      other ≠ object ∧ (w.shared.acquireShared policy t other).isSome = true) ∧
      ∀ v, w.shared.mutex = some v → v ≠ u ∧ w.asks v ≠ some .lock ∧
        (∀ other, w.asks v ≠ some (.acquireExclusive other)) ∧
        ∀ other, w.asks v = some (.acquireShared other) →
          other ≠ object ∧ (w.shared.acquireShared policy v other).isSome = true := by
  have h := orderly_of_path hstart hpath
  refine ⟨fun t ht other hasks => ?_, fun v hv => h.owner_goes_on hpolicy hu hv⟩
  obtain ⟨m, hstage, htested, hlease⟩ := h.allows hasks
  have hmem : object ∈ m.leases := by
    rw [leases, hstage] at ht
    exact ht
  have hlocked : m.locked = true :=
    hlease.resolve_right fun hnil => List.not_mem_nil (hnil ▸ hmem)
  have howner : w.shared.mutex = some t := (h.sound.mutex t).mpr ⟨m, hstage, hlocked⟩
  exact (h.owner_goes_on hpolicy hu howner).2.2.2 other hasks

section Run

-- A mutex that lets no reader in behind a thread that waits for the exclusive lease.
def writersFirst : Policy where
  admits c _ object := (c.writers object).isEmpty

theorem writersFirst_documented : writersFirst.Documented := by
  intro c t object _ hwriters
  change (c.writers object).isEmpty = true
  rw [hwriters]
  rfl

def oneModule : Core where
  mutex := none
  names := ["m"]
  handles name := if name = "m" then some 0 else none
  listeners name := if name = "m" then some 0 else none
  accepting _ := true
  dynamic _ := true
  loaded _ := true
  image _ := none
  shared _ := 0
  queued _ := 0
  exclusive _ := false
  writers _ := []
  control := none
  made := 1

theorem oneModule_start : oneModule.Start where
  mutex := rfl
  control := rfl
  exclusive _ := rfl
  writers _ := rfl
  made name object h := by
    obtain ⟨-, heq⟩ := Option.ite_none_right_eq_some.mp h
    cases heq
    exact Nat.zero_lt_one
  apart name name' object h h' := by
    obtain ⟨rfl, -⟩ := Option.ite_none_right_eq_some.mp h
    exact (Option.ite_none_right_eq_some.mp h').1.symm

def acts (t count : ℕ) : List (Move Call Bool) := List.replicate count (.acts t true)

def delivery (t : ℕ) : List (Move Call Bool) := .begins (.deliver "m") :: acts t 6

-- Two workers have a lease; the first one is in `submitWork` when the other one calls it too.
def twoWorkers : List (Move Call Bool) :=
  delivery 0 ++ delivery 1 ++
    [.begins (.run 0 [.submitWork "m"]), .begins (.run 0 [.submitWork "m"])] ++
    .begins (.unload "m") :: acts 4 8 ++ acts 2 1

theorem no_lease_deadlock_two_workers :
    ∃ w, Transition.path (step (system writersFirst false)) (Threads.initial oneModule) twoWorkers =
        some w ∧ w.asks 4 = some (.acquireExclusive 0) ∧
      (∀ t, 0 ∈ leases w t → ∀ other, w.asks t = some (.acquireShared other) →
        other ≠ 0 ∧ (w.shared.acquireShared writersFirst t other).isSome = true) ∧
      ∀ v, w.shared.mutex = some v → v ≠ 4 ∧ w.asks v ≠ some .lock ∧
        (∀ other, w.asks v ≠ some (.acquireExclusive other)) ∧
        ∀ other, w.asks v = some (.acquireShared other) →
          other ≠ 0 ∧ (w.shared.acquireShared writersFirst v other).isSome = true :=
  ⟨_, rfl, rfl, no_lease_deadlock writersFirst writersFirst_documented oneModule oneModule_start
    twoWorkers _ rfl 4 0 rfl⟩

theorem worker_waits_for_mutex :
    ¬∀ (policy : Policy) (c : Core) (steps : List (Move Call Bool)) (w : World),
      policy.Documented → c.Start →
      Transition.path (step (system policy false)) (Threads.initial c) steps = some w →
      ∀ u object t, w.asks u = some (.acquireExclusive object) → object ∈ leases w t →
        w.asks t ≠ some (.acquireShared object) ∧
          (w.asks t = some .lock → w.shared.mutex = none) := by
  intro h
  have hwaits := h writersFirst oneModule twoWorkers _ writersFirst_documented oneModule_start rfl
    4 0 3 rfl (by decide)
  exact nomatch hwaits.2 rfl

-- The destructor of the manager does not take the mutex: a worker that is about to take a second
-- lease waits behind it for good.
example : ∃ w, Transition.path (step (system writersFirst true)) (Threads.initial oneModule)
      (delivery 0 ++ [.begins (.run 0 [.submitWork "m"])] ++ acts 1 6 ++ [.begins .destroy] ++
        acts 2 7) = some w ∧
    w.asks 2 = some (.acquireExclusive 0) ∧ 0 ∈ leases w 1 ∧ w.asks 1 = some (.acquireShared 0) ∧
      (w.shared.acquireShared writersFirst 1 0).isSome = false :=
  ⟨_, rfl, rfl, by decide, rfl, rfl⟩

end Run

end World

end Glider.Modules.Admission

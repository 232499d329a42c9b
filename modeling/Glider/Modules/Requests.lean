import Glider.Modules.Admission

namespace Glider.Modules.Admission

open Glider.Lib Glider.Lib.Threads

-- What the control requests are about: the map of the manager, the objects that the command
-- listeners have captured, and the flags of the objects.
structure Catalog where
  names : List String
  handles : String → Option ℕ
  listeners : String → Option ℕ
  accepting : ℕ → Bool
  dynamic : ℕ → Bool
  loaded : ℕ → Bool
  made : ℕ

def Core.catalog (c : Core) : Catalog where
  names := c.names
  handles := c.handles
  listeners := c.listeners
  accepting := c.accepting
  dynamic := c.dynamic
  loaded := c.loaded
  made := c.made

namespace Catalog

variable (s : Catalog) (name : String) (object : ℕ)

structure Active : Prop where
  loaded : s.loaded object = true
  accepting : s.accepting object = true
  listener : s.listeners name = some object

structure Inactive : Prop where
  loaded : s.loaded object = false
  accepting : s.accepting object = false
  listener : s.listeners name = none

def Settled : Prop := s.Active name object ∨ s.Inactive name object

-- Every managed dynamic module is active or inactive.
def Whole : Prop :=
  ∀ name object, s.handles name = some object → s.dynamic object = true → s.Settled name object

def setAccepting (accepting : Bool) : Catalog :=
  { s with accepting := Function.update s.accepting object accepting }

def setLoaded (loaded : Bool) : Catalog :=
  { s with loaded := Function.update s.loaded object loaded }

def setHandle : Catalog :=
  { s with handles := Function.update s.handles name (some object) }

def setListener (listener : Option ℕ) : Catalog :=
  { s with listeners := Function.update s.listeners name listener }

def makeObject : Catalog :=
  { (s.setAccepting s.made true).setLoaded s.made true with
    dynamic := Function.update s.dynamic s.made true
    made := s.made + 1 }

-- What an operation with this answer makes of the modules. `close` leaves no image when no other
-- thread has the object's mutex.
def next (s : Catalog) : (op : Op) → op.Answer → Catalog
  | .stopExecutions object, _ => s.setAccepting object false
  | .enableExecutions object, _ => s.setAccepting object true
  | .makeReloadCandidate _, some _ => s.makeObject
  | .exchange name object, some _ => s.setHandle name object
  | .load object, true => (s.setAccepting object true).setLoaded object true
  | .close object, _ => s.setLoaded object false
  | .onCommand name object, _ => s.setListener name object
  | _, _ => s

-- What the control thread is answered.
def Answers (s : Catalog) : (op : Op) → op.Answer → Prop
  | .find name, found => found = s.handles name
  | .exchange name _, found => found = s.handles name
  | .isLoaded object, loaded => loaded = s.loaded object
  | .check (.isDynamic object), isDynamic => isDynamic = s.dynamic object
  | .makeReloadCandidate _, some object => object = s.made
  | .close object, closed => closed = s.loaded object
  | _, _ => True

-- Nothing changes but what is known under these names and what these objects are like.
structure Beside (names : List String) (objects : List ℕ) (s s' : Catalog) : Prop where
  handles : ∀ name ∉ names, s'.handles name = s.handles name
  listeners : ∀ name ∉ names, s'.listeners name = s.listeners name
  accepting : ∀ object ∉ objects, s'.accepting object = s.accepting object
  dynamic : ∀ object ∉ objects, s'.dynamic object = s.dynamic object
  loaded : ∀ object ∉ objects, s'.loaded object = s.loaded object

namespace Beside

variable {names : List String} {objects : List ℕ} {s s' s'' : Catalog} {name : String} {object : ℕ}

theorem refl : s.Beside names objects s :=
  ⟨fun _ _ => rfl, fun _ _ => rfl, fun _ _ => rfl, fun _ _ => rfl, fun _ _ => rfl⟩

theorem trans (h : s.Beside names objects s') (h' : s'.Beside names objects s'') :
    s.Beside names objects s'' where
  handles name hname := (h'.handles name hname).trans (h.handles name hname)
  listeners name hname := (h'.listeners name hname).trans (h.listeners name hname)
  accepting object hobject := (h'.accepting object hobject).trans (h.accepting object hobject)
  dynamic object hobject := (h'.dynamic object hobject).trans (h.dynamic object hobject)
  loaded object hobject := (h'.loaded object hobject).trans (h.loaded object hobject)

theorem mono {names' : List String} {objects' : List ℕ} (h : s.Beside names objects s')
    (hnames : names ⊆ names') (hobjects : objects ⊆ objects') : s.Beside names' objects' s' where
  handles name hname := h.handles name fun hmem => hname (hnames hmem)
  listeners name hname := h.listeners name fun hmem => hname (hnames hmem)
  accepting object hobject := h.accepting object fun hmem => hobject (hobjects hmem)
  dynamic object hobject := h.dynamic object fun hmem => hobject (hobjects hmem)
  loaded object hobject := h.loaded object fun hmem => hobject (hobjects hmem)

theorem setAccepting (hobject : object ∈ objects) (accepting : Bool) :
    s.Beside names objects (s.setAccepting object accepting) where
  handles _ _ := rfl
  listeners _ _ := rfl
  accepting _ hother := Function.update_of_ne (ne_of_mem_of_not_mem hobject hother).symm ..
  dynamic _ _ := rfl
  loaded _ _ := rfl

theorem setLoaded (hobject : object ∈ objects) (loaded : Bool) :
    s.Beside names objects (s.setLoaded object loaded) where
  handles _ _ := rfl
  listeners _ _ := rfl
  accepting _ _ := rfl
  dynamic _ _ := rfl
  loaded _ hother := Function.update_of_ne (ne_of_mem_of_not_mem hobject hother).symm ..

theorem setHandle (hname : name ∈ names) (object : ℕ) :
    s.Beside names objects (s.setHandle name object) where
  handles _ hother := Function.update_of_ne (ne_of_mem_of_not_mem hname hother).symm ..
  listeners _ _ := rfl
  accepting _ _ := rfl
  dynamic _ _ := rfl
  loaded _ _ := rfl

theorem setListener (hname : name ∈ names) (listener : Option ℕ) :
    s.Beside names objects (s.setListener name listener) where
  handles _ _ := rfl
  listeners _ hother := Function.update_of_ne (ne_of_mem_of_not_mem hname hother).symm ..
  accepting _ _ := rfl
  dynamic _ _ := rfl
  loaded _ _ := rfl

theorem makeObject (hmade : s.made ∈ objects) : s.Beside names objects s.makeObject where
  handles _ _ := rfl
  listeners _ _ := rfl
  accepting _ hother := Function.update_of_ne (ne_of_mem_of_not_mem hmade hother).symm ..
  dynamic _ hother := Function.update_of_ne (ne_of_mem_of_not_mem hmade hother).symm ..
  loaded _ hother := Function.update_of_ne (ne_of_mem_of_not_mem hmade hother).symm ..

end Beside

-- Every module is whole, and no object has two names.
structure Consistent (s : Catalog) : Prop where
  whole : s.Whole
  made : ∀ name object, s.handles name = some object → object < s.made
  once : ∀ name name' object, s.handles name = some object → s.handles name' = some object →
    name = name'

-- The modules of other names stay as they are.
theorem Consistent.whole_of_beside {s s' : Catalog} {names : List String} {objects : List ℕ}
    (h : s.Consistent) (hbeside : s.Beside names objects s')
    (hobjects : ∀ object ∈ objects,
      (∃ name ∈ names, s.handles name = some object) ∨ s.made ≤ object)
    (hnames : ∀ name ∈ names, ∀ object, s'.handles name = some object →
      s'.Settled name object) : s'.Whole := by
  intro name object hfound hdynamic
  by_cases hname : name ∈ names
  · exact hnames name hname object hfound
  · have hfound : s.handles name = some object := (hbeside.handles name hname).symm.trans hfound
    have hobject : object ∉ objects := by
      intro hmem
      obtain ⟨other, hother, hown⟩ | hmade := hobjects object hmem
      · exact hname (h.once name other object hfound hown ▸ hother)
      · exact absurd (h.made name object hfound) (Nat.not_lt.mpr hmade)
    have haccepting := hbeside.accepting object hobject
    have hloaded := hbeside.loaded object hobject
    have hlistener := hbeside.listeners name hname
    have hwas := h.whole name object hfound ((hbeside.dynamic object hobject).symm.trans hdynamic)
    obtain hactive | hinactive := hwas
    · exact .inl ⟨hloaded.trans hactive.loaded, haccepting.trans hactive.accepting,
        hlistener.trans hactive.listener⟩
    · exact .inr ⟨hloaded.trans hinactive.loaded, haccepting.trans hinactive.accepting,
        hlistener.trans hinactive.listener⟩

end Catalog

def Op.closes : Op → Option ℕ
  | .close object => some object
  | _ => none

-- An object's mutex is free when its image is to be closed.
def Core.Unhindered (c : Core) (op : Op) : Prop :=
  ∀ object ∈ op.closes, c.dynamic object = true → c.image object = none

instance (c : Core) (op : Op) : Decidable (c.Unhindered op) :=
  inferInstanceAs
    (Decidable (∀ object ∈ op.closes, c.dynamic object = true → c.image object = none))

section Acts

variable {policy : Policy} {c c' : Core} {t : ℕ} {op : Op} {i : Bool} {answer : op.Answer}

theorem tryImage_of_unhindered {object : ℕ} (h : c.Unhindered (.close object)) :
    c.tryImage object = true := by
  unfold Core.tryImage
  cases hdynamic : c.dynamic object with
  | false => rfl
  | true =>
    rw [h object rfl hdynamic]
    rfl

theorem answers_of_act (hfree : c.Unhindered op)
    (h : c.act policy t op i = some (c', some answer)) : c.catalog.Answers op answer := by
  cases op with
  | find | isLoaded =>
    cases h
    rfl
  | exchange name object =>
    simp only [Core.act, Core.exchange] at h
    split at h
    · cases h
      exact Eq.symm ‹_›
    · cases h
      exact Eq.symm ‹_›
  | check check =>
    cases check with
    | isDynamic object =>
      cases h
      rfl
    | _ => trivial
  | makeReloadCandidate object =>
    cases i <;> cases h
    · trivial
    · rfl
  | close object =>
    simp only [Core.act, tryImage_of_unhindered hfree, Bool.true_and] at h
    split at h
    next hloaded =>
      cases h
      exact hloaded.symm
    next hloaded =>
      cases h
      exact (Bool.eq_false_iff.mpr hloaded).symm
  | _ => trivial

theorem catalog_of_act (hfree : c.Unhindered op)
    (h : c.act policy t op i = some (c', some answer)) :
    c'.catalog = c.catalog.next op answer := by
  cases op with
  | lock | enterImage =>
    obtain ⟨-, heq⟩ := Option.ite_none_right_eq_some.mp h
    cases heq
    rfl
  | acquireShared object =>
    obtain ⟨c'', hc, heq⟩ := Option.map_eq_some_iff.mp h
    cases heq
    obtain ⟨-, heq⟩ := Option.ite_none_right_eq_some.mp hc
    cases heq
    rfl
  | emplace object => cases i <;> cases h <;> rfl
  | check check => cases check <;> cases h <;> rfl
  | acquireExclusive object =>
    have heq := Option.some.inj h
    rw [Core.acquireExclusive] at heq
    split at heq <;> cases heq
    rfl
  | makeReloadCandidate object => cases i <;> cases h <;> rfl
  | exchange name object =>
    simp only [Core.act, Core.exchange] at h
    split at h <;> cases h <;> rfl
  | load object =>
    simp only [Core.act] at h
    split at h <;> cases h <;> rfl
  | close object =>
    simp only [Core.act, tryImage_of_unhindered hfree, Bool.true_and] at h
    split at h
    · cases h
      rfl
    next hloaded =>
      cases h
      have hsame : Function.update c.loaded object false = c.loaded :=
        Function.update_eq_self_iff.mpr (Bool.eq_false_iff.mpr hloaded).symm
      exact congrArg (fun loaded => { c.catalog with loaded }) hsame.symm
  | _ =>
    cases h
    rfl

end Acts

-- The candidate that a request has made.
def candidateAfter (candidate : Option ℕ) : (op : Op) → op.Answer → Option ℕ
  | .makeReloadCandidate _, some object => some object
  | _, _ => candidate

-- What a request has come to.
structure Sight where
  catalog : Catalog
  candidate : Option ℕ

namespace Sight

def next (v : Sight) (op : Op) (answer : op.Answer) : Sight where
  catalog := v.catalog.next op answer
  candidate := candidateAfter v.candidate op answer

def Answers (v : Sight) (op : Op) (answer : op.Answer) : Prop := v.catalog.Answers op answer

end Sight

-- A request may report what `good` says.
def sights (good : Sight → Bool → Prop) : Program.Monitor Op Op.Answer Sight where
  allows v
    | .finish result => good v result
    | _ => True
  next := Sight.next

abbrev Yields {α : Type} (good : Sight → Bool → Prop) (p : Code α) (v : Sight)
    (post : Sight → α → Prop) : Prop := p.Relies Sight.Answers (sights good) post v

section Yields

variable {α : Type} {good : Sight → Bool → Prop} {post : Sight → α → Prop} {v : Sight}
  {object : ℕ} {name : String}

theorem yields_isLoaded {rest : Bool → Code α} {loaded : Bool}
    (hloaded : v.catalog.loaded object = loaded) (hrest : Yields good (rest loaded) v post) :
    Yields good (Code.isLoaded object >>= rest) v post := by
  refine Program.Relies.perform trivial fun _ _ => Program.Relies.perform trivial ?_
  intro loaded' hanswer
  obtain rfl : loaded' = loaded := hanswer.trans hloaded
  exact Program.Relies.perform trivial fun _ _ => hrest

theorem yields_executionBarrier {rest : Unit → Code α}
    (hrest : Yields good (rest ())
      { v with catalog := v.catalog.setAccepting object false } post) :
    Yields good (Code.executionBarrier object >>= rest) v post :=
  Program.Relies.perform trivial fun _ _ => Program.Relies.perform trivial fun _ _ =>
    Program.Relies.perform trivial fun _ _ => hrest

theorem yields_unload :
    Yields good (Code.unload object) v fun v' closed => closed = v.catalog.loaded object ∧
      v' = { v with catalog := (v.catalog.setAccepting object false).setLoaded object false } := by
  refine Program.Relies.perform trivial fun _ _ => Program.Relies.perform trivial fun _ _ => ?_
  refine Program.Relies.perform trivial fun closed hanswer => ?_
  exact Program.Relies.perform trivial fun _ _ => ⟨hanswer, rfl⟩

-- What becomes of an object that is destroyed is of no interest.
def Discards (object : ℕ) (v v' : Sight) : Prop :=
  v.catalog.Beside [] [object] v'.catalog ∧ v'.candidate = v.candidate

theorem yields_discarded (loaded : Bool) :
    Yields good (if loaded then do let _ ← Code.unload object else pure ()) v
      fun v' _ => Discards object v v' := by
  cases loaded with
  | false => exact ⟨.refl, rfl⟩
  | true =>
    refine Program.Relies.bind yields_unload ?_
    rintro v' _ ⟨-, rfl⟩
    have hmem : object ∈ [object] := List.mem_singleton_self object
    exact ⟨(Catalog.Beside.setAccepting hmem false).trans (.setLoaded hmem false), rfl⟩

theorem yields_unloadLoaded :
    Yields good (Code.unloadLoaded object) v fun v' _ => Discards object v v' :=
  yields_isLoaded rfl (yields_discarded _)

theorem yields_destroyObject :
    Yields good (Code.destroyObject object) v fun v' _ => Discards object v v' :=
  Program.Relies.perform trivial fun _ _ => yields_discarded _

-- A section of the manager's mutex that looks a name up.
theorem yields_section {body : Option ℕ → Code α} {found : Option ℕ}
    (hfound : v.catalog.handles name = found) (hbody : Yields good (body found) v post) :
    Yields good (do
      Program.perform Op.lock
      let found ← Program.perform (Op.find name)
      body found) v post := by
  refine Program.Relies.perform trivial fun _ _ => Program.Relies.perform trivial ?_
  intro found' hanswer
  obtain rfl : found' = found := hanswer.trans hfound
  exact hbody

theorem yields_enable (hfound : v.catalog.handles name = some object) :
    Yields good (Code.enable name) v fun v' enabled =>
      enabled = true ∧ v' = { v with catalog := v.catalog.setAccepting object true } := by
  refine yields_section hfound ?_
  exact Program.Relies.perform trivial fun _ _ => Program.Relies.perform trivial fun _ _ =>
    ⟨rfl, rfl⟩

theorem yields_load (hfound : v.catalog.handles name = some object)
    (hloaded : v.catalog.loaded object = true) :
    Yields good (Code.load name) v fun v' loaded =>
      loaded = true ∧ v' = { v with catalog := v.catalog.setListener name (some object) } := by
  refine yields_section hfound (yields_isLoaded hloaded ?_)
  exact Program.Relies.perform trivial fun _ _ => Program.Relies.perform trivial fun _ _ =>
    ⟨rfl, rfl⟩

end Yields

-- What a request reports.
def Reports (v : Sight) (result : Bool) : Call → Prop
  | .unload name =>
    result = true ↔
      ∃ object, v.catalog.handles name = some object ∧ v.catalog.Inactive name object
  | .reload name =>
    result = true ↔ ∃ object, v.candidate = some object ∧
      v.catalog.handles name = some object ∧ v.catalog.Active name object
  | _ => True

section Requests

variable {good : Sight → Bool → Prop} {v : Sight}

theorem yields_unloadDirect (h : v.catalog.Consistent) (name : String) :
    Yields good (Code.unloadDirect name) v fun v' result =>
      v'.catalog.Whole ∧ Reports v' result (.unload name) := by
  cases hfound : v.catalog.handles name with
  | none =>
    refine yields_section hfound (Program.Relies.perform trivial fun _ _ => ⟨h.whole, ?_⟩)
    refine iff_of_false Bool.false_ne_true ?_
    rintro ⟨object, hobject, -⟩
    cases hfound.symm.trans hobject
  | some object =>
    have hmem : object ∈ [object] := List.mem_singleton_self object
    have hname : name ∈ [name] := List.mem_singleton_self name
    -- what is left when the image is not mapped
    have hdone : ∀ v' : Sight, v.catalog.Beside [name] [object] v'.catalog →
        v'.catalog.handles name = some object → v'.catalog.Inactive name object →
        v'.catalog.Whole ∧ Reports v' true (.unload name) := by
      intro v' hbeside hhandle hinactive
      refine ⟨h.whole_of_beside hbeside ?_ ?_, ?_⟩
      · exact List.forall_mem_singleton.mpr (.inl ⟨name, hname, hfound⟩)
      · refine List.forall_mem_singleton.mpr fun other hother => ?_
        cases hhandle.symm.trans hother
        exact .inr hinactive
      · exact iff_of_true rfl ⟨object, hhandle, hinactive⟩
    refine yields_section hfound (Program.Relies.perform trivial fun _ _ => ?_)
    refine Program.Relies.perform trivial fun _ _ => Program.Relies.perform trivial fun _ _ => ?_
    refine Program.Relies.perform trivial fun _ _ => yields_executionBarrier ?_
    refine Program.Relies.perform trivial fun _ _ => ?_
    have hstopped : v.catalog.Beside [name] [object] (((v.catalog.setAccepting object
        false).setListener name none).setAccepting object false) :=
      ((Catalog.Beside.setAccepting hmem false).trans (.setListener hname none)).trans
        (.setAccepting hmem false)
    cases hloaded : v.catalog.loaded object with
    | false =>
      refine yields_isLoaded hloaded (hdone _ hstopped hfound ⟨hloaded, ?_, ?_⟩)
      · exact Function.update_self ..
      · exact Function.update_self ..
    | true =>
      refine yields_isLoaded hloaded ?_
      refine yields_unload.mono ?_
      rintro v' closed ⟨hclosed, rfl⟩
      obtain rfl : closed = true := hclosed.trans hloaded
      refine hdone _ ((hstopped.trans (.setAccepting hmem false)).trans (.setLoaded hmem false))
        hfound ⟨?_, ?_, ?_⟩
      · exact Function.update_self ..
      · exact Function.update_self ..
      · exact Function.update_self ..

-- The candidate accepts executions when the object before it is gone.
theorem yields_retire {name : String} {object previous : ℕ}
    (hfound : v.catalog.handles name = some object) (hne : object ≠ previous) :
    Yields good (Code.retire name previous) v fun v' result => result = true ∧
      v'.candidate = v.candidate ∧ v.catalog.Beside [] [object, previous] v'.catalog ∧
        v'.catalog.accepting object = true ∧
          v'.catalog.loaded object = v.catalog.loaded object := by
  have hother : object ∉ [previous] := List.mem_singleton.not.mpr hne
  have hprevious : [previous] ⊆ [object, previous] := List.subset_cons_self ..
  refine Program.Relies.perform trivial fun _ _ => yields_executionBarrier ?_
  refine Program.Relies.perform trivial fun _ _ => Program.Relies.bind yields_unloadLoaded ?_
  rintro v₁ - ⟨hunloaded, hcandidate₁⟩
  have hfound₁ : v₁.catalog.handles name = some object :=
    (hunloaded.handles name List.not_mem_nil).trans hfound
  refine Program.Relies.bind (yields_enable hfound₁) ?_
  rintro v₂ _ ⟨rfl, rfl⟩
  refine Program.Relies.bind yields_destroyObject ?_
  rintro v₃ - ⟨hdestroyed, hcandidate₃⟩
  refine ⟨rfl, hcandidate₃.trans hcandidate₁, ?_, ?_, ?_⟩
  · have hstopped : v.catalog.Beside [] [previous] (v.catalog.setAccepting previous false) :=
      .setAccepting (List.mem_singleton_self _) false
    have hbefore := hstopped.trans hunloaded
    have henabled : v₁.catalog.Beside [] [object, previous] _ :=
      .setAccepting List.mem_cons_self true
    exact ((hbefore.mono (List.Subset.refl _) hprevious).trans henabled).trans
      (hdestroyed.mono (List.Subset.refl _) hprevious)
  · exact (hdestroyed.accepting object hother).trans (Function.update_self ..)
  · exact (hdestroyed.loaded object hother).trans (hunloaded.loaded object hother)

theorem yields_replace {name : String} {current replacement : ℕ}
    (hfound : v.catalog.handles name = some current) (hne : replacement ≠ current)
    (hloaded : v.catalog.loaded replacement = true) :
    Yields good (Code.replace name current replacement) v fun v' result => result = true ∧
      v'.candidate = v.candidate ∧
        v.catalog.Beside [name] [replacement, current] v'.catalog ∧
          v'.catalog.handles name = some replacement ∧
            v'.catalog.Active name replacement := by
  refine Program.Relies.perform trivial fun _ _ => Program.Relies.perform trivial fun _ _ => ?_
  refine Program.Relies.perform trivial fun _ _ => Program.Relies.perform trivial fun _ _ => ?_
  refine Program.Relies.perform trivial fun _ _ => Program.Relies.perform trivial ?_
  intro found hanswer
  obtain rfl : found = some current := hanswer.trans hfound
  refine Program.Relies.perform trivial fun _ _ => ?_
  have hself : ∀ {s : Catalog}, (s.setHandle name replacement).handles name = some replacement :=
    Function.update_self ..
  refine Program.Relies.bind (yields_load hself hloaded) ?_
  rintro v₁ _ ⟨rfl, rfl⟩
  refine (@yields_retire _ _ _ replacement _ hself hne).mono ?_
  rintro v' result ⟨hresult, hcandidate, hretired, haccepting, hkept⟩
  have hname : name ∈ [name] := List.mem_singleton_self name
  have hreplacement : replacement ∈ [replacement, current] := List.mem_cons_self
  have hcurrent : current ∈ [replacement, current] :=
    List.mem_cons_of_mem _ (List.mem_singleton_self _)
  have hstopped : v.catalog.Beside [name] [replacement, current] _ :=
    (Catalog.Beside.setAccepting hreplacement false).trans (.setAccepting hcurrent false)
  have hregistered := ((hstopped.trans (.setListener hname none)).trans
    (.setHandle hname replacement)).trans (.setListener hname (some replacement))
  refine ⟨hresult, hcandidate,
    hregistered.trans (hretired.mono (List.nil_subset _) (List.Subset.refl _)),
    (hretired.handles name List.not_mem_nil).trans hself,
    hkept.trans hloaded, haccepting, (hretired.listeners name List.not_mem_nil).trans ?_⟩
  exact Function.update_self ..

theorem yields_reloadDirect (h : v.catalog.Consistent) (hcandidate : v.candidate = none)
    (name : String) :
    Yields good (Code.reloadDirect name) v fun v' result =>
      v'.catalog.Whole ∧ Reports v' result (.reload name) := by
  -- nothing has been made
  have hrefused : ∀ v' : Sight, v'.catalog = v.catalog → v'.candidate = none →
      v'.catalog.Whole ∧ Reports v' false (.reload name) := by
    intro v' hcatalog hnone
    refine ⟨hcatalog ▸ h.whole, iff_of_false Bool.false_ne_true ?_⟩
    rintro ⟨object, hobject, -⟩
    cases hnone.symm.trans hobject
  cases hfound : v.catalog.handles name with
  | none =>
    refine yields_section hfound (Program.Relies.perform trivial fun _ _ => ?_)
    exact hrefused _ rfl hcandidate
  | some current =>
    have hne : v.catalog.made ≠ current :=
      (Nat.ne_of_lt (h.made name current hfound)).symm
    refine yields_section hfound ?_
    cases hloaded : v.catalog.loaded current with
    | false =>
      refine yields_isLoaded hloaded (Program.Relies.perform trivial fun _ _ => ?_)
      exact hrefused _ rfl hcandidate
    | true =>
      refine yields_isLoaded hloaded (Program.Relies.perform trivial fun isDynamic _ => ?_)
      cases isDynamic with
      | false => 
          exact Program.Relies.perform trivial fun _ _ => hrefused _ rfl hcandidate
      | true =>
        refine Program.Relies.perform trivial fun candidate hmade => ?_
        refine Program.Relies.perform trivial fun _ _ => ?_
        cases candidate with
        | none => exact hrefused _ rfl hcandidate
        | some replacement =>
          obtain rfl : replacement = v.catalog.made := hmade
          have hself : v.catalog.makeObject.loaded v.catalog.made = true :=
            Function.update_self ..
          refine yields_isLoaded hself ?_
          refine Program.Relies.perform trivial fun sameName _ => ?_
          cases sameName with
          | false =>
            refine Program.Relies.bind yields_destroyObject ?_
            rintro v' - ⟨hdestroyed, hcandidate'⟩
            have hmem : v.catalog.made ∈ [v.catalog.made] := List.mem_singleton_self _
            have hbeside := (Catalog.Beside.makeObject hmem).trans hdestroyed
            refine ⟨h.whole_of_beside hbeside
              (List.forall_mem_singleton.mpr (.inr (Nat.le_refl _))) nofun, ?_⟩
            have hkept : v'.catalog.handles name = some current :=
              (hdestroyed.handles name List.not_mem_nil).trans hfound
            refine iff_of_false Bool.false_ne_true ?_
            rintro ⟨object, hobject, hhandle, -⟩
            obtain rfl := Option.some.inj (hkept.symm.trans hhandle)
            exact hne (Option.some.inj (hcandidate'.symm.trans hobject))
          | true =>
            refine (yields_replace (v := ⟨v.catalog.makeObject, some v.catalog.made⟩)
              hfound hne hself).mono ?_
            rintro v' result ⟨hresult, hcandidate', hreplaced, hhandle, hactive⟩
            have hbeside := (Catalog.Beside.makeObject List.mem_cons_self).trans hreplaced
            refine ⟨h.whole_of_beside hbeside ?_ ?_, ?_⟩
            · refine List.forall_mem_cons.mpr ⟨.inr (Nat.le_refl _), ?_⟩
              exact List.forall_mem_singleton.mpr
                (.inl ⟨name, List.mem_singleton_self name, hfound⟩)
            · refine List.forall_mem_singleton.mpr fun object hobject => ?_
              cases hhandle.symm.trans hobject
              exact .inl hactive
            · exact iff_of_true hresult ⟨_, hcandidate', hhandle, hactive⟩

end Requests

end Glider.Modules.Admission

import Glider.Modules.Admission

namespace Glider.Modules.Admission

open Glider.Lib Glider.Lib.Threads

-- What the control thread can rely on: what an object that it has found is registered under,
-- objects that no longer accept executions, those of them that no thread is about to take a lease
-- on under the manager's mutex, objects that are not registered, and the exclusive lease that it
-- has.
structure Plan where
  current : Option (String × ℕ)
  stopped : List ℕ
  closed : List ℕ
  hidden : List ℕ
  exclusive : Option ℕ

-- An operation of which the stages say nothing.
def Op.Beside : Op → Prop
  | .enterImage _ | .isLoaded _ | .leaveImage _ | .check _ | .close _ | .onCommand _ _ | .listener _
  | .modules | .elsewhere => True
  | _ => False

namespace Plan

def empty : Plan := ⟨none, [], [], [], none⟩

def stop (k : Plan) (locked : Bool) (object : ℕ) : Plan :=
  { k with
    stopped := object :: k.stopped
    closed := if locked then object :: k.closed else k.closed }

def start (k : Plan) (object : ℕ) : Plan :=
  { k with
    stopped := k.stopped.filter (· ≠ object)
    closed := k.closed.filter (· ≠ object) }

def hide (k : Plan) (object : ℕ) : Plan := { k.start object with hidden := object :: k.hidden }

-- Whether the object that is registered under a name is closed.
def closedAt (k : Plan) (name : String) : Bool :=
  k.current.any fun found => found.1 = name ∧ found.2 ∈ k.closed

theorem closedAt_iff {k : Plan} {name : String} :
    k.closedAt name = true ↔ ∃ object, k.current = some (name, object) ∧ object ∈ k.closed := by
  rw [closedAt, Option.any_eq_true]
  constructor
  · rintro ⟨⟨_, object⟩, hcurrent, hat⟩
    obtain ⟨rfl, hclosed⟩ := of_decide_eq_true hat
    exact ⟨object, hcurrent, hclosed⟩
  · rintro ⟨object, hcurrent, hclosed⟩
    exact ⟨(name, object), hcurrent, decide_eq_true ⟨rfl, hclosed⟩⟩

-- `previous` was registered under the name; the object in its place is hidden no more.
def exchange (k : Plan) (name : String) (object previous : ℕ) : Plan where
  current := none
  stopped := k.stopped
  closed := if k.closedAt name then previous :: k.closed else k.closed
  hidden := previous :: k.hidden.filter (· ≠ object)
  exclusive := k.exclusive

theorem mem_closed_exchange {k : Plan} {name : String} {object current : ℕ}
    (hcurrent : k.current = some (name, current)) (hclosed : current ∈ k.closed) (previous : ℕ) :
    previous ∈ (k.exchange name object previous).closed := by
  have hat : k.closedAt name = true := closedAt_iff.mpr ⟨current, hcurrent, hclosed⟩
  unfold exchange
  rw [hat]
  exact List.mem_cons_self

theorem closed_subset_exchange (k : Plan) (name : String) (object previous : ℕ) :
    k.closed ⊆ (k.exchange name object previous).closed := by
  unfold exchange
  dsimp only
  split
  · exact List.subset_cons_self _ _
  · exact List.Subset.refl _

def next (k : Plan) (locked : Bool) : (op : Op) → op.Answer → Plan
  -- no thread is about to take a lease under a mutex that is free
  | .lock, _ => { k with closed := k.stopped ++ k.closed }
  | .find name, found => { k with current := found.map (name, ·) }
  | .stopExecutions object, _ => k.stop locked object
  | .enableExecutions object, _ => k.start object
  | .load object, true => k.start object
  | .makeReloadCandidate _, some object => k.hide object
  | .exchange name object, some previous => k.exchange name object previous
  | .acquireExclusive object, _ => { k with exclusive := some object }
  | .releaseExclusive _, _ => { k with exclusive := none }
  | _, _ => k

end Plan

-- Where a thread is: whether it has the manager's mutex, the shared leases that it holds, the
-- object that it has found under the mutex, and the object whose flag it has seen last.
structure Stage where
  locked : Bool
  leases : List ℕ
  found : Option ℕ
  tested : Option ℕ
  control : Option Plan
  outside : Bool

namespace Stage

def create (leases : List ℕ) (control : Option Plan) : Stage :=
  ⟨false, leases, none, none, control, false⟩

def next (m : Stage) (op : Op) (answer : op.Answer) : Stage :=
  let m := { m with control := m.control.map fun k => k.next m.locked op answer }
  match op, answer with
  | .lock, _ => { m with locked := true, found := none, tested := none }
  | .unlock, _ => { m with locked := false, found := none, tested := none }
  | .find _, found => { m with found, tested := none }
  | .loadAccepting object, accepting => { m with tested := if accepting then some object else none }
  | .acquireShared object, _ => { m with tested := none, leases := object :: m.leases }
  | .releaseShared object, _ => { m with leases := m.leases.erase object }
  | .emplace object, _ => { m with leases := m.leases.erase object }
  | .finish _, _ => { m with control := none }
  | _, _ => m

theorem next_of_beside (m : Stage) {op : Op} (hop : op.Beside) (answer : op.Answer) :
    m.next op answer = m := by
  obtain ⟨locked, leases, found, tested, control, outside⟩ := m
  cases op <;> first | exact hop.elim | (cases control <;> rfl)

-- What the control thread alone does, with what it must know.
def AllowsControl (m : Stage) (k : Plan) : Op → Prop
  | .makeReloadCandidate _ => m.locked = true
  | .exchange _ object => m.locked = true ∧ object ∈ k.hidden
  | .acquireExclusive object =>
    m.locked = false ∧ k.exclusive = none ∧ (object ∈ k.closed ∨ object ∈ k.hidden)
  | .releaseExclusive object => k.exclusive = some object
  | .finish _ => m.locked = false ∧ k.exclusive = none
  | _ => True

def Allows (m : Stage) : Op → Prop
  | .lock => m.locked = false
  | .unlock => m.locked = true
  | .find _ => m.locked = true
  | .loadAccepting object => m.locked = true → m.found = some object
  | .acquireShared object => m.tested = some object ∧ (m.locked = true ∨ m.leases = [])
  | .enterImage _ | .isLoaded _ | .leaveImage _ | .check _ | .releaseShared _ | .emplace _
  | .listener _ | .modules | .elsewhere => True
  | op => ∃ k, m.control = some k ∧ m.AllowsControl k op

end Stage

def discipline : Discipline Call Op Op.Answer Empty Stage where
  monitor := ⟨fun m op => m.outside = true ∨ m.Allows op, Stage.next⟩
  start
    | .deliver _ | .host _ => .create [] none
    | .run object _ => .create [object] none
    | .unload _ | .reload _ => .create [] (some .empty)
    | .destroy => { Stage.create [] none with outside := true }
  post m _ := m.outside = true ∨ m.locked = false

abbrev Leads {α : Type} (p : Code α) (m : Stage) (post : Stage → α → Prop) : Prop :=
  Program.Leads discipline.monitor p m post

section Leads

variable {β : Type} {m : Stage} {post : Stage → β → Prop}

theorem leads_perform {op : Op} {rest : op.Answer → Code β} (hallows : m.Allows op)
    (hrest : ∀ answer, Leads (rest answer) (m.next op answer) post) :
    Leads (Program.perform op >>= rest) m post :=
  ⟨.inr hallows, hrest⟩

theorem leads_beside {op : Op} {rest : op.Answer → Code β} (hallows : m.Allows op)
    (hop : op.Beside) (hrest : ∀ answer, Leads (rest answer) m post) :
    Leads (Program.perform op >>= rest) m post :=
  leads_perform hallows fun answer => (Stage.next_of_beside m hop answer).symm ▸ hrest answer

theorem leads_isLoaded {object : ℕ} {rest : Bool → Code β}
    (hrest : ∀ loaded, Leads (rest loaded) m post) :
    Leads (Code.isLoaded object >>= rest) m post := by
  have hsame : Leads (Code.isLoaded object) m fun m' _ => m' = m :=
    leads_beside trivial trivial fun _ => leads_beside trivial trivial fun loaded =>
      leads_beside trivial trivial fun _ => rfl
  exact Program.Leads.bind hsame fun m' loaded hm => hm ▸ hrest loaded

end Leads

section Users

-- A thread that is not the control thread, outside and inside a section of the manager's mutex.
def Quiet (m : Stage) : Prop := m.locked = false ∧ m.control = none ∧ m.outside = false

def Inside (m : Stage) : Prop := m.locked = true ∧ m.control = none ∧ m.outside = false

variable {m : Stage} {object : ℕ}

theorem leads_acquireLease (hcontrol : m.control = none) (houtside : m.outside = false)
    (hfound : m.locked = true → m.found = some object)
    (hlease : m.locked = true ∨ m.leases = []) :
    Leads (Code.acquireLease object) m fun m' _ =>
      m'.locked = m.locked ∧ m'.control = none ∧ m'.outside = false := by
  obtain ⟨locked, leases, found, tested, control, outside⟩ := m
  obtain rfl : control = none := hcontrol
  obtain rfl : outside = false := houtside
  refine leads_perform hfound fun accepting => ?_
  cases accepting with
  | false => exact ⟨rfl, rfl, rfl⟩
  | true =>
    refine leads_perform ⟨rfl, hlease⟩ fun _ => leads_perform hfound fun accepting => ?_
    cases accepting with
    | true => exact ⟨rfl, rfl, rfl⟩
    | false => exact ⟨.inr trivial, fun _ => ⟨rfl, rfl, rfl⟩⟩

theorem leads_unlock {α : Type} {a : α} (h : Inside m) :
    Leads (do
      Program.perform Op.unlock
      return a) m fun m' _ => Quiet m' := by
  obtain ⟨locked, leases, found, tested, control, outside⟩ := m
  obtain ⟨rfl, rfl, rfl⟩ := h
  exact leads_perform rfl fun _ => ⟨rfl, rfl, rfl⟩

-- A section of the manager's mutex that looks a name up.
theorem leads_section {α : Type} {post : Stage → α → Prop} {name : String}
    {body : Option ℕ → Code α} (h : Quiet m)
    (hbody : ∀ m' found, Inside m' → m'.found = found → Leads (body found) m' post) :
    Leads (do
      Program.perform Op.lock
      let found ← Program.perform (Op.find name)
      body found) m post := by
  obtain ⟨locked, leases, found, tested, control, outside⟩ := m
  obtain ⟨rfl, rfl, rfl⟩ := h
  exact leads_perform rfl fun _ => leads_perform rfl fun found =>
    hbody _ found ⟨rfl, rfl, rfl⟩ rfl

theorem leads_acquired (h : Inside m) (hfound : m.found = some object) :
    Leads (do
      let granted ← Code.acquireLease object
      Program.perform Op.unlock
      return if granted then some object else none) m fun m' _ => Quiet m' := by
  refine Program.Leads.bind (leads_acquireLease h.2.1 h.2.2 (fun _ => hfound) (.inl h.1)) ?_
  rintro m' granted ⟨hlocked, hcontrol, houtside⟩
  exact leads_unlock ⟨hlocked.trans h.1, hcontrol, houtside⟩

theorem leads_acquireLoaded (h : Quiet m) (name : String) :
    Leads (Code.acquireLoaded name) m fun m' _ => Quiet m' := by
  refine leads_section h fun m' found hinside hfound => ?_
  cases found with
  | none => exact leads_unlock hinside
  | some object =>
    refine leads_isLoaded fun loaded => ?_
    cases loaded with
    | true => exact leads_acquired hinside hfound
    | false => exact leads_unlock hinside

theorem leads_acquireExecutionLease (h : Quiet m) (name : String) :
    Leads (Code.acquireExecutionLease name) m fun m' _ => Quiet m' := by
  refine leads_section h fun m' found hinside hfound => ?_
  cases found with
  | none => exact leads_unlock hinside
  | some object => exact leads_acquired hinside hfound

theorem leads_emplace (h : Quiet m) (object : ℕ) :
    Leads (Program.perform (Op.emplace object)) m fun m' _ => Quiet m' := by
  obtain ⟨locked, leases, found, tested, control, outside⟩ := m
  obtain ⟨rfl, rfl, rfl⟩ := h
  exact ⟨.inr trivial, fun _ => ⟨rfl, rfl, rfl⟩⟩

theorem leads_prepared (h : Quiet m) (object : ℕ) :
    Leads (do
      if ← Program.perform (Op.check .prepareCommand) then Program.perform (Op.emplace object)
      else Program.perform (Op.releaseShared object)) m fun m' _ => Quiet m' := by
  obtain ⟨locked, leases, found, tested, control, outside⟩ := m
  obtain ⟨rfl, rfl, rfl⟩ := h
  refine leads_perform trivial fun prepared => ?_
  cases prepared with
  | true => exact ⟨.inr trivial, fun _ => ⟨rfl, rfl, rfl⟩⟩
  | false => exact ⟨.inr trivial, fun _ => ⟨rfl, rfl, rfl⟩⟩

theorem leads_submitWork (h : Quiet m) (name : String) :
    Leads (Code.submitWork name) m fun m' _ => Quiet m' := by
  refine Program.Leads.bind (leads_acquireLoaded h name) fun m' found h' => ?_
  cases found with
  | none => exact h'
  | some object => exact leads_emplace h' object

theorem leads_invoke (h : Quiet m) (name : String) :
    Leads (Code.invoke name) m fun m' _ => Quiet m' := by
  refine Program.Leads.bind (leads_acquireLoaded h name) fun m' found h' => ?_
  cases found with
  | none => exact h'
  | some object => exact leads_prepared h' object

theorem leads_releaseShared {p : Code Unit} (h : Quiet m) (object : ℕ)
    (hp : ∀ m', Quiet m' → Leads p m' fun m' _ => Quiet m') :
    Leads (do
      Program.perform (Op.releaseShared object)
      p) m fun m' _ => Quiet m' := by
  obtain ⟨locked, leases, found, tested, control, outside⟩ := m
  obtain ⟨rfl, rfl, rfl⟩ := h
  exact leads_perform trivial fun _ => hp _ ⟨rfl, rfl, rfl⟩

theorem leads_release (held : List ℕ) (h : Quiet m) :
    Leads (Code.release held) m fun m' _ => Quiet m' := by
  induction held generalizing m with
  | nil => exact h
  | cons object held ih => exact leads_releaseShared h object fun m' h' => ih h'

theorem leads_moduleCode (script : List ApiCall) (held : List ℕ) (h : Quiet m) :
    Leads (Code.moduleCode script held) m fun m' _ => Quiet m' := by
  induction script generalizing held m with
  | nil => exact leads_release held h
  | cons call rest ih =>
    cases call with
    | submitWork name =>
      exact Program.Leads.bind (leads_submitWork h name) fun m' _ h' => ih held h'
    | invoke name => exact Program.Leads.bind (leads_invoke h name) fun m' _ h' => ih held h'
    | acquireExecutionLease name =>
      refine Program.Leads.bind (leads_acquireExecutionLease h name) fun m' found h' => ?_
      cases found with
      | none => exact ih held h'
      | some object => exact ih (object :: held) h'
    | release =>
      cases held with
      | nil => exact ih [] h
      | cons object held => exact leads_releaseShared h object fun m' h' => ih held h'

-- A delivery takes its lease without the mutex; it has no other one.
theorem leads_deliver (h : Quiet m) (hleases : m.leases = []) (name : String) :
    Leads (Code.deliver name) m fun m' _ => Quiet m' := by
  obtain ⟨locked, leases, found, tested, control, outside⟩ := m
  obtain ⟨rfl, rfl, rfl⟩ := h
  refine leads_perform trivial fun found => ?_
  cases found with
  | none => exact ⟨rfl, rfl, rfl⟩
  | some object =>
    refine Program.Leads.bind (leads_acquireLease rfl rfl (fun h => absurd h Bool.false_ne_true)
      (.inr hleases)) ?_
    rintro m' granted ⟨hlocked, hcontrol, houtside⟩
    cases granted with
    | false => exact ⟨hlocked, hcontrol, houtside⟩
    | true => exact leads_prepared ⟨hlocked, hcontrol, houtside⟩ object

end Users

section Control

-- The control thread outside a section, with what it knows at least.
structure Steady (closed hidden : List ℕ) (m : Stage) : Prop where
  locked : m.locked = false
  outside : m.outside = false
  plan : ∃ k, m.control = some k ∧ k.exclusive = none ∧ closed ⊆ k.closed ∧ hidden ⊆ k.hidden

variable {m : Stage} {object : ℕ} {name : String} {closed hidden : List ℕ}

theorem Steady.mono {closed' hidden' : List ℕ} (h : Steady closed hidden m)
    (hclosed : closed' ⊆ closed) (hhidden : hidden' ⊆ hidden) : Steady closed' hidden' m := by
  obtain ⟨k, hk, hexclusive, hc, hh⟩ := h.plan
  exact ⟨h.locked, h.outside, k, hk, hexclusive, List.Subset.trans hclosed hc,
    List.Subset.trans hhidden hh⟩

theorem Steady.isSome (h : Steady closed hidden m) : ∃ k, m.control = some k ∧ True := by
  obtain ⟨k, hk, -⟩ := h.plan
  exact ⟨k, hk, trivial⟩

theorem leads_stop {α : Type} {post : Stage → α → Prop} {rest : Unit → Code α}
    (h : Steady closed hidden m) (object : ℕ)
    (hrest : ∀ m', Steady closed hidden m' → Leads (rest ()) m' post) :
    Leads (Program.perform (Op.stopExecutions object) >>= rest) m post := by
  obtain ⟨locked, leases, found, tested, control, outside⟩ := m
  obtain ⟨rfl, rfl, k, rfl, hknown⟩ := h
  exact leads_perform ⟨k, rfl, trivial⟩ fun _ => hrest _ ⟨rfl, rfl, _, rfl, hknown⟩

theorem leads_executionBarrier (h : Steady closed hidden m)
    (hobject : object ∈ closed ∨ object ∈ hidden) :
    Leads (Code.executionBarrier object) m fun m' _ => Steady closed hidden m' := by
  refine leads_stop h object fun m' h' => ?_
  obtain ⟨locked, leases, found, tested, control, outside⟩ := m'
  obtain ⟨rfl, rfl, k, rfl, hnone, hclosed, hhidden⟩ := h'
  have hknown : object ∈ k.closed ∨ object ∈ k.hidden := hobject.imp (hclosed ·) (hhidden ·)
  refine leads_perform ⟨k, rfl, rfl, hnone, hknown⟩ fun _ => ?_
  exact ⟨.inr ⟨_, rfl, rfl⟩, fun _ => ⟨rfl, rfl, _, rfl, rfl, hclosed, hhidden⟩⟩

theorem leads_unload (h : Steady closed hidden m)
    (hobject : object ∈ closed ∨ object ∈ hidden) :
    Leads (Code.unload object) m fun m' _ => Steady closed hidden m' := by
  refine leads_stop h object fun m' h' => ?_
  obtain ⟨locked, leases, found, tested, control, outside⟩ := m'
  obtain ⟨rfl, rfl, k, rfl, hnone, hclosed, hhidden⟩ := h'
  have hknown : object ∈ k.closed ∨ object ∈ k.hidden := hobject.imp (hclosed ·) (hhidden ·)
  refine leads_perform ⟨k, rfl, rfl, hnone, hknown⟩ fun _ => ?_
  refine leads_beside ⟨_, rfl, trivial⟩ trivial fun closed => ?_
  exact leads_perform ⟨_, rfl, rfl⟩ fun _ => ⟨rfl, rfl, _, rfl, rfl, hclosed, hhidden⟩

theorem leads_unloadLoaded (h : Steady closed hidden m)
    (hobject : object ∈ closed ∨ object ∈ hidden) :
    Leads (Code.unloadLoaded object) m fun m' _ => Steady closed hidden m' := by
  refine leads_isLoaded fun loaded => ?_
  cases loaded with
  | false => exact h
  | true => exact Program.Leads.bind (leads_unload h hobject) fun m' _ h' => h'

theorem leads_destroyObject (h : Steady closed hidden m)
    (hobject : object ∈ closed ∨ object ∈ hidden) :
    Leads (Code.destroyObject object) m fun m' _ => Steady closed hidden m' := by
  refine leads_beside trivial trivial fun loaded => ?_
  cases loaded with
  | false => exact h
  | true => exact Program.Leads.bind (leads_unload h hobject) fun m' _ h' => h'

-- The last operation of a section.
theorem leads_leave {α : Type} {post : Stage → α → Prop} {rest : Unit → Code α}
    (hlocked : m.locked = true) (houtside : m.outside = false)
    (hplan : ∃ k, m.control = some k ∧ k.exclusive = none ∧ closed ⊆ k.closed ∧ hidden ⊆ k.hidden)
    (hrest : ∀ m', Steady closed hidden m' → Leads (rest ()) m' post) :
    Leads (Program.perform Op.unlock >>= rest) m post := by
  obtain ⟨locked, leases, found, tested, control, outside⟩ := m
  obtain ⟨k, rfl, hknown⟩ := hplan
  exact leads_perform hlocked fun _ => hrest _ ⟨rfl, houtside, k, rfl, hknown⟩

-- A registered name is loaded: what is known of the objects that do not accept executions is lost
-- if an image is opened.
theorem leads_load (h : Steady closed hidden m) (name : String) :
    Leads (Code.load name) m fun m' loaded =>
      Steady (if loaded then [] else closed) hidden m' := by
  obtain ⟨locked, leases, found, tested, control, outside⟩ := m
  obtain ⟨rfl, rfl, k, rfl, hnone, hclosed, hhidden⟩ := h
  refine leads_perform rfl fun _ => leads_perform rfl fun found => ?_
  have hclosed' : closed ⊆ k.stopped ++ k.closed :=
    List.Subset.trans hclosed (List.subset_append_right _ _)
  cases found with
  | none =>
    refine leads_leave rfl rfl
      ⟨_, rfl, hnone, hclosed', hhidden⟩ fun m' h' => ?_
    exact h'
  | some object =>
    refine leads_isLoaded fun loaded => ?_
    cases loaded with
    | true =>
      refine leads_beside ⟨_, rfl, trivial⟩ trivial fun _ => ?_
      exact leads_leave rfl rfl ⟨_, rfl, hnone, List.nil_subset _, hhidden⟩ fun m' h' => h'
    | false =>
      refine @leads_perform _ _ _ (.load object) _ ⟨_, rfl, trivial⟩ fun opened => ?_
      cases opened with
      | true =>
        refine leads_beside ⟨_, rfl, trivial⟩ trivial fun _ => ?_
        exact leads_leave rfl rfl ⟨_, rfl, hnone, List.nil_subset _, hhidden⟩ fun m' h' => h'
      | false =>
        exact leads_leave rfl rfl ⟨_, rfl, hnone, hclosed', hhidden⟩ fun m' h' => h'

theorem leads_enable (h : Steady closed hidden m) (name : String) :
    Leads (Code.enable name) m fun m' _ => Steady [] hidden m' := by
  obtain ⟨locked, leases, found, tested, control, outside⟩ := m
  obtain ⟨rfl, rfl, k, rfl, hnone, hclosed, hhidden⟩ := h
  refine leads_perform rfl fun _ => leads_perform rfl fun found => ?_
  cases found with
  | none =>
    exact leads_leave rfl rfl ⟨_, rfl, hnone, List.nil_subset _, hhidden⟩ fun m' h' => h'
  | some object =>
    refine leads_perform ⟨_, rfl, trivial⟩ fun _ => ?_
    exact leads_leave rfl rfl ⟨_, rfl, hnone, List.nil_subset _, hhidden⟩ fun m' h' => h'

theorem leads_unloadDirect (h : Steady [] [] m) (name : String) :
    Leads (Code.unloadDirect name) m fun m' _ => Steady [] [] m' := by
  obtain ⟨locked, leases, found, tested, control, outside⟩ := m
  obtain ⟨rfl, rfl, k, rfl, hnone, -, -⟩ := h
  refine leads_perform rfl fun _ => leads_perform rfl fun found => ?_
  cases found with
  | none =>
    exact leads_leave rfl rfl
      ⟨_, rfl, hnone, List.nil_subset _, List.nil_subset _⟩ fun m' h' => h'
  | some object =>
    -- the flag is reset under the mutex
    refine leads_perform ⟨_, rfl, trivial⟩ fun _ => ?_
    have hclosed : [object] ⊆ object :: (k.stopped ++ k.closed) := by simp
    refine leads_leave rfl rfl ⟨_, rfl, hnone, hclosed, List.nil_subset _⟩ fun m' h' => ?_
    have hobject : object ∈ [object] ∨ object ∈ [] := .inl (List.mem_singleton_self _)
    refine leads_beside h'.isSome trivial fun _ => leads_beside trivial trivial fun _ => ?_
    refine Program.Leads.bind (leads_executionBarrier h' hobject) fun m' _ h' => ?_
    refine leads_beside trivial trivial fun _ => leads_isLoaded fun loaded => ?_
    have hmono : ∀ m', Steady [object] [] m' → Steady [] [] m' := fun m' h' =>
      h'.mono (List.nil_subset _) (List.nil_subset _)
    cases loaded with
    | true => exact (leads_unload h' hobject).mono fun m' _ h' => hmono m' h'
    | false => exact hmono m' h'

theorem leads_retire {previous : ℕ} (h : Steady [] [previous] m) (name : String) :
    Leads (Code.retire name previous) m fun m' _ => Steady [] [] m' := by
  have hprevious : previous ∈ [] ∨ previous ∈ [previous] := .inr (List.mem_singleton_self _)
  refine leads_beside trivial trivial fun _ => ?_
  refine Program.Leads.bind (leads_executionBarrier h hprevious) fun m' _ h' => ?_
  refine leads_beside trivial trivial fun _ => ?_
  refine Program.Leads.bind (leads_unloadLoaded h' hprevious) fun m' _ h' => ?_
  refine Program.Leads.bind (leads_enable h' name) fun m' _ h' => ?_
  refine Program.Leads.bind (leads_destroyObject h' hprevious) fun m' _ h' => ?_
  exact h'.mono (List.nil_subset _) (List.nil_subset _)

-- The object before is not registered; put back, it still accepts no executions.
theorem leads_restore {previous : ℕ} (h : Steady [previous] [previous] m) (name : String) :
    Leads (Code.restore name previous) m fun m' _ => Steady [] [] m' := by
  obtain ⟨locked, leases, found, tested, control, outside⟩ := m
  obtain ⟨rfl, rfl, k, rfl, hnone, hclosed, hhidden⟩ := h
  have hmem : previous ∈ k.hidden := hhidden (List.mem_singleton_self _)
  have hclosed' : [previous] ⊆ k.stopped ++ k.closed :=
    List.Subset.trans hclosed (List.subset_append_right _ _)
  refine leads_perform rfl fun _ => leads_perform ⟨_, rfl, rfl, hmem⟩ fun found => ?_
  cases found with
  | none =>
    refine leads_leave rfl rfl ⟨_, rfl, hnone, hclosed', hhidden⟩ fun m' h' => ?_
    refine leads_beside trivial trivial fun _ => ?_
    refine Program.Leads.bind (leads_destroyObject h' (.inl (List.mem_singleton_self _)))
      fun m' _ h' => ?_
    exact h'.mono (List.nil_subset _) (List.nil_subset _)
  | some failedCandidate =>
    have hcandidate : [failedCandidate] ⊆
        failedCandidate :: k.hidden.filter (· ≠ previous) := by simp
    have hkept : [previous] ⊆ _ := List.Subset.trans hclosed' (Plan.closed_subset_exchange
      { k with closed := k.stopped ++ k.closed } name previous failedCandidate)
    refine leads_leave rfl rfl ⟨_, rfl, hnone, hkept, hcandidate⟩ fun m' h' => ?_
    have hrestored : previous ∈ [previous] ∨ previous ∈ [failedCandidate] :=
      .inl (List.mem_singleton_self _)
    have hfailed : failedCandidate ∈ [] ∨ failedCandidate ∈ [failedCandidate] :=
      .inr (List.mem_singleton_self _)
    refine Program.Leads.bind (leads_executionBarrier h' hrestored) fun m' _ h' => ?_
    refine leads_beside trivial trivial fun _ => ?_
    refine Program.Leads.bind (leads_enable h' name) fun m' enabled h' => ?_
    cases enabled with
    | true =>
      refine Program.Leads.bind (leads_unloadLoaded h' hfailed) fun m' _ h' => ?_
      refine Program.Leads.bind (leads_load h' name) fun m' loaded h' => ?_
      have h'' : Steady [] [failedCandidate] m' := by
        cases loaded <;> exact h'
      refine Program.Leads.bind (leads_destroyObject h'' hfailed) fun m' _ h' => ?_
      exact h'.mono (List.nil_subset _) (List.nil_subset _)
    | false =>
      refine Program.Leads.bind (leads_destroyObject h' hfailed) fun m' _ h' => ?_
      exact h'.mono (List.nil_subset _) (List.nil_subset _)

theorem leads_replace {current replacement : ℕ} {k : Plan} (hlocked : m.locked = false)
    (houtside : m.outside = false) (hplan : m.control = some k) (hnone : k.exclusive = none)
    (hcurrent : k.current = some (name, current)) (hreplacement : replacement ∈ k.hidden) :
    Leads (Code.replace name current replacement) m fun m' _ => Steady [] [] m' := by
  obtain ⟨locked, leases, found, tested, control, outside⟩ := m
  obtain rfl : locked = false := hlocked
  obtain rfl : outside = false := houtside
  obtain rfl : control = some k := hplan
  refine leads_perform ⟨_, rfl, trivial⟩ fun _ => leads_perform ⟨_, rfl, trivial⟩ fun _ => ?_
  refine leads_beside ⟨_, rfl, trivial⟩ trivial fun _ => leads_beside trivial trivial fun _ => ?_
  refine leads_perform rfl fun _ => leads_perform ⟨_, rfl, rfl, hreplacement⟩ fun found => ?_
  cases found with
  | none =>
    have hhidden : [replacement] ⊆ k.hidden :=
      List.cons_subset.mpr ⟨hreplacement, List.nil_subset _⟩
    refine leads_leave rfl rfl ⟨_, rfl, hnone, List.nil_subset _, hhidden⟩ fun m' h' => ?_
    refine leads_beside trivial trivial fun _ => ?_
    refine Program.Leads.bind (leads_destroyObject h' (.inr (List.mem_singleton_self _)))
      fun m' _ h' => ?_
    exact h'.mono (List.nil_subset _) (List.nil_subset _)
  | some previous =>
    -- the object that was stopped is the one that is registered
    have hclosed : [previous] ⊆ _ := List.cons_subset.mpr
      ⟨@Plan.mem_closed_exchange { (k.stop false replacement).stop false current with
        closed := ((k.stop false replacement).stop false current).stopped ++ k.closed }
        name replacement current hcurrent List.mem_cons_self previous, List.nil_subset _⟩
    have hhidden : [previous] ⊆ previous :: k.hidden.filter (· ≠ replacement) := by simp
    refine leads_leave rfl rfl ⟨_, rfl, hnone, hclosed, hhidden⟩ fun m' h' => ?_
    refine Program.Leads.bind (leads_load h' name) fun m' loaded h' => ?_
    cases loaded with
    | true => exact leads_retire h' name
    | false => exact leads_restore h' name

theorem leads_reloadDirect (h : Steady [] [] m) (name : String) :
    Leads (Code.reloadDirect name) m fun m' _ => Steady [] [] m' := by
  obtain ⟨locked, leases, found, tested, control, outside⟩ := m
  obtain ⟨rfl, rfl, k, rfl, hnone, -, -⟩ := h
  have hleave : ∀ m' : Stage, m'.locked = true → m'.outside = false →
      (∃ k, m'.control = some k ∧ k.exclusive = none) →
      Leads (do
        Program.perform Op.unlock
        return false) m' fun m' _ => Steady [] [] m' := by
    rintro m' hlocked houtside ⟨k, hk, hnone⟩
    exact leads_leave hlocked houtside
      ⟨k, hk, hnone, List.nil_subset _, List.nil_subset _⟩ fun m' h' => h'
  refine leads_perform rfl fun _ => leads_perform rfl fun found => ?_
  cases found with
  | none => exact hleave _ rfl rfl ⟨_, rfl, hnone⟩
  | some current =>
    refine leads_isLoaded fun loaded => ?_
    cases loaded with
    | false => exact hleave _ rfl rfl ⟨_, rfl, hnone⟩
    | true =>
      refine @leads_beside _ _ _ (.check (.isDynamic current)) _ trivial trivial
        fun isDynamic => ?_
      cases isDynamic with
      | false => exact hleave _ rfl rfl ⟨_, rfl, hnone⟩
      | true =>
        refine leads_perform ⟨_, rfl, rfl⟩ fun candidate => leads_perform rfl fun _ => ?_
        cases candidate with
        | none => exact ⟨rfl, rfl, _, rfl, hnone, List.nil_subset _, List.nil_subset _⟩
        | some replacement =>
          have hhidden : [replacement] ⊆ replacement :: k.hidden := by simp
          have hmem : replacement ∈ replacement :: k.hidden := List.mem_cons_self
          refine leads_isLoaded fun loaded => ?_
          refine @leads_beside _ _ _ (.check (.hasName replacement name)) _ trivial trivial
            fun sameName => ?_
          cases loaded && sameName with
          | true => exact leads_replace rfl rfl rfl hnone rfl hmem
          | false =>
            refine Program.Leads.bind (@leads_destroyObject _ replacement [] [replacement]
              ⟨rfl, rfl, _, rfl, hnone, List.nil_subset _, hhidden⟩
              (.inr (List.mem_singleton_self _))) fun m' _ h' => ?_
            exact h'.mono (List.nil_subset _) (List.nil_subset _)

end Control

theorem meets_of_leads {p : Code Unit} {m : Stage}
    (h : Leads p m fun m' _ => m'.locked = false) :
    p.Meets discipline.monitor discipline.post m := Program.Leads.meets h fun _ _ => .inr

theorem leads_finish {p : Code Bool} {m : Stage}
    (h : Leads p m fun m' _ => Steady [] [] m') :
    Leads (do
      let result ← p
      Program.perform (Op.finish result)) m fun m' _ => m'.locked = false := by
  refine Program.Leads.bind h fun m' result h' => ?_
  obtain ⟨locked, leases, found, tested, control, outside⟩ := m'
  obtain ⟨rfl, rfl, k, rfl, hnone, -, -⟩ := h'
  exact ⟨.inr ⟨k, rfl, rfl, hnone⟩, fun _ => rfl⟩

-- The destructor of the manager keeps to nothing.
theorem meets_outside (p : Code Unit) {m : Stage} (h : m.outside = true) :
    p.Meets discipline.monitor discipline.post m := by
  induction p generalizing m with
  | pure a | throw e => exact .inl h
  | call op next ih =>
    refine ⟨.inl h, fun answer => ih answer ?_⟩
    obtain ⟨locked, leases, found, tested, control, outside⟩ := m
    cases op <;> exact h

theorem governs (policy : Policy) (shutsDown : Bool) :
    discipline.Governs (system policy shutsDown) := by
  have hquiet : ∀ leases, Quiet (.create leases none) := fun _ => ⟨rfl, rfl, rfl⟩
  have hsteady : Steady [] [] (.create [] (some .empty)) :=
    ⟨rfl, rfl, _, rfl, rfl, List.nil_subset _, List.nil_subset _⟩
  intro call
  cases call with
  | deliver name =>
    exact meets_of_leads ((leads_deliver (hquiet []) rfl name).mono fun _ _ h => h.1)
  | run object script =>
    exact meets_of_leads
      ((leads_moduleCode script [object] (hquiet [object])).mono fun _ _ h => h.1)
  | host script =>
    exact meets_of_leads ((leads_moduleCode script [] (hquiet [])).mono fun _ _ h => h.1)
  | unload name => exact meets_of_leads (leads_finish (leads_unloadDirect hsteady name))
  | reload name => exact meets_of_leads (leads_finish (leads_reloadDirect hsteady name))
  | destroy => exact meets_outside _ rfl

end Glider.Modules.Admission

import Glider.Modules.Requests
import Glider.Modules.Waits

namespace Glider.Modules.Admission

open Glider.Lib Glider.Lib.Threads

-- What a thread has been called for, and the candidate that it has made.
structure Request where
  call : Call
  candidate : Option ℕ

def requests : Discipline Call Op Op.Answer Empty Request where
  monitor := ⟨fun _ _ => True, fun request op answer =>
    { request with candidate := candidateAfter request.candidate op answer }⟩
  start call := ⟨call, none⟩
  post _ _ := True

theorem requests_governs (policy : Policy) : requests.Governs (system policy false) := by
  have hmeets : ∀ (p : Code Unit) (request : Request),
      p.Meets requests.monitor requests.post request := by
    intro p
    induction p with
    | pure a => exact fun _ => trivial
    | throw e => exact e.elim
    | call op next ih => exact fun request => ⟨trivial, fun answer => ih answer _⟩
  exact fun call => hmeets _ _

-- The modules are whole when a request reports.
def Done (call : Call) (v : Sight) (result : Bool) : Prop :=
  v.catalog.Whole ∧ Reports v result call

section Begin

variable {call : Call} {c c' : Core} {t : ℕ}

theorem control_of_begins (h : c.begins t false call = some c') :
    c'.catalog = c.catalog ∧
      (c'.control = c.control ∨ c.control = none ∧ c'.control = some t) := by
  cases call with
  | deliver name | host script =>
    cases h
    exact ⟨rfl, .inl rfl⟩
  | run object script =>
    obtain ⟨-, heq⟩ := Option.ite_none_right_eq_some.mp h
    cases heq
    exact ⟨rfl, .inl rfl⟩
  | unload name | reload name =>
    obtain ⟨hidle, heq⟩ := Option.ite_none_right_eq_some.mp h
    cases heq
    exact ⟨rfl, .inr ⟨hidle, rfl⟩⟩
  | destroy => cases h

theorem yields_program (h : c.catalog.Consistent) (hidle : c.control = none)
    (hbegins : c.begins t false call = some c') (hbusy : c'.control = some t) :
    Yields (Done call) call.program ⟨c.catalog, none⟩ fun _ _ => True := by
  cases call with
  | deliver name | host script =>
    cases hbegins
    cases hidle.symm.trans hbusy
  | run object script =>
    obtain ⟨-, heq⟩ := Option.ite_none_right_eq_some.mp hbegins
    cases heq
    cases hidle.symm.trans hbusy
  | unload name =>
    refine Program.Relies.bind (yields_unloadDirect h name) fun v' result hdone => ?_
    exact ⟨hdone, fun _ _ => trivial⟩
  | reload name =>
    refine Program.Relies.bind (yields_reloadDirect h rfl name) fun v' result hdone => ?_
    exact ⟨hdone, fun _ _ => trivial⟩
  | destroy => cases hbegins

end Begin

-- The modules are changed by the control thread only.
theorem next_of_user {m : Stage} {op : Op} {answer : op.Answer} (hallows : m.Allows op)
    (hnone : m.control = none) (s : Catalog) : s.next op answer = s := by
  have hcontrol : ¬∃ k, m.control = some k ∧ m.AllowsControl k op := by
    rintro ⟨k, hk, -⟩
    cases hnone.symm.trans hk
  cases op with
  | lock | unlock | find | enterImage | isLoaded | leaveImage | check | loadAccepting
  | acquireShared | releaseShared | emplace | listener | modules | elsewhere => rfl
  | _ => exact absurd hallows hcontrol

section World

variable {policy : Policy} {w w' : World}

-- What is left of the request on the control worker leads to what it may report.
structure Served (w : World) : Prop where
  orderly : Orderly w
  follows : requests.Follows w
  idle : w.shared.control = none → w.shared.catalog.Whole
  busy : ∀ t, w.shared.control = some t → ∃ request, requests.stage w t = some request ∧
    ∀ p, w.running t = some p →
      Yields (Done request.call) p ⟨w.shared.catalog, request.candidate⟩ fun _ _ => True

-- No thread is in `isLoaded` of an object whose image is to be closed.
def Unhindered (w : World) : Move Call Bool → Prop
  | .acts t _ => ∀ op ∈ w.asks t, w.shared.Unhindered op
  | _ => True

instance (w : World) : DecidablePred (Unhindered w)
  | .acts t _ => inferInstanceAs (Decidable (∀ op ∈ w.asks t, w.shared.Unhindered op))
  | .begins _ | .ends _ | .hangsUp _ => inferInstanceAs (Decidable True)

namespace Served

theorem consistent (h : Served w) (hidle : w.shared.control = none) :
    w.shared.catalog.Consistent :=
  ⟨h.idle hidle, h.orderly.sound.registry.made, h.orderly.sound.registry.once⟩

-- A step that leaves the catalog and the control worker as they are.
theorem of_same (h : Served w) (horderly : Orderly w') (hfollows : requests.Follows w')
    (hcatalog : w'.shared.catalog = w.shared.catalog)
    (hcontrol : w'.shared.control = w.shared.control)
    (hothers : ∀ t, w.shared.control = some t → requests.stage w' t = requests.stage w t ∧
      ∀ p, w'.running t = some p → w.running t = some p) : Served w' := by
  refine ⟨horderly, hfollows, fun hidle => ?_, fun t hbusy => ?_⟩
  · exact hcatalog ▸ h.idle (hcontrol.symm.trans hidle)
  · have hbusy : w.shared.control = some t := hcontrol.symm.trans hbusy
    obtain ⟨request, hstage, hyields⟩ := h.busy t hbusy
    obtain ⟨hsame, hrunning⟩ := hothers t hbusy
    refine ⟨request, hsame.trans hstage, fun p hp => ?_⟩
    rw [hcatalog]
    exact hyields p (hrunning p hp)

-- The request on the control worker makes a step, or reports.
theorem of_request (h : Served w) {t : ℕ} {i : Bool} {op : Op}
    {next : op.Answer → Code Unit} {shared : Core} {answer : op.Answer} {request : Request}
    (hguard : Unhindered w (.acts t i))
    (horderly : Orderly (w.record t (.answers op answer) (some (next answer)) shared))
    (hfollows : requests.Follows (w.record t (.answers op answer) (some (next answer)) shared))
    (hstage : requests.stage w t = some request)
    (hact : w.shared.act policy t op i = some (shared, some answer))
    (hrunning : w.running t = some (.call op next)) (hbusy : w.shared.control = some t) :
    Served (w.record t (.answers op answer) (some (next answer)) shared) := by
  have hfree := hguard op (asks_of_running hrunning)
  have hcatalog := catalog_of_act hfree hact
  obtain ⟨request', hstage', hyields⟩ := h.busy t hbusy
  obtain rfl := Option.some.inj (hstage.symm.trans hstage')
  obtain ⟨hallows, hnext⟩ := hyields _ hrunning
  by_cases hop : ∃ result, op = .finish result
  · obtain ⟨result, rfl⟩ := hop
    have hwhole : w.shared.catalog.Whole := hallows.1
    obtain ⟨rfl, -⟩ := Prod.mk.inj (Option.some.inj hact)
    exact ⟨horderly, hfollows, fun _ => hwhole, nofun⟩
  · have hcontrol : shared.control = w.shared.control :=
      control_of_acts (acts_of_act hact) (not_exists.mp hop)
    refine ⟨horderly, hfollows, fun hidle => ?_, fun u hu => ?_⟩
    · cases (hcontrol.symm.trans hidle).symm.trans hbusy
    · obtain rfl := Option.some.inj ((hcontrol.symm.trans hu).symm.trans hbusy)
      refine ⟨_, Discipline.stage_answers hstage .., fun p hp => ?_⟩
      obtain rfl := Option.some.inj (Discipline.running_record.symm.trans hp)
      have hyields := hnext answer (answers_of_act hfree hact)
      exact hcatalog ▸ hyields

theorem of_step (h : Served w) {i : Move Call Bool} (hfree : Unhindered w i)
    (hstep : step (system policy false) w i = some w') : Served w' := by
  have horderly := h.orderly.of_step hstep
  have hfollows := h.follows.of_step (requests_governs policy) hstep
  cases Discipline.moves_of_step h.follows hstep with
  | begins hbegins =>
    rename_i call shared
    obtain ⟨hcatalog, hsame | ⟨hidle, htaken⟩⟩ := control_of_begins hbegins
    · refine h.of_same horderly hfollows hcatalog hsame fun t hbusy => ?_
      obtain ⟨request, hstage, -⟩ := h.busy t hbusy
      have hne : t ≠ w.started := Nat.ne_of_lt (h.follows.stage_lt hstage)
      refine ⟨Discipline.stage_begun_of_ne hne .., fun p hp => ?_⟩
      exact (Discipline.running_begun_of_ne hne ..).symm.trans hp
    · refine ⟨horderly, hfollows, fun hnone => ?_, fun t hbusy => ?_⟩
      · cases htaken.symm.trans hnone
      · obtain rfl := Option.some.inj (htaken.symm.trans hbusy)
        refine ⟨_, Discipline.stage_begun .., fun p hp => ?_⟩
        obtain rfl := Option.some.inj ((Discipline.running_begun ..).symm.trans hp)
        have hyields := yields_program (h.consistent hidle) hidle hbegins htaken
        exact hcatalog ▸ hyields
  | answers hstage hallows hact hrunning =>
    rename_i t i op next shared answer request
    have hasks : w.asks t = some op := asks_of_running hrunning
    by_cases ht : w.shared.control = some t
    · exact h.of_request hfree horderly hfollows hstage hact hrunning ht
    · obtain ⟨m, hm, hallows⟩ := h.orderly.allows hasks
      have hnone : m.control = none := by
        refine Option.eq_none_iff_forall_ne_some.mpr fun k hk => ?_
        exact ht (h.orderly.sound.control t m k hm hk)
      have hframe := frame_of_user hallows hnone (acts_of_act hact)
      have hcatalog := catalog_of_act (hfree op hasks) hact
      rw [next_of_user hallows hnone] at hcatalog
      refine h.of_same horderly hfollows hcatalog hframe.control fun u hu => ?_
      have hne : u ≠ t := fun heq => ht (heq ▸ hu)
      refine ⟨Discipline.stage_record_of_ne hne, fun p hp => ?_⟩
      exact (Discipline.running_record_of_ne hne).symm.trans hp
  | waits hstage hallows hact hrunning =>
    obtain ⟨object, rfl, rfl⟩ := waits_eq_some hact
    exact h.of_same horderly hfollows rfl rfl fun _ _ => ⟨rfl, fun _ => id⟩
  | ends hstage hpost =>
    rename_i t result request
    refine h.of_same horderly hfollows rfl rfl fun u hu => ⟨Discipline.stage_ends .., ?_⟩
    intro p hp
    obtain rfl | hne := eq_or_ne u t
    · cases Discipline.running_record.symm.trans hp
    · exact (Discipline.running_record_of_ne hne).symm.trans hp
  | hangsUp hstage hhangs hrunning => cases hhangs

theorem initial {c : Core} (hstart : c.Start) (hwhole : c.catalog.Whole) :
    Served (Threads.initial c) :=
  ⟨.initial hstart, .initial c, fun _ => hwhole,
    fun _ hbusy => nomatch hstart.control.symm.trans hbusy⟩

end Served

-- In a run in which no thread is in `isLoaded` of an object when its image is to be closed, every
-- managed dynamic module is active or inactive between the requests, and the requests report so.
theorem module_whole (policy : Policy) (c : Core) (hstart : c.Start) (hwhole : c.catalog.Whole)
    (steps : List (Move Call Bool))
    (hfree : Transition.Guarded (step (system policy false)) Unhindered (Threads.initial c) steps)
    (w : World)
    (hpath : Transition.path (step (system policy false)) (Threads.initial c) steps = some w) :
    (w.shared.control = none → w.shared.catalog.Whole) ∧
      ∀ t result request, w.asks t = some (.finish result) → requests.stage w t = some request →
        Reports ⟨w.shared.catalog, request.candidate⟩ result request.call := by
  have h : Served w := Transition.path_invariant Served
    (fun _ _ _ h hfree hstep => h.of_step hfree hstep) (.initial hstart hwhole) hfree hpath
  refine ⟨h.idle, fun t result request hasks hstage => ?_⟩
  obtain ⟨m, hm, k, hk, -⟩ := h.orderly.allows hasks
  obtain ⟨request', hstage', hyields⟩ := h.busy t (h.orderly.sound.control t m k hm hk)
  obtain rfl := Option.some.inj (hstage.symm.trans hstage')
  obtain ⟨next, hrunning⟩ := running_of_asks hasks
  exact (hyields _ hrunning).1.2

theorem oneModule_whole : oneModule.catalog.Whole := by
  intro name object hfound _
  obtain ⟨hname, heq⟩ := Option.ite_none_right_eq_some.mp hfound
  exact .inl ⟨rfl, rfl, (if_pos hname).trans heq⟩

-- The module is unloaded while a worker runs a closure of it.
def unloaded : List (Move Call Bool) :=
  delivery 0 ++ [.begins (.run 0 []), .begins (.unload "m")] ++ acts 2 8 ++ acts 1 1 ++ acts 2 10

theorem module_whole_unloaded :
    ∃ w, Transition.path (step (system writersFirst false)) (Threads.initial oneModule) unloaded =
        some w ∧ w.asks 2 = some (.finish true) ∧
      (w.shared.control = none → w.shared.catalog.Whole) ∧
        ∀ t result request, w.asks t = some (.finish result) →
          requests.stage w t = some request →
            Reports ⟨w.shared.catalog, request.candidate⟩ result request.call :=
  ⟨_, rfl, rfl, module_whole writersFirst oneModule oneModule_start oneModule_whole unloaded
    (by decide) _ rfl⟩

-- The same without the worker, but another thread is in `isLoaded` when the image is to be closed.
def hindered : List (Move Call Bool) :=
  .begins (.unload "m") :: acts 0 15 ++ .begins (.host [.submitWork "m"]) :: acts 1 3 ++ acts 0 3

-- The module is mapped, accepts no executions, and has no listener.
theorem module_left_half :
    ¬∀ (policy : Policy) (c : Core) (steps : List (Move Call Bool)) (w : World),
      policy.Documented → c.Start → c.catalog.Whole →
      Transition.path (step (system policy false)) (Threads.initial c) steps = some w →
      w.shared.control = none → w.shared.catalog.Whole := by
  intro h
  obtain hactive | hinactive := h writersFirst oneModule hindered _ writersFirst_documented
    oneModule_start oneModule_whole rfl rfl "m" 0 rfl rfl
  · cases hactive.accepting
  · cases hinactive.loaded

end World

end Glider.Modules.Admission

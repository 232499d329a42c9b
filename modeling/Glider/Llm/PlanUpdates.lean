import Glider.Lib.History
import Glider.Llm.BuilderLaunch

namespace Glider.Llm.BuilderLaunch

open Glider.Lib Glider.Lib.Threads
open Bytes (ascii)

inductive Stage where
  | called (message : Option Message)
  | rejected
  | merged (tool : Tool) (message : Option Message) (plan : Object)
  | invoked (tool : Tool) (message : Option Message)
  | refused
  | cleared

def next : Stage → (op : Op) → op.Answer → Stage
  | .called message, .merge _ tool _, .ok plan => .merged tool message plan
  | .called _, .merge _ _ _, .error _ => .rejected
  | .merged tool message _, .invokeCommand _ _ _, .ok true => .invoked tool message
  | .merged _ _ _, .invokeCommand _ _ _, _ => .refused
  | .invoked _ _, .clear _ _, _ => .cleared
  | m, _, _ => m

def Allows (library : Library) (m : Stage) : Op → Prop
  | .merge key _ _ => ∃ message, m = .called message ∧ key = keyFor message
  | .invokeCommand tool message plan => ∃ merged, m = .merged tool message merged ∧
      validateCommon library merged tool = none ∧ missingFields tool merged = [] ∧
      plan = staged merged
  | .clear key tool => ∃ message, m = .invoked tool message ∧ key = keyFor message

-- A call that has merged its fields returns without an invocation only if there is something wrong
-- with the plan, or something missing.
def Ends (library : Library) : Stage → Except Bytes Unit → Prop
  | .merged tool _ plan, .ok _ =>
    validateCommon library plan tool ≠ none ∨ missingFields tool plan ≠ []
  | _, _ => True

def discipline (library : Library) : Discipline Call Op Op.Answer Bytes Stage where
  monitor := ⟨Allows library, next⟩
  start call := .called call.message
  post := Ends library

section Conduct

variable {library : Library} {α : Type}

abbrev Meets (library : Library) (post : Stage → Except Bytes α → Prop) (p : Launch α)
    (m : Stage) : Prop :=
  p.Meets (discipline library).monitor post m

def EndsReply (library : Library) (m : Stage) : Except Bytes Reply → Prop
  | .ok _ => Ends library m (.ok ())
  | .error e => Ends library m (.error e)

theorem endsReply_error (m : Stage) (e : Bytes) : EndsReply library m (.error e) := by
  cases m <;> exact trivial

theorem meets_orThrow {post : Stage → Except Bytes Reply → Prop} {x : Except Bytes α}
    {f : α → Launch Reply} {m : Stage} (herror : ∀ e, post m (.error e))
    (hf : ∀ a, Meets library post (f a) m) : Meets library post (orThrow x >>= f) m := by
  cases x with
  | ok a => exact hf a
  | error e => exact herror e

theorem meets_stagePlan {message : Option Message} {tool : Tool} {plan : Object}
    (hvalid : validateCommon library plan tool = none) (hmissing : missingFields tool plan = []) :
    Meets library (EndsReply library) (stagePlan library message tool plan)
      (.merged tool message plan) := by
  refine meets_orThrow (endsReply_error _) fun _ =>
    ⟨⟨plan, rfl, hvalid, hmissing, rfl⟩, fun outcome => ?_⟩
  cases outcome with
  | error e => exact trivial
  | ok invoked =>
    cases invoked with
    | false => exact trivial
    | true =>
      refine ⟨⟨message, rfl, rfl⟩, fun _ => ?_⟩
      exact meets_orThrow (endsReply_error _) fun _ => trivial

theorem meets_updatePlan {message : Option Message} {tool : Tool} {input : Object} :
    Meets library (EndsReply library) (updatePlan library message tool input)
      (.called message) := by
  refine ⟨⟨message, rfl, rfl⟩, fun merged => ?_⟩
  cases merged with
  | error e => exact trivial
  | ok plan =>
    dsimp only [orThrow, Bind.bind, Program.bind]
    split
    · next validationError hvalid =>
      have hinvalid : validateCommon library plan tool ≠ none := by simp [hvalid]
      exact .inl hinvalid
    · next hvalid =>
      split
      · next hmissing => exact meets_orThrow (endsReply_error _) fun _ => .inr hmissing
      · next hmissing => exact meets_stagePlan hvalid (not_not.mp hmissing)

theorem meets_executor (call : Call) :
    Meets library (EndsReply library) (executor library call) (.called call.message) := by
  unfold executor
  split
  · exact trivial
  · split
    · exact trivial
    · split
      · exact trivial
      · exact meets_updatePlan

theorem governs (library : Library) : (discipline library).Governs (system library) := by
  intro call
  refine Program.meets_bind.mpr ((meets_executor call).mono ?_)
  rintro m (e | reply) hm
  · exact hm
  · exact hm

end Conduct

section Plans

variable {s : State} {key key' : String} {tool tool' : Tool}

namespace PendingPlans

theorem get_set_self (pending : PendingPlans) (plan : Object) (tool : Tool) :
    (pending.set plan tool).get tool = plan := by
  cases tool <;> rfl

theorem get_set_of_ne (pending : PendingPlans) (plan : Object) (h : tool' ≠ tool) :
    (pending.set plan tool).get tool' = pending.get tool' := by
  cases tool <;> cases tool' <;> first | rfl | exact absurd rfl h

end PendingPlans

namespace State

theorem plans_setPending (pending : Option PendingPlans) :
    (s.setPending key pending).plans = Function.update s.plans key pending := rfl

theorem pending_setPending_self (pending : Option PendingPlans) :
    (s.setPending key pending).pending key = pending.getD .empty := by
  rw [State.pending, plans_setPending, Function.update_self]

theorem plan_setPending_of_ne (h : key' ≠ key) (pending : Option PendingPlans) (tool : Tool) :
    (s.setPending key pending).plan key' tool = s.plan key' tool := by
  rw [State.plan, State.plan, State.pending, State.pending, plans_setPending,
    Function.update_of_ne h]

theorem merge_eq_ok {s' : State} {input plan : Object} (h : s.merge key tool input = (s', .ok plan)) :
    ∃ clears, resets input = .ok clears ∧
      plan = (if clears then .empty else s.plan key tool).insertAll (suppliedFields input) ∧
      s' = s.setPending key (some ((s.pending key).set plan tool)) := by
  unfold merge at h
  split at h
  · cases (Prod.mk.inj h).2
  · next clears hclears =>
    obtain ⟨hs, hplan⟩ := Prod.mk.inj h
    have hplan := Except.ok.inj hplan
    refine ⟨clears, hclears, hplan.symm, ?_⟩
    rw [← hplan, ← hs]

theorem plan_merge_error {s' : State} {input : Object} {e : Bytes}
    (h : s.merge key tool input = (s', .error e)) (key' : String) (tool' : Tool) :
    s'.plan key' tool' = s.plan key' tool' := by
  unfold merge at h
  split at h
  · obtain ⟨rfl, -⟩ := Prod.mk.inj h
    by_cases hkey : key' = key
    · subst hkey
      rw [State.plan, State.plan, pending_setPending_self, Option.getD_some]
    · exact plan_setPending_of_ne hkey ..
  · cases (Prod.mk.inj h).2

-- A merge leaves the other plans alone.
theorem plan_merge {s' : State} {input plan : Object}
    (h : s.merge key tool input = (s', .ok plan)) (key' : String) (tool' : Tool) :
    s'.plan key' tool' = if key' = key ∧ tool' = tool then plan else s.plan key' tool' := by
  obtain ⟨clears, -, -, rfl⟩ := merge_eq_ok h
  by_cases hkey : key' = key
  · subst hkey
    rw [State.plan, pending_setPending_self, Option.getD_some]
    by_cases htool : tool' = tool
    · subst htool
      rw [if_pos ⟨rfl, rfl⟩, PendingPlans.get_set_self]
    · rw [if_neg fun hand => htool hand.2, PendingPlans.get_set_of_ne _ _ htool, State.plan]
  · rw [if_neg fun hand => hkey hand.1, plan_setPending_of_ne hkey]

theorem find?_clear (h : ¬(key' = key ∧ tool' = tool)) (field : Bytes) :
    ((s.clear key tool).plan key' tool').find? field = (s.plan key' tool').find? field := by
  unfold clear
  split
  · rfl
  · next pending hpending =>
    have hbefore : s.pending key = pending := by rw [State.pending, hpending, Option.getD_some]
    by_cases hkey : key' = key
    · subst hkey
      have htool : tool' ≠ tool := fun htool => h ⟨rfl, htool⟩
      dsimp only
      split
      · next hempty =>
        -- An entry without plans is erased.
        obtain ⟨hkernel, hrom⟩ := Bool.and_eq_true_iff.mp hempty
        have hnone : ((pending.set .empty tool).get tool').isEmpty = true := by
          cases tool'
          · exact hkernel
          · exact hrom
        rw [PendingPlans.get_set_of_ne _ _ htool] at hnone
        rw [State.plan, State.plan, pending_setPending_self, hbefore, Assoc.find?_of_isEmpty hnone]
        cases tool' <;> rfl
      · rw [State.plan, State.plan, pending_setPending_self, hbefore, Option.getD_some,
          PendingPlans.get_set_of_ne _ _ htool]
    · dsimp only
      split
      · rw [plan_setPending_of_ne hkey]
      · rw [plan_setPending_of_ne hkey]

theorem nodup_suppliedFields (input : Object) : ((suppliedFields input).map Prod.fst).Nodup :=
  input.nodup.sublist (List.filter_sublist.map Prod.fst)

end State

end Plans

-- A merge that has been made.
structure Merge where
  thread : ℕ
  key : String
  tool : Tool
  input : Object
  plan : Object

def mergeOf : ℕ × Event Call Op Op.Answer Bytes → Option Merge
  | (t, .answers (.merge key tool input) (.ok plan)) => some ⟨t, key, tool, input, plan⟩
  | _ => none

-- The field is given another value, or the plan is reset.
def replaces (key : String) (tool : Tool) (field : Bytes)
    (event : ℕ × Event Call Op Op.Answer Bytes) : Bool :=
  (mergeOf event).any fun m => m.key == key && m.tool == tool &&
    ((State.resets m.input).toOption == some true || (m.input.find? field).isSome)

-- A plan with the value is handed to the command.
def handsOver (key : String) (tool : Tool) (p : Bytes × Json) :
    ℕ × Event Call Op Op.Answer Bytes → Bool
  | (_, .answers (.invokeCommand tool' message plan) _) =>
    tool' == tool && keyFor message == key && plan.find? p.1 == some p.2
  | _ => false

-- What has become of a value that was merged, in view of what came after the merge.
def Accounted (s : State) (newer : History) (key : String) (tool : Tool) (p : Bytes × Json) :
    Prop :=
  (s.plan key tool).find? p.1 = some p.2 ∨ newer.any (replaces key tool p.1) = true ∨
    newer.any (handsOver key tool p) = true

instance (s : State) (newer : History) (key : String) (tool : Tool) (p : Bytes × Json) :
    Decidable (Accounted s newer key tool p) :=
  inferInstanceAs (Decidable (_ ∨ _))

def returned (w : World) (t : ℕ) : Bool :=
  w.history.any fun
    | (u, .ends (.ok _)) => u == t
    | _ => false

-- Every value that a call has merged into a valid plan is accounted for once the call has returned.
def UpdatesKept (library : Library) (w : World) : Prop :=
  Followed (fun newer event => ∀ m ∈ mergeOf event,
    validateCommon library m.plan m.tool = none → returned w m.thread = true →
      ∀ p ∈ State.suppliedFields m.input, Accounted w.shared newer m.key m.tool p) [] w.history

instance (library : Library) (w : World) : Decidable (UpdatesKept library w) :=
  inferInstanceAs (Decidable (Followed _ [] w.history))

-- The call that has merged a value hands it over itself.
def stages (m : Merge) (p : Bytes × Json) : Bool :=
  (missingFields m.tool m.plan).isEmpty && (staged m.plan).find? p.1 == some p.2

def spares (library : Library) (s : State) (key : String) (tool : Tool) (newer : History)
    (event : ℕ × Event Call Op Op.Answer Bytes) : Bool :=
  (mergeOf event).all fun m => m.key != key || m.tool != tool ||
    (validateCommon library m.plan tool).isSome ||
      (State.suppliedFields m.input).all fun p => (s.plan key tool).find? p.1 != some p.2 ||
        newer.any (replaces key tool p.1) || newer.any (handsOver key tool p) || stages m p

-- When a plan is cleared, every value in it has been handed over since it was merged, or its call
-- is about to hand it over.
def ClearsStaged (library : Library) (w : World) : Step → Prop
  | .acts t _ => ∀ key tool, w.asks t = some (.clear key tool) →
      Followed (fun newer event => spares library w.shared key tool newer event = true) [] w.history
  | _ => True

def clearing : Op → Option (String × Tool)
  | .clear key tool => some (key, tool)
  | _ => none

instance (library : Library) : ∀ w i, Decidable (ClearsStaged library w i)
  | w, .acts t _ => decidable_of_iff (∀ op ∈ w.asks t, ∀ target ∈ clearing op,
      Followed (fun newer event => spares library w.shared target.1 target.2 newer event = true) []
        w.history) (by
    constructor
    · intro h key tool hasks
      exact h _ hasks (key, tool) rfl
    · intro h op hasks target htarget
      cases op with
      | clear key tool =>
        obtain rfl := Option.some.inj htarget
        exact h key tool hasks
      | _ => cases htarget)
  | _, .begins _ | _, .ends _ | _, .hangsUp _ => .isTrue trivial

abbrev stageOf (library : Library) (w : World) (t : ℕ) : Option Stage :=
  (discipline library).stage w t

abbrev Moves (library : Library) (w : World) (i : Step) (w' : World) : Prop :=
  (discipline library).Moves (system library) w i w'

-- What is known of a merge whose plan is valid.
structure Good (library : Library) (w : World) (newer : History) (m : Merge) : Prop where
  handing : missingFields m.tool m.plan = [] →
    (∃ message, stageOf library w m.thread = some (.merged m.tool message m.plan) ∧
      keyFor message = m.key) ∨
    ∀ p : Bytes × Json, (staged m.plan).find? p.1 = some p.2 →
      newer.any (handsOver m.key m.tool p) = true
  kept : ∀ p ∈ State.suppliedFields m.input,
    Accounted w.shared newer m.key m.tool p ∨ stages m p = true

def Kept (library : Library) (w : World) : Prop :=
  Followed (fun newer event => ∀ m ∈ mergeOf event,
    validateCommon library m.plan m.tool = none → Good library w newer m) [] w.history

section Steps

variable {library : Library} {w w' : World} {i : Step}

-- A call that has a plan to hand over goes on with nothing else.
theorem merged_of_moves (hs : (discipline library).Follows w) (hm : Moves library w i w') {t : ℕ}
    {tool : Tool} {message : Option Message} {plan : Object}
    (h : stageOf library w t = some (.merged tool message plan)) :
    stageOf library w' t = some (.merged tool message plan) ∨ ∃ answer,
      w'.history = (t, .answers (.invokeCommand tool message (staged plan)) answer) :: w.history := by
  cases hm with
  | begins hbegins =>
    exact .inl ((Discipline.stage_begun_of_ne (Nat.ne_of_lt (hs.stage_lt h)) ..).trans h)
  | answers hstage hallows hact hrunning =>
    rename_i u c op next shared answer m
    by_cases ht : t = u
    · subst ht
      obtain rfl := Option.some.inj (h.symm.trans hstage)
      cases op with
      | merge key tool input =>
        obtain ⟨message, hm, -⟩ := hallows
        cases hm
      | invokeCommand tool message plan =>
        obtain ⟨merged, hm, -, -, rfl⟩ := hallows
        cases hm
        exact .inr ⟨answer, rfl⟩
      | clear key tool =>
        obtain ⟨message, hm, -⟩ := hallows
        cases hm
    · exact .inl ((Discipline.stage_record_of_ne ht).trans h)
  | waits hstage hallows hact hrunning => exact .inl h
  | ends hstage hpost => exact .inl ((Discipline.stage_ends ..).trans h)
  | hangsUp hstage hhangs hrunning => cases hhangs

theorem Good.push {event : ℕ × Event Call Op Op.Answer Bytes} {newer : History} {m : Merge}
    (h : Good library w newer m) (hs : (discipline library).Follows w)
    (hm : Moves library w i w') (hhistory : w'.history = event :: w.history)
    (hplan : ∀ p ∈ State.suppliedFields m.input,
      (w.shared.plan m.key m.tool).find? p.1 = some p.2 →
        Accounted w'.shared (event :: newer) m.key m.tool p ∨ stages m p = true) :
    Good library w' (event :: newer) m := by
  refine ⟨fun hmissing => ?_, fun p hp => ?_⟩
  · obtain ⟨message, hstage, hkey⟩ | hhanded := h.handing hmissing
    · obtain hstage' | ⟨answer, hanswer⟩ := merged_of_moves hs hm hstage
      · exact .inl ⟨message, hstage', hkey⟩
      · refine .inr fun p hp => ?_
        obtain ⟨rfl, -⟩ := List.cons.inj (hhistory.symm.trans hanswer)
        have hevent : handsOver m.key m.tool p (m.thread,
            .answers (.invokeCommand m.tool message (staged m.plan)) answer) = true := by
          simp [handsOver, hkey, hp]
        rw [List.any_cons, hevent, Bool.true_or]
    · refine .inr fun p hp => ?_
      rw [List.any_cons, hhanded p hp, Bool.or_true]
  · obtain (hpresent | hreplaced | hhanded) | hstages := h.kept p hp
    · exact hplan p hp hpresent
    · refine .inl (.inr (.inl ?_))
      rw [List.any_cons, hreplaced, Bool.or_true]
    · refine .inl (.inr (.inr ?_))
      rw [List.any_cons, hhanded, Bool.or_true]
    · exact .inr hstages

-- What a new merge leaves of the plan, or puts in the place of a value.
theorem replaces_of_merge {s s' : State} {u : ℕ} {key key' : String} {tool tool' : Tool}
    {input plan : Object} (hmerge : s.merge key tool input = (s', .ok plan)) {p : Bytes × Json}
    (hp : (s.plan key' tool').find? p.1 = some p.2) :
    (s'.plan key' tool').find? p.1 = some p.2 ∨
      replaces key' tool' p.1 (u, .answers (.merge key tool input) (.ok plan)) = true := by
  rw [State.plan_merge hmerge]
  by_cases hsame : key' = key ∧ tool' = tool
  · obtain ⟨rfl, rfl⟩ := hsame
    rw [if_pos ⟨rfl, rfl⟩]
    obtain ⟨clears, hclears, rfl, -⟩ := State.merge_eq_ok hmerge
    cases hfind : input.find? p.1 with
    | some value =>
      refine .inr ?_
      simp [replaces, mergeOf, hfind]
    | none =>
      cases clears with
      | true =>
        refine .inr ?_
        have htrue : (State.resets input).toOption = some true := by rw [hclears]; rfl
        simp [replaces, mergeOf, htrue]
      | false =>
        refine .inl ?_
        have hlast : Assoc.last? (State.suppliedFields input) p.1 = none := by
          rw [Option.eq_none_iff_forall_ne_some]
          intro value hvalue
          have hmem := (Assoc.last?_eq_some (State.nodup_suppliedFields input)).mp hvalue
          exact Assoc.find?_eq_none.mp hfind value (List.mem_of_mem_filter hmem)
        rw [Assoc.find?_insertAll, hlast]
        exact hp
  · rw [if_neg hsame]
    exact .inl hp

theorem good_merge {u : ℕ} {key : String} {tool : Tool}
    {input plan : Object} {message : Option Message}
    (hmerge : w.shared.merge key tool input = (w'.shared, .ok plan))
    (hkey : key = keyFor message)
    (hstage : stageOf library w' u = some (.merged tool message plan)) :
    Good library w' [] ⟨u, key, tool, input, plan⟩ := by
  refine ⟨fun _ => .inl ⟨message, hstage, hkey.symm⟩, fun p hp => .inl (.inl ?_)⟩
  rw [State.plan_merge hmerge, if_pos ⟨rfl, rfl⟩]
  obtain ⟨clears, -, rfl, -⟩ := State.merge_eq_ok hmerge
  have hlast := (Assoc.last?_eq_some (State.nodup_suppliedFields input)).mpr hp
  rw [Assoc.find?_insertAll, hlast]
  rfl

-- Of the values that are cleared, none is lost.
theorem accounted_of_clear {key : String} {tool : Tool} {newer older : History} {m : Merge}
    {event e : ℕ × Event Call Op Op.Answer Bytes} (hm : m ∈ mergeOf e)
    (hvalid : validateCommon library m.plan m.tool = none)
    (hsplit : w.history = newer ++ e :: older)
    (hspares : Followed (fun newer event => spares library w.shared key tool newer event = true) []
      w.history) (hshared : w'.shared = w.shared.clear key tool) {p : Bytes × Json}
    (hp : p ∈ State.suppliedFields m.input)
    (hpresent : (w.shared.plan m.key m.tool).find? p.1 = some p.2) :
    Accounted w'.shared (event :: newer) m.key m.tool p ∨ stages m p = true := by
  by_cases hsame : m.key = key ∧ m.tool = tool
  · obtain ⟨rfl, rfl⟩ := hsame
    have hspared := followed_iff.mp hspares newer e older hsplit
    have hmerge := (Option.all_eq_true _ _).mp hspared m hm
    simp only [bne_self_eq_false, Bool.false_or, hvalid, Option.isSome_none, List.all_eq_true,
      Bool.or_eq_true, bne_iff_ne, List.nil_append] at hmerge
    obtain ((habsent | hreplaced) | hhanded) | hstages := hmerge p hp
    · exact absurd hpresent habsent
    · refine .inl (.inr (.inl ?_))
      rw [List.any_cons, hreplaced, Bool.or_true]
    · refine .inl (.inr (.inr ?_))
      rw [List.any_cons, hhanded, Bool.or_true]
    · exact .inr hstages
  · refine .inl (.inl ?_)
    rw [hshared, State.find?_clear hsame]
    exact hpresent

theorem Kept.of_moves (h : Kept library w) (hs : (discipline library).Follows w)
    (hguard : ClearsStaged library w i) (hm : Moves library w i w') : Kept library w' := by
  -- A step that adds an event to the history and leaves the plans alone.
  have hpush {event : ℕ × Event Call Op Op.Answer Bytes} (hhistory : w'.history = event :: w.history)
      (hnone : mergeOf event = none) (hplan : ∀ key tool, w'.shared.plan key tool =
        w.shared.plan key tool) : Kept library w' := by
    unfold Kept
    rw [hhistory]
    refine h.cons (fun m hmerge => ?_) fun first e older hsplit hgood m hmerge hvalid => ?_
    · cases hnone.symm.trans hmerge
    · refine (hgood m hmerge hvalid).push hs hm hhistory fun p hp hpresent => .inl (.inl ?_)
      rw [hplan]
      exact hpresent
  have hmoves := hm
  cases hm with
  | begins hbegins =>
    cases hbegins
    exact hpush rfl rfl fun _ _ => rfl
  | ends hstage hpost => exact hpush rfl rfl fun _ _ => rfl
  | hangsUp hstage hhangs hrunning => cases hhangs
  | waits hstage hallows hact hrunning =>
    rename_i t c op shared m
    cases op <;> cases hact
  | answers hstage hallows hact hrunning =>
    rename_i t c op next shared answer m
    cases op with
    | invokeCommand tool message plan =>
      cases hact
      exact hpush rfl rfl fun _ _ => rfl
    | clear key tool =>
      cases hact
      have hspares := hguard key tool (asks_of_running hrunning)
      refine h.cons (fun m hmerge => nomatch hmerge) ?_
      intro first e older hsplit hgood m' hmerge hvalid
      refine (hgood m' hmerge hvalid).push hs hmoves rfl ?_
      exact fun p hp hpresent =>
        accounted_of_clear hmerge hvalid hsplit hspares rfl hp hpresent
    | merge key tool input =>
      have hmerge : w.shared.merge key tool input = (shared, answer) := by
        have heq := Option.some.inj hact
        exact Prod.ext (Prod.mk.inj heq).1 (Option.some.inj (Prod.mk.inj heq).2)
      cases answer with
      | error e =>
        exact hpush rfl rfl (State.plan_merge_error hmerge)
      | ok plan =>
        obtain ⟨message, rfl, hkey⟩ := hallows
        refine h.cons ?_ ?_
        · intro m hm' hvalid
          obtain rfl := Option.some.inj hm'
          exact good_merge hmerge hkey (Discipline.stage_answers hstage ..)
        · intro first e older hsplit hgood m' hmerge' hvalid
          refine (hgood m' hmerge' hvalid).push hs hmoves rfl ?_
          intro p hp hpresent
          obtain hpresent | hreplaced := replaces_of_merge (u := t) hmerge hpresent
          · exact .inl (.inl hpresent)
          · refine .inl (.inr (.inl ?_))
            rw [List.any_cons, hreplaced, Bool.true_or]

theorem kept_of_path {steps : List Step}
    (hg : Transition.Guarded (step library) (ClearsStaged library) World.initial steps)
    (hp : Transition.path (step library) World.initial steps = some w) :
    (discipline library).Follows w ∧ Kept library w := by
  refine Transition.path_invariant (fun w => (discipline library).Follows w ∧ Kept library w) ?_
    ⟨Discipline.Follows.initial _, trivial⟩ hg hp
  rintro u i u' ⟨hs, h⟩ hguard hstep
  exact ⟨hs.of_step (governs library) hstep,
    h.of_moves hs hguard (Discipline.moves_of_step hs hstep)⟩

-- No value of a call that has returned is lost without a trace.
theorem updates_kept {steps : List Step}
    (hg : Transition.Guarded (step library) (ClearsStaged library) World.initial steps)
    (hp : Transition.path (step library) World.initial steps = some w) : UpdatesKept library w := by
  obtain ⟨hs, hkept⟩ := kept_of_path hg hp
  refine followed_iff.mpr fun newer event older hsplit m hmerge hvalid hreturned p hp => ?_
  have hgood := followed_iff.mp hkept newer event older hsplit m hmerge hvalid
  obtain haccounted | hstages := hgood.kept p hp
  · exact haccounted
  · obtain ⟨hmissing, hstaged⟩ := Bool.and_eq_true_iff.mp hstages
    have hmissing := List.isEmpty_iff.mp hmissing
    obtain ⟨message, hstage, -⟩ | hhanded := hgood.handing hmissing
    · -- A call with a plan to hand over has not returned.
      obtain ⟨⟨u, event'⟩, hmem, hends⟩ := List.any_eq_true.mp hreturned
      split at hends
      · next u' a heq =>
        cases heq
        obtain rfl := beq_iff_eq.mp hends
        obtain ⟨-, m', hstage', hpost⟩ := hs.ended _ _ hmem
        obtain rfl := Option.some.inj (hstage.symm.trans hstage')
        obtain hinvalid | hincomplete := hpost
        · exact absurd hvalid hinvalid
        · exact absurd hmissing hincomplete
      · cases hends
    · exact .inr (.inr (hhanded p (beq_iff_eq.mp hstaged)))

end Steps

-- A library that writes every object as nothing, and reads no integer.
def plainLibrary : Library where
  dump _ := .ok []
  integer _ := none

def admin : Message := ⟨some 7, some 7⟩

def launch (members : List (Bytes × Json)) : Call :=
  ⟨some admin, Tool.kernel.name, .object members⟩

def completePlan : Call :=
  launch [(ascii "kernel", .string (ascii "Eureka")), (ascii "device", .string (ascii "a10"))]

def freshPlan : Call :=
  launch [(reset, .bool true), (ascii "kernel", .string (ascii "Grand"))]

def otherKernel : Call := launch [(ascii "kernel", .string (ascii "Grand"))]

-- The second call replaces the kernel before the first one hands its plan over and clears it, and
-- hands over its own after that.
def replacing : List Step :=
  [.begins completePlan, .acts 0 (.ok true), .begins otherKernel, .acts 1 (.ok true),
    .acts 0 (.ok true), .acts 0 (.ok true), .ends 0, .acts 1 (.ok true), .acts 1 (.ok true),
    .ends 1]

theorem updates_kept_replacing :
    ∃ w, Transition.path (step plainLibrary) World.initial replacing = some w ∧
      UpdatesKept plainLibrary w := by
  obtain ⟨w, hpath, -⟩ := Transition.exists_path (step plainLibrary) World.initial replacing
    (fun _ => True) (by decide +kernel)
  exact ⟨w, hpath, updates_kept (by decide +kernel) hpath⟩

-- The second call starts the plan over while the first one is staging its own, and the first one
-- clears it.
theorem update_cleared :
    ∃ w, Transition.path (step plainLibrary) World.initial
        [.begins completePlan, .acts 0 (.ok true), .acts 0 (.ok true), .begins freshPlan,
          .acts 1 (.ok true), .ends 1, .acts 0 (.ok true), .ends 0] = some w ∧
      ¬UpdatesKept plainLibrary w :=
  Transition.exists_path (step plainLibrary) World.initial _ _ (by decide +kernel)

end Glider.Llm.BuilderLaunch

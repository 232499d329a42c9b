import Glider.Llm.PlanUpdates
import Glider.Lib.Word

namespace Glider.Llm.BuilderLaunch

open Glider.Lib
open Bytes (ascii)

-- One call of the executor, without another one at the same time.
def perform (outcome : Except Bytes Bool) (s : State) : (op : Op) → op.Answer × State
  | .merge key tool input => ((s.merge key tool input).2, (s.merge key tool input).1)
  | .invokeCommand _ _ _ => (outcome, s)
  | .clear key tool => ((), s.clear key tool)

-- The call gets as far as `validateCommon`, and fails there.
structure Rejects (library : Library) (s : State) (call : Call) (tool : Tool) (input : Object) :
    Prop where
  named : Tool.ofName call.name = some tool
  given : objectOf call.input = some input
  authenticated : keyFor call.message ≠ ""
  rejected : ∃ plan error, (s.merge (keyFor call.message) tool input).2 = .ok plan ∧
    validateCommon library plan tool = some error

-- What `validateCommon` finds in the plan of a call, if the call gets there.
def verdict (library : Library) (s : State) (key : String) (tool : Tool) (input : Object) :
    Option (Option Bytes) :=
  (s.merge key tool input).2.toOption.map fun plan => validateCommon library plan tool

-- The plans of the key are as they were, and every later call is judged as it would have been.
structure SamePlans (library : Library) (key : String) (s s' : State) : Prop where
  plans : ∀ tool field, (s'.plan key tool).find? field = (s.plan key tool).find? field
  verdicts : ∀ tool input, verdict library s' key tool input = verdict library s key tool input

def LeavesPlans (library : Library) (s : State) (call : Call) : Prop :=
  (executor library call).Ensures perform
    (fun s' _ => SamePlans library (keyFor call.message) s s') s

-- The input says nothing new: what it supplies is in the plan, and a reset takes nothing away.
def Repeats (plan input : Object) : Prop :=
  (∀ p ∈ State.suppliedFields input, plan.find? p.1 = some p.2) ∧
    (State.resets input = .ok true → ∀ field ∈ plan.keys,
      field ∈ (State.suppliedFields input).map Prod.fst)

section Plans

variable {library : Library} {s s' : State} {key : String} {tool : Tool} {plan plan' input : Object}

theorem validateCommon_congr (h : ∀ field, plan.find? field = plan'.find? field) :
    validateCommon library plan tool = validateCommon library plan' tool := by
  cases tool <;>
    simp only [validateCommon, requireString, requireStrings, check, h]

theorem verdict_congr (h : ∀ field, (s'.plan key tool).find? field = (s.plan key tool).find? field) :
    verdict library s' key tool input = verdict library s key tool input := by
  unfold verdict State.merge
  cases State.resets input with
  | error e => rfl
  | ok clears =>
    refine congrArg some (validateCommon_congr fun field => ?_)
    rw [Assoc.find?_insertAll, Assoc.find?_insertAll]
    cases clears with
    | true => rfl
    | false => exact congrArg _ (h field)

theorem samePlans_iff : SamePlans library key s s' ↔
    ∀ tool field, (s'.plan key tool).find? field = (s.plan key tool).find? field :=
  ⟨SamePlans.plans, fun h => ⟨h, fun _ _ => verdict_congr (h _)⟩⟩

theorem last?_suppliedFields {p : Bytes × Json} :
    Assoc.last? (State.suppliedFields input) p.1 = some p.2 ↔ p ∈ State.suppliedFields input :=
  Assoc.last?_eq_some (State.nodup_suppliedFields input)

theorem repeats_of_same {clears : Bool} (hclears : State.resets input = .ok clears)
    (h : ∀ field, ((if clears then .empty else plan).insertAll (State.suppliedFields input)).find?
      field = plan.find? field) : Repeats plan input := by
  refine ⟨fun p hp => ?_, fun hresets field hfield => ?_⟩
  · rw [← h, Assoc.find?_insertAll, last?_suppliedFields.mpr hp]
    rfl
  · obtain rfl := Except.ok.inj (hclears.symm.trans hresets)
    obtain ⟨value, hvalue⟩ := Assoc.mem_keys.mp hfield
    rw [← h, Assoc.find?_insertAll] at hvalue
    -- An empty plan has no value of its own.
    have hlast : Assoc.last? (State.suppliedFields input) field = some value := by
      cases hlast : Assoc.last? (State.suppliedFields input) field with
      | some value' => rwa [hlast] at hvalue
      | none =>
        rw [hlast] at hvalue
        cases hvalue
    exact List.mem_map_of_mem (Assoc.mem_of_last? hlast)

theorem same_of_repeats {clears : Bool} (hclears : State.resets input = .ok clears)
    (h : Repeats plan input) (field : Bytes) :
    ((if clears then .empty else plan).insertAll (State.suppliedFields input)).find? field =
      plan.find? field := by
  obtain ⟨hsupplied, hreset⟩ := h
  rw [Assoc.find?_insertAll]
  cases hlast : Assoc.last? (State.suppliedFields input) field with
  | some value => exact (hsupplied _ (Assoc.mem_of_last? hlast)).symm
  | none =>
    cases clears with
    | false => rfl
    | true =>
      cases hfind : plan.find? field with
      | none => rfl
      | some value =>
        have hmem := hreset hclears field (Assoc.mem_keys.mpr ⟨value, hfind⟩)
        obtain ⟨value', hvalue⟩ := Assoc.exists_last? hmem
        cases hlast.symm.trans hvalue

theorem samePlans_merge_iff (h : s.merge key tool input = (s', .ok plan)) :
    SamePlans library key s s' ↔ Repeats (s.plan key tool) input := by
  obtain ⟨clears, hclears, hplan, -⟩ := State.merge_eq_ok h
  rw [samePlans_iff]
  constructor
  · intro hsame
    refine repeats_of_same hclears fun field => ?_
    rw [← hplan, ← hsame tool field, State.plan_merge h, if_pos ⟨rfl, rfl⟩]
  · intro hrepeats tool' field
    rw [State.plan_merge h]
    split
    · next hsame =>
      rw [hsame.2, hplan]
      exact same_of_repeats hclears hrepeats field
    · rfl

end Plans

section Executor

variable {library : Library} {s : State} {call : Call} {tool : Tool} {input : Object}

theorem ensures_orThrow {α : Type} {f : α → Launch Reply} (a : α)
    {post : State → Except Bytes Reply → Prop} :
    (orThrow (.ok a) >>= f).Ensures perform post s ↔ (f a).Ensures perform post s := Iff.rfl

-- A rejected call merges its input, and returns the error.
theorem Rejects.executor_ensures (h : Rejects library s call tool input)
    (post : State → Except Bytes Reply → Prop) :
    ∃ plan error, s.merge (keyFor call.message) tool input =
        ((s.merge (keyFor call.message) tool input).1, .ok plan) ∧
      ((executor library call).Ensures perform post s ↔
        post (s.merge (keyFor call.message) tool input).1 (.ok ⟨error, true⟩)) := by
  obtain ⟨plan, error, hmerge, hinvalid⟩ := h.rejected
  refine ⟨plan, error, Prod.ext rfl hmerge, ?_⟩
  rw [executor, h.named]
  dsimp only
  rw [h.given]
  dsimp only
  rw [if_neg h.authenticated, updatePlan, Program.ensures_perform_bind]
  have hrest (outcome : Except Bytes Bool) :
      perform outcome s (.merge (keyFor call.message) tool input) =
        (.ok plan, (s.merge (keyFor call.message) tool input).1) := Prod.ext hmerge rfl
  simp only [hrest, ensures_orThrow, hinvalid, Program.ensures_pure]
  exact ⟨fun h => h (.ok true), fun h _ => h⟩

-- A rejected call leaves the plans alone just when it repeats what they hold.
theorem leavesPlans_iff (h : Rejects library s call tool input) :
    LeavesPlans library s call ↔ Repeats (s.plan (keyFor call.message) tool) input := by
  obtain ⟨plan, error, hmerge, hensures⟩ := h.executor_ensures _
  rw [LeavesPlans, hensures]
  exact samePlans_merge_iff hmerge

end Executor

-- The call that asks for parallel jobs once more, and the plan that it finds.
def noJobs : Call :=
  ⟨some admin, Tool.rom.name, .object [(ascii "parallel_jobs", .number (ascii "0"))]⟩

def refusedPlan : State := (State.initial.merge (keyFor noJobs.message) .rom
  (Assoc.empty.insert (ascii "parallel_jobs") (.number (ascii "0")))).1

theorem leavesPlans_iff_noJobs :
    LeavesPlans plainLibrary refusedPlan noJobs ↔
      Repeats (refusedPlan.plan (keyFor noJobs.message) .rom)
        (Assoc.empty.insert (ascii "parallel_jobs") (.number (ascii "0"))) :=
  leavesPlans_iff ⟨by decide, by decide, by decide, _, _, rfl, rfl⟩

-- The number of jobs stays in the plan, and a later call with a device fails for it.
theorem rejected_jobs_stay :
    Rejects plainLibrary .initial noJobs .rom
        (Assoc.empty.insert (ascii "parallel_jobs") (.number (ascii "0"))) ∧
      ¬LeavesPlans plainLibrary .initial noJobs ∧
      verdict plainLibrary .initial (keyFor noJobs.message) .rom
        (Assoc.empty.insert (ascii "device") (.string (ascii "a30"))) = some none ∧
      verdict plainLibrary refusedPlan (keyFor noJobs.message) .rom
        (Assoc.empty.insert (ascii "device") (.string (ascii "a30"))) =
          some (some (ascii "parallel_jobs must be a positive integer.")) := by
  refine ⟨⟨by decide, by decide, by decide, _, _, rfl, rfl⟩, fun h => ?_, rfl, rfl⟩
  have hplan := (h (.ok true)).plans .rom (ascii "parallel_jobs")
  revert hplan
  decide

-- A number without fraction and exponent, as the JSON library reads it: into 64 bits, with a sign
-- only if one is written. Any other number is a floating-point number.
def integerLiteral : Bytes → Option ℤ
  | 45 :: digits =>
    if isNumeral digits && numeral digits ≤ 2 ^ 63 then some (-numeral digits) else none
  | digits => if isNumeral digits && numeral digits < 2 ^ 64 then some (numeral digits) else none
where
  isNumeral (digits : Bytes) : Bool := !digits.isEmpty && digits.all Decimal.isDigit
  numeral (digits : Bytes) : ℕ := digits.foldl (fun n d => 10 * n + (d.toNat - 48)) 0

-- `get<int>()` converts.
def jsonLibrary (dump : Object → Except Bytes Bytes) : Library where
  dump := dump
  integer text := (integerLiteral text).map toInt32

-- The number that a tool checks, and its least value.
def numberField : Tool → Bytes
  | .kernel => ascii "clone_depth"
  | .rom => ascii "parallel_jobs"

def leastValue : Tool → ℤ
  | .kernel => 0
  | .rom => 1

def Tool.other : Tool → Tool
  | .kernel => .rom
  | .rom => .kernel

-- The number that is written.
def written : Json → Option ℤ
  | .number text => integerLiteral text
  | _ => none

def InRange (plan : Object) (tool : Tool) : Prop :=
  ∀ j ∈ plan.find? (numberField tool), ∃ v ∈ written j, leastValue tool ≤ v ∧ v < 2 ^ 31

def NumbersInRange (plan : Object) : Prop := InRange plan .kernel ∧ InRange plan .rom

-- The number survives the conversion.
def FitsInt (plan : Object) (tool : Tool) : Prop :=
  ∀ j ∈ plan.find? (numberField tool), ∀ v ∈ written j, -2 ^ 31 ≤ v ∧ v < 2 ^ 31

section Numbers

variable {dump : Object → Except Bytes Bytes} {plan : Object} {tool : Tool}

theorem check_eq_none {field : String} {good : Json → Bool} {error : String} :
    check plan field good error = none ↔ ∀ j ∈ plan.find? (ascii field), good j = true := by
  rw [check]
  cases plan.find? (ascii field) with
  | none | some j => simp

theorem atLeast_iff {library : Library} {bound : ℤ} {j : Json} :
    atLeast library bound j = true ↔
      ∃ text, j = .number text ∧ ∃ n ∈ library.integer text, bound ≤ n := by
  cases j <;> simp [atLeast, Option.any_eq_true]

-- What is checked of the number of the tool.
theorem checked_of_valid (h : validateCommon (jsonLibrary dump) plan tool = none) :
    ∀ j ∈ plan.find? (numberField tool), ∃ v ∈ written j, leastValue tool ≤ toInt32 v := by
  have hchecked : ∀ j ∈ plan.find? (numberField tool),
      atLeast (jsonLibrary dump) (leastValue tool) j = true := by
    cases tool <;>
      simp only [validateCommon, Option.or_eq_none_iff, check_eq_none] at h
    · exact h.2.2.2.2
    · exact h.2.2.2.2.2
  intro j hj
  obtain ⟨text, rfl, n, hn, hleast⟩ := atLeast_iff.mp (hchecked j hj)
  obtain ⟨v, hv, rfl⟩ := Option.map_eq_some_iff.mp hn
  exact ⟨v, hv, hleast⟩

theorem numbersInRange_split (tool : Tool) :
    NumbersInRange plan ↔ InRange plan tool ∧ InRange plan tool.other := by
  cases tool
  · exact Iff.rfl
  · exact and_comm

theorem inRange_iff_fitsInt (h : validateCommon (jsonLibrary dump) plan tool = none) :
    InRange plan tool ↔ FitsInt plan tool := by
  have hchecked := checked_of_valid h
  constructor
  · intro hrange j hj v hv
    obtain ⟨v', hv', hlo, hhi⟩ := hrange j hj
    obtain rfl := Option.some.inj (hv.symm.trans hv')
    have hleast : 0 ≤ leastValue tool := by cases tool <;> decide
    omega
  · intro hfits j hj
    obtain ⟨v, hv, hleast⟩ := hchecked j hj
    obtain ⟨hlo, hhi⟩ := hfits j hj v hv
    rw [toInt32_of_range hlo hhi] at hleast
    exact ⟨v, hv, hleast, hhi⟩

-- In a plan that is accepted, the numbers are what they are taken for just when the conversion
-- changes nothing, and the number that the other tool checks is in range by itself.
theorem numbersInRange_iff (h : validateCommon (jsonLibrary dump) plan tool = none) :
    NumbersInRange plan ↔ FitsInt plan tool ∧ InRange plan tool.other := by
  rw [numbersInRange_split tool, inRange_iff_fitsInt h]

end Numbers

def plainDump (_ : Object) : Except Bytes Bytes := .ok []

def deepClone : Object := Assoc.empty.insert (ascii "clone_depth") (.number (ascii "50"))

theorem numbersInRange_iff_deepClone :
    NumbersInRange deepClone ↔ FitsInt deepClone .kernel ∧ InRange deepClone .rom :=
  have hvalid : validateCommon (jsonLibrary plainDump) deepClone .kernel = none := by decide
  numbersInRange_iff hvalid

-- A depth of 2^32 is taken for 0.
theorem validateCommon_wraps :
    validateCommon (jsonLibrary plainDump)
        (Assoc.empty.insert (ascii "clone_depth") (.number (ascii "4294967296"))) .kernel = none ∧
      ¬NumbersInRange
        (Assoc.empty.insert (ascii "clone_depth") (.number (ascii "4294967296"))) := by
  refine ⟨by decide, fun h => ?_⟩
  obtain ⟨v, hv, -, hhi⟩ := h.1 (.number (ascii "4294967296")) (by decide)
  have hwritten : written (.number (ascii "4294967296")) = some 4294967296 := by decide
  obtain rfl := Option.some.inj (hwritten.symm.trans hv)
  exact absurd hhi (by decide)

end Glider.Llm.BuilderLaunch

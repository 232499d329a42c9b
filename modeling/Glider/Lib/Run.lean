import Mathlib.Data.List.Forall2

namespace Glider.Lib

variable {σ τ ι ω χ : Type*}

-- A machine takes one input at a time, answers it and moves to its next state.
abbrev Machine (σ ι ω : Type*) := σ → ι → ω × σ

namespace Machine

def run (step : Machine σ ι ω) : σ → List ι → σ
  | s, [] => s
  | s, i :: rest => run step (step s i).2 rest

def outputs (step : Machine σ ι ω) : σ → List ι → List ω
  | _, [] => []
  | s, i :: rest => (step s i).1 :: outputs step (step s i).2 rest

-- `Always guard s inputs` says that every input meets `guard` in the state it is given in.
def Always (step : Machine σ ι ω) (guard : σ → ι → Prop) : σ → List ι → Prop
  | _, [] => True
  | s, i :: rest => guard s i ∧ Always step guard (step s i).2 rest

instance Always.decidable (step : Machine σ ι ω) (guard : σ → ι → Prop)
    [∀ s i, Decidable (guard s i)] : ∀ s inputs, Decidable (Always step guard s inputs)
  | _, [] => inferInstanceAs (Decidable True)
  | s, i :: rest =>
    have := Always.decidable step guard (step s i).2 rest
    inferInstanceAs (Decidable (guard s i ∧ Always step guard (step s i).2 rest))

-- `Throughout good s inputs` says that `good` holds in every state of the run, the first included.
def Throughout (step : Machine σ ι ω) (good : σ → Prop) (s : σ) (inputs : List ι) : Prop :=
  ∀ front, front <+: inputs → good (run step s front)

-- The same machine with everything that was asked and answered, newest first.
def recorded (step : Machine σ ι ω) : Machine (σ × List (ι × ω)) ι ω :=
  fun s i => ((step s.1 i).1, (step s.1 i).2, (i, (step s.1 i).1) :: s.2)

section Rules

variable (step : Machine σ ι ω) (guard : σ → ι → Prop)

@[simp] theorem run_nil (s : σ) : run step s [] = s := rfl

@[simp] theorem run_cons (s : σ) (i : ι) (rest : List ι) :
    run step s (i :: rest) = run step (step s i).2 rest := rfl

@[simp] theorem outputs_nil (s : σ) : outputs step s [] = [] := rfl

@[simp] theorem outputs_cons (s : σ) (i : ι) (rest : List ι) :
    outputs step s (i :: rest) = (step s i).1 :: outputs step (step s i).2 rest := rfl

@[simp] theorem always_nil (s : σ) : Always step guard s [] := trivial

@[simp] theorem always_cons (s : σ) (i : ι) (rest : List ι) :
    Always step guard s (i :: rest) ↔ guard s i ∧ Always step guard (step s i).2 rest := Iff.rfl

variable {step guard}

theorem always_and {other : σ → ι → Prop} {s : σ} {inputs : List ι} :
    Always step (fun s i => guard s i ∧ other s i) s inputs ↔
      Always step guard s inputs ∧ Always step other s inputs := by
  induction inputs generalizing s with
  | nil => simp
  | cons i rest ih =>
    simp only [always_cons, ih]
    exact and_and_and_comm

theorem always_of_forall {allowed : ι → Prop} {inputs : List ι} (h : ∀ i ∈ inputs, allowed i)
    (s : σ) : Always step (fun _ i => allowed i) s inputs := by
  induction inputs generalizing s with
  | nil => trivial
  | cons i rest ih =>
    exact ⟨h i List.mem_cons_self, ih (fun j hj => h j (List.mem_cons_of_mem i hj)) _⟩

-- A property that every guarded step keeps holds at the end of every guarded run.
theorem run_invariant {good : σ → Prop}
    (hstep : ∀ s i, good s → guard s i → good (step s i).2)
    {s : σ} {inputs : List ι} (hs : good s) (hg : Always step guard s inputs) :
    good (run step s inputs) := by
  induction inputs generalizing s with
  | nil => exact hs
  | cons i rest ih => exact ih (hstep s i hs hg.1) hg.2

-- The unguarded form of the rule.
theorem run_invariant_of_step {good : σ → Prop} (hstep : ∀ s i, good s → good (step s i).2)
    {s : σ} (hs : good s) (inputs : List ι) : good (run step s inputs) := by
  induction inputs generalizing s with
  | nil => exact hs
  | cons i rest ih => exact ih (hstep s i hs)

-- What a guarded step shows from good states, every step of a guarded run shows.
theorem always_of_invariant {good : σ → Prop} {other : σ → ι → Prop}
    (hstep : ∀ s i, good s → guard s i → other s i ∧ good (step s i).2)
    {s : σ} {inputs : List ι} (hs : good s) (hg : Always step guard s inputs) :
    Always step other s inputs := by
  induction inputs generalizing s with
  | nil => trivial
  | cons i rest ih =>
    obtain ⟨hother, hnext⟩ := hstep s i hs hg.1
    exact ⟨hother, ih hnext hg.2⟩

theorem throughout_cons {good : σ → Prop} {s : σ} {i : ι} {rest : List ι} :
    Throughout step good s (i :: rest) ↔ good s ∧ Throughout step good (step s i).2 rest := by
  constructor
  · intro h
    refine ⟨h [] (List.nil_prefix), ?_⟩
    intro front hf
    exact h (i :: front) (List.prefix_cons_inj i |>.mpr hf)
  · rintro ⟨hs, hr⟩ front hf
    cases front with
    | nil => exact hs
    | cons j front =>
      obtain ⟨rfl, ht⟩ := List.cons_prefix_cons.mp hf
      exact hr front ht

-- When a guarded step keeps `good` and an unguarded one breaks it, a run is good throughout
-- exactly when all its steps are guarded.
theorem throughout_iff_always {good : σ → Prop}
    (hstep : ∀ s i, good s → (good (step s i).2 ↔ guard s i)) {s : σ} (hs : good s)
    (inputs : List ι) : Throughout step good s inputs ↔ Always step guard s inputs := by
  induction inputs generalizing s with
  | nil =>
    refine ⟨fun _ => trivial, fun _ front hf => ?_⟩
    rwa [List.prefix_nil.mp hf]
  | cons i rest ih =>
    rw [throughout_cons, always_cons]
    constructor
    · rintro ⟨_, hr⟩
      have hn : good (step s i).2 := hr [] List.nil_prefix
      exact ⟨(hstep s i hs).mp hn, (ih hn).mp hr⟩
    · rintro ⟨hg, hr⟩
      exact ⟨hs, (ih ((hstep s i hs).mpr hg)).mpr hr⟩

end Rules

section Lockstep

variable {step : Machine σ ι ω} {other : Machine τ ι χ} {guard : σ → ι → Prop}

-- Two machines in related states that answer every guarded input alike, and stay related, answer
-- the whole guarded run alike.
theorem outputs_forall₂ {related : σ → τ → Prop} {alike : ω → χ → Prop}
    (hstep : ∀ s t i, related s t → guard s i →
      alike (step s i).1 (other t i).1 ∧ related (step s i).2 (other t i).2)
    {s : σ} {t : τ} {inputs : List ι} (hr : related s t) (hg : Always step guard s inputs) :
    List.Forall₂ alike (outputs step s inputs) (outputs other t inputs) := by
  induction inputs generalizing s t with
  | nil => exact .nil
  | cons i rest ih =>
    obtain ⟨ha, hn⟩ := hstep s t i hr hg.1
    exact .cons ha (ih hn hg.2)

end Lockstep

-- With the guard exact for one step, it is exact for the whole run.
theorem outputs_eq_iff_always {step : Machine σ ι ω} {other : Machine τ ι ω}
    {guard : σ → ι → Prop} {related : σ → τ → Prop}
    (hsame : ∀ s t i, related s t → guard s i →
      (step s i).1 = (other t i).1 ∧ related (step s i).2 (other t i).2)
    (hdiff : ∀ s t i, related s t → ¬guard s i → (step s i).1 ≠ (other t i).1)
    {s : σ} {t : τ} (hr : related s t) (inputs : List ι) :
    outputs step s inputs = outputs other t inputs ↔ Always step guard s inputs := by
  induction inputs generalizing s t with
  | nil => simp
  | cons i rest ih =>
    rw [outputs_cons, outputs_cons, List.cons.injEq, always_cons]
    by_cases hg : guard s i
    · obtain ⟨he, hn⟩ := hsame s t i hr hg
      rw [ih hn]
      exact ⟨fun h => ⟨hg, h.2⟩, fun h => ⟨he, h.2⟩⟩
    · exact ⟨fun h => absurd h.1 (hdiff s t i hr hg), fun h => absurd h.1 hg⟩

end Machine

end Glider.Lib

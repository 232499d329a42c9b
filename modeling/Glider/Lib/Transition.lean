import Mathlib.Data.List.Basic
import Mathlib.Data.Option.Basic

namespace Glider.Lib

variable {σ ι : Type*}

-- One atomic step of a system of threads. A step that is not enabled in a state is `none`.
abbrev Transition (σ ι : Type*) := σ → ι → Option σ

namespace Transition

-- An interleaving is the list of the steps in the order they are made.
def path (step : Transition σ ι) : σ → List ι → Option σ
  | s, [] => some s
  | s, i :: rest => (step s i).bind fun t => path step t rest

-- `Guarded guard s steps` says that every step meets `guard` in the state it is made in.
def Guarded (step : Transition σ ι) (guard : σ → ι → Prop) : σ → List ι → Prop
  | _, [] => True
  | s, i :: rest => guard s i ∧ (step s i).elim True fun t => Guarded step guard t rest

instance Guarded.decidable (step : Transition σ ι) (guard : σ → ι → Prop)
    [∀ s i, Decidable (guard s i)] : ∀ s steps, Decidable (Guarded step guard s steps)
  | _, [] => inferInstanceAs (Decidable True)
  | s, i :: rest =>
    have : Decidable ((step s i).elim True fun t => Guarded step guard t rest) :=
      match step s i with
      | none => inferInstanceAs (Decidable True)
      | some t => Guarded.decidable step guard t rest
    inferInstanceAs (Decidable (guard s i ∧ _))

variable {step : Transition σ ι} {guard : σ → ι → Prop}

@[simp] theorem path_nil (s : σ) : path step s [] = some s := rfl

theorem path_cons_eq_some {s t : σ} {i : ι} {rest : List ι} :
    path step s (i :: rest) = some t ↔ ∃ u, step s i = some u ∧ path step u rest = some t :=
  Option.bind_eq_some_iff

theorem path_append_eq_some {s t : σ} {first rest : List ι} :
    path step s (first ++ rest) = some t ↔
      ∃ u, path step s first = some u ∧ path step u rest = some t := by
  induction first generalizing s with
  | nil => simp
  | cons i first ih =>
    simp only [List.cons_append, path_cons_eq_some, ih]
    constructor
    · rintro ⟨u, hu, v, hv, ht⟩
      exact ⟨v, ⟨u, hu, hv⟩, ht⟩
    · rintro ⟨v, ⟨u, hu, hv⟩, ht⟩
      exact ⟨u, hu, v, hv, ht⟩

theorem guarded_cons {s t : σ} {i : ι} {rest : List ι} (ht : step s i = some t) :
    Guarded step guard s (i :: rest) ↔ guard s i ∧ Guarded step guard t rest := by
  simp only [Guarded, ht, Option.elim]

theorem guarded_append {s t : σ} {first rest : List ι} (ht : path step s first = some t) :
    Guarded step guard s (first ++ rest) ↔
      Guarded step guard s first ∧ Guarded step guard t rest := by
  induction first generalizing s with
  | nil =>
    obtain rfl : s = t := Option.some.inj ht
    simp only [Guarded, List.nil_append, true_and]
  | cons i first ih =>
    obtain ⟨u, hu, hpath⟩ := path_cons_eq_some.mp ht
    rw [List.cons_append, guarded_cons hu, guarded_cons hu, ih hpath, and_assoc]

theorem Guarded.mono {guard' : σ → ι → Prop} (himp : ∀ s i, guard' s i → guard s i) {s : σ}
    {steps : List ι} (h : Guarded step guard' s steps) : Guarded step guard s steps := by
  induction steps generalizing s with
  | nil => trivial
  | cons i rest ih =>
    refine ⟨himp s i h.1, ?_⟩
    have hrest := h.2
    cases hs : step s i with
    | none => trivial
    | some t =>
      rw [hs] at hrest
      exact ih hrest

theorem Guarded.of_isPrefix {first steps : List ι} (hfirst : first <+: steps) {s : σ}
    (h : Guarded step guard s steps) : Guarded step guard s first := by
  induction first generalizing s steps with
  | nil => trivial
  | cons i first ih =>
    obtain ⟨rest, rfl⟩ := hfirst
    refine ⟨h.1, ?_⟩
    have hrest := h.2
    cases hs : step s i with
    | none => trivial
    | some t =>
      rw [hs] at hrest
      exact ih (List.prefix_append first rest) hrest

-- What every guarded step keeps holds at the end of every guarded interleaving.
theorem path_invariant (good : σ → Prop)
    (hstep : ∀ s i t, good s → guard s i → step s i = some t → good t) {s t : σ}
    {steps : List ι} (hs : good s) (hg : Guarded step guard s steps)
    (hp : path step s steps = some t) : good t := by
  induction steps generalizing s with
  | nil =>
    rw [path_nil, Option.some_inj] at hp
    exact hp ▸ hs
  | cons i rest ih =>
    obtain ⟨u, hu, hp⟩ := path_cons_eq_some.mp hp
    obtain ⟨hi, hg⟩ := (guarded_cons hu).mp hg
    exact ih (hstep s i u hs hi hu) hg hp

theorem path_invariant_of_step (good : σ → Prop)
    (hstep : ∀ s i t, good s → step s i = some t → good t) {s t : σ} {steps : List ι}
    (hs : good s) (hp : path step s steps = some t) : good t := by
  induction steps generalizing s with
  | nil =>
    rw [path_nil, Option.some_inj] at hp
    exact hp ▸ hs
  | cons i rest ih =>
    obtain ⟨u, hu, hp⟩ := path_cons_eq_some.mp hp
    exact ih (hstep s i u hs hu) hp

-- When a step out of a good state leads to a good one exactly if it is guarded, an interleaving has
-- only good states exactly if all its steps are.
theorem throughout_iff_guarded {good inv : σ → Prop}
    (hstep : ∀ s i t, inv s → good s → step s i = some t → inv t ∧ (good t ↔ guard s i))
    {s t : σ} {steps : List ι} (hi : inv s) (hs : good s) (hp : path step s steps = some t) :
    (∀ first u, first <+: steps → path step s first = some u → good u) ↔
      Guarded step guard s steps := by
  induction steps generalizing s with
  | nil =>
    refine ⟨fun _ => trivial, fun _ first u hfirst hu => ?_⟩
    rw [List.prefix_nil.mp hfirst, path_nil, Option.some_inj] at hu
    exact hu ▸ hs
  | cons i rest ih =>
    obtain ⟨v, hv, hp⟩ := path_cons_eq_some.mp hp
    obtain ⟨hiv, hgood⟩ := hstep s i v hi hs hv
    rw [guarded_cons hv]
    constructor
    · intro h
      have hgv : good v := h [i] v (by simp) (path_cons_eq_some.mpr ⟨v, hv, rfl⟩)
      refine ⟨hgood.mp hgv, (ih hiv hgv hp).mp ?_⟩
      intro first u hfirst hu
      exact h (i :: first) u ((List.prefix_cons_inj i).mpr hfirst)
        (path_cons_eq_some.mpr ⟨v, hv, hu⟩)
    · rintro ⟨hguard, hrest⟩ first u hfirst hu
      cases first with
      | nil =>
        rw [path_nil, Option.some_inj] at hu
        exact hu ▸ hs
      | cons j first =>
        obtain ⟨rfl, hprefix⟩ := List.cons_prefix_cons.mp hfirst
        obtain ⟨w, hw, hu⟩ := path_cons_eq_some.mp hu
        obtain rfl : w = v := Option.some.inj (hw.symm.trans hv)
        exact (ih hiv (hgood.mpr hguard) hp).mpr hrest first u hprefix hu

theorem enabled_eq_some {c : Prop} [Decidable c] {s t : σ}
    (h : (if c then some s else none) = some t) : c ∧ s = t := by
  obtain ⟨hc, hs⟩ := Option.ite_none_right_eq_some.mp h
  exact ⟨hc, Option.some_inj.mp hs⟩

-- A concrete interleaving is followed by evaluation.
theorem exists_path (step : Transition σ ι) (s : σ) (steps : List ι) (reached : σ → Prop)
    [DecidablePred reached] (h : (path step s steps).any (fun t => reached t) = true) :
    ∃ t, path step s steps = some t ∧ reached t := by
  obtain ⟨t, ht, hr⟩ := (Option.any_eq_true _ _).mp h
  exact ⟨t, ht, of_decide_eq_true hr⟩

end Transition

end Glider.Lib

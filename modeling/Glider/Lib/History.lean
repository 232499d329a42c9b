import Mathlib.Data.List.Basic

namespace Glider.Lib

variable {ε : Type*}

-- A history is a list of events, newest first. `Explained good` says that every event was good in
-- view of the events before it.
def Explained (good : ε → List ε → Prop) : List ε → Prop
  | [] => True
  | event :: older => good event older ∧ Explained good older

instance Explained.decidable (good : ε → List ε → Prop) [∀ event older, Decidable (good event older)]
    (history : List ε) : Decidable (Explained good history) :=
  match history with
  | [] => inferInstanceAs (Decidable True)
  | event :: older =>
    have : Decidable (Explained good older) := Explained.decidable ..
    inferInstanceAs (Decidable (good event older ∧ _))

theorem Explained.of_append {good : ε → List ε → Prop} {newer older : List ε}
    (h : Explained good (newer ++ older)) : Explained good older := by
  induction newer with
  | nil => exact h
  | cons event newer ih => exact ih h.2

theorem Explained.mono {good good' : ε → List ε → Prop}
    (himp : ∀ event older, good event older → good' event older) {history : List ε}
    (h : Explained good history) : Explained good' history := by
  induction history with
  | nil => trivial
  | cons event older ih => exact ⟨himp event older h.1, ih h.2⟩

-- Where something else is known of the events, two accounts of them may be the same.
theorem Explained.congr {known good good' : ε → List ε → Prop} {history : List ε}
    (h : Explained known history)
    (hiff : ∀ event older, known event older → (good event older ↔ good' event older)) :
    Explained good history ↔ Explained good' history := by
  induction history with
  | nil => exact Iff.rfl
  | cons event older ih => exact and_congr (hiff event older h.1) (ih h.2)

theorem explained_iff {good : ε → List ε → Prop} {history : List ε} :
    Explained good history ↔
      ∀ newer event older, history = newer ++ event :: older → good event older := by
  constructor
  · rintro h newer event older rfl
    exact h.of_append.1
  · intro h
    induction history with
    | nil => trivial
    | cons event older ih =>
      refine ⟨h [] event older rfl, ih ?_⟩
      rintro newer event' older' rfl
      exact h (event :: newer) event' older' rfl

-- The same in view of the events after it. `newer` are those that are not in the list.
def Followed (good : List ε → ε → Prop) (newer : List ε) : List ε → Prop
  | [] => True
  | event :: older => good newer event ∧ Followed good (newer ++ [event]) older

instance Followed.decidable (good : List ε → ε → Prop) [∀ newer event, Decidable (good newer event)]
    (newer history : List ε) : Decidable (Followed good newer history) :=
  match history with
  | [] => inferInstanceAs (Decidable True)
  | event :: older =>
    have : Decidable (Followed good (newer ++ [event]) older) := Followed.decidable ..
    inferInstanceAs (Decidable (good newer event ∧ _))

theorem followed_iff {good : List ε → ε → Prop} {newer history : List ε} :
    Followed good newer history ↔
      ∀ first event older, history = first ++ event :: older → good (newer ++ first) event := by
  induction history generalizing newer with
  | nil =>
    refine iff_of_true trivial fun first event older h => ?_
    cases first <;> cases h
  | cons event older ih =>
    rw [Followed, ih]
    constructor
    · rintro ⟨hevent, holder⟩ first event' older' h
      cases first with
      | nil =>
        obtain ⟨rfl, -⟩ := List.cons.inj h
        rwa [List.append_nil]
      | cons e first =>
        obtain ⟨rfl, hrest⟩ := List.cons.inj h
        have hgood := holder first event' older' hrest
        rwa [List.append_assoc] at hgood
    · intro h
      refine ⟨?_, fun first event' older' hrest => ?_⟩
      · have hgood := h [] event older rfl
        rwa [List.append_nil] at hgood
      · have hgood := h (event :: first) event' older' (by rw [hrest]; rfl)
        rwa [List.append_assoc]

theorem Followed.cons {good good' : List ε → ε → Prop} {event : ε} {history : List ε}
    (hevent : good' [] event)
    (hold : ∀ first e older, history = first ++ e :: older → good first e →
      good' (event :: first) e)
    (h : Followed good [] history) : Followed good' [] (event :: history) := by
  rw [followed_iff] at h ⊢
  intro first e older heq
  cases first with
  | nil =>
    obtain ⟨rfl, -⟩ := List.cons.inj heq
    exact hevent
  | cons e' first =>
    obtain ⟨rfl, hrest⟩ := List.cons.inj heq
    exact hold first e older hrest (h first e older hrest)

-- What a history has of a kind, the oldest first.
def collected {α : Type*} (f : ε → Option α) : List ε → List α
  | [] => []
  | event :: older => collected f older ++ (f event).toList

theorem collected_cons_of_none {α : Type*} {f : ε → Option α} {event : ε} (h : f event = none)
    (older : List ε) : collected f (event :: older) = collected f older := by
  rw [collected, h]
  exact List.append_nil _

end Glider.Lib

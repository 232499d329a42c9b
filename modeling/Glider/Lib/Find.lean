import Mathlib.Data.List.Infix

namespace Glider.Lib

variable {β : Type*} [DecidableEq β]

-- The first place where a text has another one in it.
def find (marker : List β) : List β → Option ℕ
  | [] => if marker = [] then some 0 else none
  | b :: text => if marker <+: b :: text then some 0 else (find marker text).map (· + 1)

theorem find_eq_none_iff {marker text : List β} :
    find marker text = none ↔ ∀ p, ¬marker <+: text.drop p := by
  induction text with
  | nil => simp [find]
  | cons b text ih =>
    rw [find]
    by_cases hfirst : marker <+: b :: text
    · rw [if_pos hfirst]
      exact iff_of_false (Option.some_ne_none _) fun h => h 0 hfirst
    · rw [if_neg hfirst, Option.map_eq_none_iff, ih]
      constructor
      · intro h p
        cases p with
        | zero => exact hfirst
        | succ p => exact h p
      · exact fun h p => h (p + 1)

theorem find_eq_some_iff {marker text : List β} {p : ℕ} :
    find marker text = some p ↔
      marker <+: text.drop p ∧ ∀ q < p, ¬marker <+: text.drop q := by
  induction text generalizing p with
  | nil =>
    rw [find]
    by_cases hnil : marker = []
    · subst hnil
      rw [if_pos rfl, Option.some.injEq]
      constructor
      · rintro rfl
        exact ⟨List.nil_prefix, fun q hq => absurd hq (Nat.not_lt_zero q)⟩
      · rintro ⟨-, hq⟩
        by_contra hp
        exact hq 0 (Nat.pos_of_ne_zero (Ne.symm hp)) List.nil_prefix
    · rw [if_neg hnil]
      refine iff_of_false (Option.some_ne_none _).symm fun h => hnil ?_
      rw [List.drop_nil] at h
      exact List.prefix_nil.mp h.1
  | cons b text ih =>
    rw [find]
    by_cases hfirst : marker <+: b :: text
    · rw [if_pos hfirst, Option.some.injEq]
      constructor
      · rintro rfl
        exact ⟨hfirst, fun q hq => absurd hq (Nat.not_lt_zero q)⟩
      · rintro ⟨-, hq⟩
        by_contra hp
        exact hq 0 (Nat.pos_of_ne_zero (Ne.symm hp)) hfirst
    · rw [if_neg hfirst, Option.map_eq_some_iff]
      constructor
      · rintro ⟨q, hq, rfl⟩
        obtain ⟨hat, hbefore⟩ := ih.mp hq
        refine ⟨hat, fun r hr => ?_⟩
        cases r with
        | zero => exact hfirst
        | succ r => exact hbefore r (Nat.lt_of_succ_lt_succ hr)
      · rintro ⟨hat, hbefore⟩
        cases p with
        | zero => exact absurd hat hfirst
        | succ p =>
          exact ⟨p, ih.mpr ⟨hat, fun q hq => hbefore (q + 1) (Nat.succ_lt_succ hq)⟩, rfl⟩

section Marked

-- Nothing in front of the marker that stands behind `body` is the marker.
def Marks (marker body : List β) : Prop :=
  ∀ q < body.length, ∀ tail, ¬marker <+: (body ++ marker ++ tail).drop q

omit [DecidableEq β] in
-- A marker whose first letter does not occur in it again cannot overlap itself.
theorem marks_of_not_infix {b : β} {rest body : List β} (hb : b ∉ rest)
    (hbody : ¬(b :: rest) <:+: body) : Marks (b :: rest) body := by
  intro q hq tail hat
  by_cases hinside : q + (b :: rest).length ≤ body.length
  · apply hbody
    rw [List.append_assoc, List.drop_append_of_le_length (by omega)] at hat
    have hshort : (b :: rest) <+: body.drop q :=
      List.prefix_of_prefix_length_le hat (List.prefix_append _ _)
        (by rw [List.length_drop]; omega)
    exact hshort.isInfix.trans (List.drop_suffix q body).isInfix
  · obtain ⟨j, hj⟩ : ∃ j, body.length = q + (j + 1) := ⟨body.length - q - 1, by omega⟩
    have hlt : j + 1 < (b :: rest).length := by omega
    have hletter := List.prefix_iff_getElem?.mp hat (j + 1) hlt
    rw [List.getElem?_drop, ← hj, List.append_assoc, List.getElem?_append_right (Nat.le_refl _),
      Nat.sub_self] at hletter
    have hrest : j < rest.length := Nat.lt_of_succ_lt_succ hlt
    have hsame : b = rest[j] := Option.some.inj hletter
    exact hb (hsame ▸ List.getElem_mem _)

-- Where a reader that keeps the last letters of what it has seen finds the marker: behind `body`,
-- once the marker is whole.
theorem find_of_marks {marker body tail kept window unread : List β} (hmarks : Marks marker body)
    (hmarker : marker ≠ []) (hstream : kept ++ window ++ unread = body ++ marker ++ tail)
    (hkept : kept.length ≤ body.length) :
    find marker window =
      if body.length + marker.length ≤ kept.length + window.length then
        some (body.length - kept.length)
      else none := by
  have hdrop : ∀ p, (body ++ marker ++ tail).drop (kept.length + p) =
      (window ++ unread).drop p := by
    intro p
    rw [← hstream, List.append_assoc, List.drop_append, List.drop_eq_nil_of_le (by omega),
      List.nil_append, Nat.add_sub_cancel_left]
  have hwindow : ∀ p, window.drop p <+: (body ++ marker ++ tail).drop (kept.length + p) := by
    intro p
    rw [hdrop, List.drop_append]
    exact List.prefix_append _ _
  have hbehind : ∀ p, marker <+: window.drop p → body.length ≤ kept.length + p := by
    intro p hat
    by_contra hlt
    exact hmarks (kept.length + p) (by omega) tail (hat.trans (hwindow p))
  have hpos := List.length_pos_iff.mpr hmarker
  split
  · next hwhole =>
    refine find_eq_some_iff.mpr ⟨?_, fun q hq hat => ?_⟩
    · have hthere : marker <+: (body ++ marker ++ tail).drop (kept.length +
          (body.length - kept.length)) := by
        rw [Nat.add_sub_cancel' hkept, List.append_assoc, List.drop_left]
        exact List.prefix_append _ _
      exact List.prefix_of_prefix_length_le hthere (hwindow _)
        (by rw [List.length_drop]; omega)
    · have := hbehind q hat
      omega
  · next hpart =>
    refine find_eq_none_iff.mpr fun p hat => ?_
    have hle := hbehind p hat
    have hlen := hat.length_le
    rw [List.length_drop] at hlen
    omega

end Marked

end Glider.Lib

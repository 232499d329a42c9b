import Glider.Lib.Bytes
import Mathlib.Data.List.Basic
import Mathlib.Data.Nat.Notation

namespace Glider.Lib

-- Two lists merged into one, each in its own order.
inductive Interleaved {α : Type*} : List α → List α → List α → Prop where
  | nil : Interleaved [] [] []
  | left {a : α} {l r m : List α} (h : Interleaved l r m) : Interleaved (a :: l) r (a :: m)
  | right {a : α} {l r m : List α} (h : Interleaved l r m) : Interleaved l (a :: r) (a :: m)

-- What a test lets through and what it holds back.
theorem interleaved_filter {α : Type*} (p : α → Bool) (l : List α) :
    Interleaved (l.filter fun a => !p a) (l.filter p) l := by
  induction l with
  | nil => exact .nil
  | cons a l ih =>
    cases h : p a with
    | true =>
      rw [List.filter_cons_of_pos h, List.filter_cons_of_neg (by simp [h])]
      exact .right ih
    | false =>
      rw [List.filter_cons_of_pos (p := fun a => !p a) (by simp [h]),
        List.filter_cons_of_neg (by simp [h])]
      exact .left ih

namespace Lines

-- `std::getline`: a line and what follows it, if there is anything left.
def getline (s : Bytes) : Option (Bytes × Bytes) :=
  if s = [] then none else some (s.takeWhile (· ≠ 10), (s.dropWhile (· ≠ 10)).tail)

theorem length_of_getline {s line rest : Bytes} (h : getline s = some (line, rest)) :
    rest.length < s.length := by
  obtain ⟨hne, heq⟩ := Option.ite_none_left_eq_some.mp h
  obtain ⟨-, rfl⟩ := Prod.mk.inj (Option.some.inj heq)
  have hle : (s.dropWhile (· ≠ 10)).length ≤ s.length := (List.dropWhile_suffix _).length_le
  have hpos : 0 < s.length := List.length_pos_iff.mpr hne
  rw [List.length_tail]
  omega

-- The lines that a loop over `std::getline` sees.
def lines (s : Bytes) : List Bytes :=
  match _h : getline s with
  | none => []
  | some (line, rest) => line :: lines rest
termination_by s.length
decreasing_by exact length_of_getline _h

-- Lines written one after the other.
def unlines (ls : List Bytes) : Bytes := ls.flatMap fun line => line ++ [10]

theorem lines_nil : lines [] = [] := by
  rw [lines]
  rfl

theorem lines_of_getline {s line rest : Bytes} (h : getline s = some (line, rest)) :
    lines s = line :: lines rest := by
  rw [lines]
  split
  · next hnone => cases hnone.symm.trans h
  · next hsome =>
    obtain ⟨rfl, rfl⟩ := Prod.mk.inj (Option.some.inj (hsome.symm.trans h))
    rfl

theorem getline_append {line : Bytes} (hline : 10 ∉ line) (rest : Bytes) :
    getline (line ++ 10 :: rest) = some (line, rest) := by
  have hall : ∀ b ∈ line, decide (b ≠ 10) = true := fun b hb =>
    decide_eq_true fun h => hline (h ▸ hb)
  rw [getline, if_neg (by simp), List.takeWhile_append_of_pos hall,
    List.dropWhile_append_of_pos hall]
  simp

theorem lines_unlines {ls : List Bytes} (h : ∀ line ∈ ls, 10 ∉ line) : lines (unlines ls) = ls := by
  induction ls with
  | nil => exact lines_nil
  | cons line ls ih =>
    have hsplit : unlines (line :: ls) = line ++ 10 :: unlines ls := by simp [unlines]
    obtain ⟨hline, hrest⟩ := List.forall_mem_cons.mp h
    rw [hsplit, lines_of_getline (getline_append hline _), ih hrest]

-- A line has no end of a line in it, and the text is its lines, each with such an end; only the last
-- one may have been without.
theorem not_mem_of_mem_lines {s line : Bytes} (h : line ∈ lines s) : 10 ∉ line := by
  induction s using lines.induct with
  | case1 s hnone =>
    obtain rfl : s = [] := by simpa [getline] using hnone
    rw [lines_nil] at h
    cases h
  | case2 s first rest hsome ih =>
    rw [lines_of_getline hsome, List.mem_cons] at h
    obtain rfl | hmem := h
    · obtain ⟨-, heq⟩ := Option.ite_none_left_eq_some.mp hsome
      obtain ⟨rfl, -⟩ := Prod.mk.inj (Option.some.inj heq)
      intro hmem
      simpa using List.mem_takeWhile_imp hmem
    · exact ih hmem

end Lines

end Glider.Lib

namespace Glider.Lib.Spans

variable {α : Type*}

-- Stretches of a text of some length, each behind the one before it.
def Ordered (length : ℕ) : ℕ → List (ℕ × ℕ) → Prop
  | start, [] => start ≤ length
  | start, (first, last) :: rest => start ≤ first ∧ first ≤ last ∧ Ordered length last rest

theorem Ordered.le {length start : ℕ} {spans : List (ℕ × ℕ)} (h : Ordered length start spans) :
    start ≤ length := by
  induction spans generalizing start with
  | nil => exact h
  | cons span rest ih => exact Nat.le_trans h.1 (Nat.le_trans h.2.1 (ih h.2.2))

theorem Ordered.left {length start : ℕ} {spans spans' : List (ℕ × ℕ)}
    (h : Ordered length start (spans ++ spans')) : Ordered length start spans := by
  induction spans generalizing start with
  | nil => exact h.le
  | cons span rest ih => exact ⟨h.1, h.2.1, ih h.2.2⟩

theorem extract_append_drop {first last : ℕ} (l : List α) (h : first ≤ last) :
    l.extract first last ++ l.drop last = l.drop first := by
  have hlast : last = first + (last - first) := by omega
  rw [List.extract_eq_take_drop]
  conv_lhs => rw [hlast, Nat.add_sub_cancel_left, ← List.drop_drop]
  exact List.take_append_drop ..

end Glider.Lib.Spans

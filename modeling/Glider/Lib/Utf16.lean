import Mathlib.Algebra.BigOperators.Group.List.Basic
import Mathlib.Data.List.Infix
import Glider.Lib.Bytes
import Mathlib.Algebra.Order.Ring.Nat

namespace Glider.Lib

variable {α : Type*} (w : α → ℕ)

def weight (l : List α) : ℕ := (l.map w).sum

@[simp] theorem weight_nil : weight w [] = 0 := rfl

@[simp] theorem weight_cons (a : α) (l : List α) : weight w (a :: l) = w a + weight w l :=
  List.sum_cons

@[simp] theorem weight_append (l l' : List α) :
    weight w (l ++ l') = weight w l + weight w l' := by
  simp only [weight, List.map_append, List.sum_append]

theorem weight_le_of_prefix {p l : List α} (h : p <+: l) : weight w p ≤ weight w l := by
  obtain ⟨q, rfl⟩ := h
  rw [weight_append]
  exact Nat.le_add_right ..

-- What fits into a weight from the start of a list.
def fitting : ℕ → List α → List α
  | _, [] => []
  | n, a :: l => if w a ≤ n then a :: fitting (n - w a) l else []

def LongestFitting (n : ℕ) (l p : List α) : Prop :=
  p <+: l ∧ weight w p ≤ n ∧ ∀ q, q <+: l → weight w q ≤ n → q <+: p

theorem fitting_longest (n : ℕ) (l : List α) : LongestFitting w n l (fitting w n l) := by
  induction l generalizing n with
  | nil => exact ⟨List.prefix_rfl, Nat.zero_le n, fun q hq _ => hq⟩
  | cons a l ih =>
    rw [fitting]
    by_cases ha : w a ≤ n
    · rw [if_pos ha]
      obtain ⟨hbegins, hle, hlongest⟩ := ih (n - w a)
      refine ⟨(List.prefix_cons_inj a).mpr hbegins, ?_, fun q hq hqn => ?_⟩
      · rw [weight_cons]
        omega
      · cases q with
        | nil => exact List.nil_prefix
        | cons b q =>
          obtain ⟨rfl, htail⟩ := List.cons_prefix_cons.mp hq
          rw [weight_cons] at hqn
          exact (List.prefix_cons_inj b).mpr (hlongest q htail (by omega))
    · rw [if_neg ha]
      refine ⟨List.nil_prefix, Nat.zero_le n, fun q hq hqn => ?_⟩
      cases q with
      | nil => exact List.nil_prefix
      | cons b q =>
        obtain ⟨rfl, -⟩ := List.cons_prefix_cons.mp hq
        rw [weight_cons] at hqn
        omega

variable {w} {l p q : List α} {n m : ℕ}

theorem LongestFitting.mono (hp : LongestFitting w n l p) (hq : LongestFitting w m l q)
    (h : n ≤ m) : p <+: q := hq.2.2 p hp.1 (hp.2.1.trans h)

-- There is nothing more, or the next one does not fit.
theorem LongestFitting.next (hp : LongestFitting w n l p) {a : α} {rest : List α}
    (h : l = p ++ a :: rest) : n < weight w p + w a := by
  by_contra hfits
  have hlonger : p ++ [a] <+: p := by
    refine hp.2.2 _ ⟨rest, ?_⟩ ?_
    · rw [List.append_assoc, List.singleton_append, h]
    · rw [weight_append, weight_cons, weight_nil]
      omega
  have := hlonger.length_le
  rw [List.length_append, List.length_singleton] at this
  omega

end Glider.Lib

namespace Glider.Lib.Utf16

open Lib

-- The bytes of code points in UTF-8, and the code units of one of them in UTF-16.
def encode (text : List Char) : Bytes := text.flatMap String.utf8EncodeChar

def units (c : Char) : ℕ := if c.toNat ≤ 0xFFFF then 1 else 2

-- Where code points meet, counted in code units.
def Boundary (text : List Char) (n : ℕ) : Prop := ∃ p, p <+: text ∧ weight units p = n

-- A place between the units of a surrogate pair is rounded down to the start of the pair.
def RoundsDown (text : List Char) (n m : ℕ) : Prop :=
  Boundary text m ∧ (m = n ∨ m + 1 = n ∧ ¬Boundary text n)

theorem encode_append (text text' : List Char) :
    encode (text ++ text') = encode text ++ encode text' := List.flatMap_append

theorem encode_cons (c : Char) (text : List Char) :
    encode (c :: text) = String.utf8EncodeChar c ++ encode text := List.flatMap_cons

theorem length_encode_le {p text : List Char} (h : p <+: text) :
    (encode p).length ≤ (encode text).length := by
  obtain ⟨q, rfl⟩ := h
  rw [encode_append, List.length_append]
  exact Nat.le_add_right ..

theorem units_pos (c : Char) : 0 < units c := by
  unfold units
  split <;> decide

theorem units_le_two (c : Char) : units c ≤ 2 := by
  unfold units
  split <;> decide

theorem units_le_length (c : Char) : units c ≤ (String.utf8EncodeChar c).length := by
  simp only [units, String.utf8EncodeChar, Char.toNat]
  repeat' split
  all_goals simp only [List.length_cons, List.length_nil]
  all_goals omega

theorem weight_units_le (text : List Char) : weight units text ≤ (encode text).length := by
  induction text with
  | nil => exact Nat.le_refl 0
  | cons c text ih =>
    have hc := units_le_length c
    rw [weight_cons, encode_cons, List.length_append]
    omega

theorem roundsDown_of_longest {text p : List Char} {n : ℕ} (h : LongestFitting units n text p)
    (hn : n ≤ weight units text) : RoundsDown text n (weight units p) := by
  refine ⟨⟨p, h.1, rfl⟩, ?_⟩
  by_cases heq : weight units p = n
  · exact .inl heq
  have hle := h.2.1
  refine .inr ⟨?_, ?_⟩
  · obtain ⟨rest, rfl⟩ := h.1
    cases rest with
    | nil =>
      rw [List.append_nil] at hn
      omega
    | cons c rest =>
      have hnext := h.next rfl
      have hc := units_le_two c
      omega
  · rintro ⟨q, hq, hqn⟩
    have hlonger := weight_le_of_prefix units (h.2.2 q hq (Nat.le_of_eq hqn))
    omega

end Glider.Lib.Utf16

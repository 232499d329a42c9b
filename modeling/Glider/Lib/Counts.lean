import Mathlib.Logic.Function.Basic
import Mathlib.Data.Nat.Notation

namespace Glider.Lib

variable {κ : Type*} [DecidableEq κ]

-- A map of counters in which a key is present only while its count is positive.
abbrev Counts (κ : Type*) := κ → Option ℕ

namespace Counts

def empty : Counts κ := fun _ => none

def value (m : Counts κ) (k : κ) : ℕ := (m k).getD 0

def contains (m : Counts κ) (k : κ) : Bool := (m k).isSome

def increment (m : Counts κ) (k : κ) : Counts κ := Function.update m k (some (m.value k + 1))

def decrement (m : Counts κ) (k : κ) : Counts κ :=
  match m k with
  | none => m
  | some n => if n ≤ 1 then Function.update m k none else Function.update m k (some (n - 1))

def Positive (m : Counts κ) : Prop := ∀ k, m k ≠ some 0

omit [DecidableEq κ] in
theorem Positive.empty : Positive (empty : Counts κ) := fun _ => nofun

theorem value_increment (m : Counts κ) (k other : κ) :
    (m.increment k).value other = m.value other + if other = k then 1 else 0 := by
  by_cases h : other = k
  · subst h
    simp only [value, increment, Function.update_self, if_true, Option.getD_some]
  · simp only [value, increment, Function.update_of_ne h, if_neg h, Nat.add_zero]

theorem value_decrement (m : Counts κ) (k other : κ) :
    (m.decrement k).value other = m.value other - if other = k then 1 else 0 := by
  cases hm : m k with
  | none =>
    have hd : m.decrement k = m := by simp only [decrement, hm]
    rw [hd]
    by_cases h : other = k
    · subst h
      simp only [value, hm, Option.getD_none, Nat.zero_sub]
    · rw [if_neg h, Nat.sub_zero]
  | some n =>
    by_cases h : other = k
    · subst h
      by_cases hn : n ≤ 1
      · simp only [value, decrement, hm, if_pos hn, Function.update_self, Option.getD_none,
          Option.getD_some, if_true]
        omega
      · simp only [value, decrement, hm, if_neg hn, Function.update_self, Option.getD_some, if_true]
    · simp only [value, decrement, hm, if_neg h, Nat.sub_zero]
      split <;> rw [Function.update_of_ne h]

theorem Positive.increment {m : Counts κ} (h : Positive m) (k : κ) : Positive (m.increment k) := by
  intro other
  by_cases he : other = k
  · subst he
    simp [Counts.increment]
  · rw [Counts.increment, Function.update_of_ne he]
    exact h other

theorem Positive.decrement {m : Counts κ} (h : Positive m) (k : κ) : Positive (m.decrement k) := by
  intro other
  unfold Counts.decrement
  cases hm : m k with
  | none => exact h other
  | some n =>
    by_cases he : other = k
    · subst he
      by_cases hn : n ≤ 1
      · simp only [if_pos hn, Function.update_self]
        nofun
      · simp only [if_neg hn, Function.update_self, ne_eq, Option.some_inj]
        omega
    · simp only
      split <;> rw [Function.update_of_ne he] <;> exact h other

omit [DecidableEq κ] in
theorem Positive.contains_iff {m : Counts κ} (h : Positive m) (k : κ) :
    m.contains k = true ↔ 0 < m.value k := by
  unfold contains value
  cases hm : m k with
  | none => simp
  | some n =>
    have hn : n ≠ 0 := fun hz => h k (hz ▸ hm)
    simp only [Option.isSome_some, Option.getD_some, true_iff]
    omega

end Counts

end Glider.Lib

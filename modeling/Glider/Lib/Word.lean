import Mathlib.Data.Nat.Notation
import Mathlib.Data.Int.Notation
import Mathlib.Algebra.Order.Ring.Nat

namespace Glider.Lib

-- Unsigned 64-bit arithmetic on naturals.
def u64 (n : ℕ) : ℕ := n % 2 ^ 64

def u64Sub (a b : ℕ) : ℕ := (a + 2 ^ 64 - b % 2 ^ 64) % 2 ^ 64

-- Conversion to a signed 32-bit integer keeps the value modulo `2 ^ 32`.
def toInt32 (n : ℤ) : ℤ := n.bmod (2 ^ 32)

-- Signed 32-bit arithmetic, in which a result that does not fit is undefined.
def checkedInt (n : ℤ) : Option ℤ := if -2 ^ 31 ≤ n ∧ n < 2 ^ 31 then some n else none

theorem u64_of_lt {n : ℕ} (h : n < 2 ^ 64) : u64 n = n := Nat.mod_eq_of_lt h

theorem u64Sub_of_le {a b : ℕ} (ha : a < 2 ^ 64) (hb : b ≤ a) : u64Sub a b = a - b := by
  simp only [u64Sub]
  omega

theorem toInt32_of_range {n : ℤ} (hlo : -2 ^ 31 ≤ n) (hhi : n < 2 ^ 31) : toInt32 n = n := by
  simp only [toInt32, Int.bmod]
  omega

theorem checkedInt_of_lt {n : ℤ} (hlo : 0 ≤ n) (hhi : n < 2 ^ 31) : checkedInt n = some n :=
  if_pos ⟨by omega, hhi⟩

theorem checkedInt_of_le {n : ℤ} (h : 2 ^ 31 ≤ n) : checkedInt n = none :=
  if_neg fun hn => absurd hn.2 (Int.not_lt.mpr h)

end Glider.Lib

import Glider.Lib.Bytes
import Mathlib.Data.Nat.Log
import Mathlib.Tactic.NormNum
import Mathlib.Algebra.Order.Ring.Nat

namespace Glider.Lib.Decimal

def isSpace (b : UInt8) : Bool := b = 32 ∨ 9 ≤ b ∧ b ≤ 13

def isDigit (b : UInt8) : Bool := 48 ≤ b ∧ b ≤ 57

-- `std::stoll`: leading blanks, a sign and digits; what follows is ignored. `none` is an exception.
def stoll (s : Bytes) : Option ℤ :=
  let s := s.dropWhile isSpace
  let negative := s.head? = some 45
  let s := if s.head? = some 45 ∨ s.head? = some 43 then s.tail else s
  let digits := s.takeWhile isDigit
  let value : ℤ := digits.foldl (fun n d => 10 * n + (d.toNat - 48)) 0
  let value := if negative then -value else value
  if digits = [] ∨ value < -2 ^ 63 ∨ 2 ^ 63 ≤ value then none else some value

-- What `stoll` does not read.
def behind (s : Bytes) : Bytes :=
  let s := s.dropWhile isSpace
  let s := if s.head? = some 45 ∨ s.head? = some 43 then s.tail else s
  s.dropWhile isDigit

def digits (n : ℕ) : Bytes := (Nat.toDigits 10 n).map fun c => .ofNat c.toNat

def ofInt (n : ℤ) : Bytes := if n < 0 then 45 :: digits n.natAbs else digits n.natAbs

theorem range_of_stoll {s : Bytes} {n : ℤ} (h : stoll s = some n) : -2 ^ 63 ≤ n ∧ n < 2 ^ 63 := by
  rw [stoll] at h
  rw [Option.ite_none_left_eq_some, Option.some.injEq] at h
  obtain ⟨hnot, hvalue⟩ := h
  rw [hvalue] at hnot
  simp only [not_or, not_lt, not_le] at hnot
  exact hnot.2

section Digits

theorem digitChar_spec (d : ℕ) (h : d < 10) :
    isDigit (.ofNat d.digitChar.toNat) = true ∧
      ((UInt8.ofNat d.digitChar.toNat).toNat : ℤ) - 48 = d := by
  have hall : ∀ d < 10, isDigit (.ofNat (Nat.digitChar d).toNat) = true ∧
      ((UInt8.ofNat (Nat.digitChar d).toNat).toNat : ℤ) - 48 = d := by
    decide
  exact hall d h

theorem digits_of_lt {n : ℕ} (h : n < 10) : digits n = [.ofNat n.digitChar.toNat] := by
  rw [digits, Nat.toDigits_of_lt_base h]
  rfl

theorem digits_of_le {n : ℕ} (h : 10 ≤ n) :
    digits n = digits (n / 10) ++ [.ofNat (n % 10).digitChar.toNat] := by
  rw [digits, Nat.toDigits_of_base_le (by omega) h, List.map_append]
  rfl

theorem digits_ne_nil (n : ℕ) : digits n ≠ [] := by
  rw [digits, Ne, List.map_eq_nil_iff]
  exact Nat.toDigits_ne_nil

theorem isDigit_digits (n : ℕ) : ∀ b ∈ digits n, isDigit b = true := by
  induction n using Nat.strongRecOn with
  | ind n ih =>
    intro b hb
    by_cases hlt : n < 10
    · rw [digits_of_lt hlt, List.mem_singleton] at hb
      exact hb ▸ (digitChar_spec n hlt).1
    · rw [digits_of_le (by omega), List.mem_append, List.mem_singleton] at hb
      rcases hb with hb | rfl
      · exact ih (n / 10) (by omega) b hb
      · exact (digitChar_spec (n % 10) (by omega)).1

theorem value_digits (n : ℕ) :
    (digits n).foldl (fun (m : ℤ) d => 10 * m + (d.toNat - 48)) 0 = n := by
  induction n using Nat.strongRecOn with
  | ind n ih =>
    by_cases hlt : n < 10
    · rw [digits_of_lt hlt, List.foldl_cons, List.foldl_nil, (digitChar_spec n hlt).2]
      omega
    · rw [digits_of_le (by omega), List.foldl_append, ih (n / 10) (by omega), List.foldl_cons,
        List.foldl_nil, (digitChar_spec (n % 10) (by omega)).2]
      omega

theorem digits_injective : Function.Injective digits := by
  intro m n h
  have hvalue := value_digits m
  rw [h, value_digits] at hvalue
  exact_mod_cast hvalue.symm

theorem takeWhile_digits (n : ℕ) : (digits n).takeWhile isDigit = digits n :=
  List.takeWhile_eq_self_iff.mpr (isDigit_digits n)

-- A digit is neither a blank nor a sign.
theorem of_isDigit {b : UInt8} (h : isDigit b = true) : isSpace b = false ∧ b ≠ 45 ∧ b ≠ 43 := by
  have hlo : 48 ≤ b.toNat := UInt8.le_iff_toNat_le.mp (of_decide_eq_true h).1
  refine ⟨?_, ?_, ?_⟩
  · apply decide_eq_false
    rintro (rfl | ⟨-, hhi⟩)
    · exact absurd hlo (by decide)
    · have := UInt8.le_iff_toNat_le.mp hhi
      have h13 : (13 : UInt8).toNat = 13 := rfl
      omega
  · rintro rfl
    exact absurd hlo (by decide)
  · rintro rfl
    exact absurd hlo (by decide)

theorem head?_digits_ne {n : ℕ} {b : UInt8} (hb : b = 45 ∨ b = 43) :
    (digits n).head? ≠ some b := by
  intro hhead
  obtain ⟨-, hminus, hplus⟩ := of_isDigit (isDigit_digits n b (List.mem_of_mem_head? hhead))
  exact hb.elim hminus hplus

end Digits

section Print

theorem dropWhile_digits (n : ℕ) : (digits n).dropWhile isSpace = digits n := by
  obtain ⟨d, rest, hdigits⟩ := List.exists_cons_of_ne_nil (digits_ne_nil n)
  have hd : isDigit d = true := isDigit_digits n d (hdigits ▸ List.mem_cons_self)
  obtain ⟨hspace, -, -⟩ := of_isDigit hd
  rw [hdigits, List.dropWhile_cons_of_neg (by rw [hspace]; exact Bool.false_ne_true)]

theorem stoll_of_digits {n : ℕ} (hn : (n : ℤ) < 2 ^ 63) : stoll (digits n) = some (n : ℤ) := by
  rw [stoll]
  simp only [dropWhile_digits, head?_digits_ne (.inl rfl), head?_digits_ne (.inr rfl), or_self,
    if_false, takeWhile_digits, value_digits]
  rw [if_neg]
  rintro (hnil | hlo | hhi)
  · exact digits_ne_nil n hnil
  · omega
  · omega

theorem stoll_of_minus {n : ℕ} (hn : (n : ℤ) ≤ 2 ^ 63) : stoll (45 :: digits n) = some (-(n : ℤ)) := by
  have hdrop : (45 :: digits n).dropWhile isSpace = 45 :: digits n :=
    List.dropWhile_cons_of_neg (by decide)
  rw [stoll]
  simp only [hdrop, List.head?_cons, true_or, if_true, List.tail_cons, takeWhile_digits,
    value_digits]
  rw [if_neg]
  rintro (hnil | hlo | hhi)
  · exact digits_ne_nil n hnil
  · omega
  · omega

theorem stoll_ofInt {n : ℤ} (hlo : -2 ^ 63 ≤ n) (hhi : n < 2 ^ 63) : stoll (ofInt n) = some n := by
  rw [ofInt]
  split
  · rw [stoll_of_minus (by omega)]
    congr 1
    omega
  · rw [stoll_of_digits (by omega)]
    congr 1
    omega

theorem behind_ofInt (n : ℤ) : behind (ofInt n) = [] := by
  have hall : (digits n.natAbs).dropWhile isDigit = [] :=
    List.dropWhile_eq_nil_iff.mpr (isDigit_digits n.natAbs)
  by_cases hneg : n < 0
  · have hdrop : (45 :: digits n.natAbs).dropWhile isSpace = 45 :: digits n.natAbs :=
      List.dropWhile_cons_of_neg (by decide)
    rw [behind, ofInt, if_pos hneg, hdrop]
    exact hall
  · rw [behind, ofInt, if_neg hneg, dropWhile_digits,
      if_neg (not_or.mpr ⟨head?_digits_ne (.inl rfl), head?_digits_ne (.inr rfl)⟩)]
    exact hall

end Print

section Width

-- The characters that a number is written with.
def width (n : ℤ) : ℕ := (if n < 0 then 1 else 0) + Nat.log 10 n.natAbs + 1

theorem length_digits (n : ℕ) : (digits n).length = Nat.log 10 n + 1 := by
  induction n using Nat.strongRecOn with
  | ind n ih =>
    by_cases hlt : n < 10
    · rw [digits_of_lt hlt, Nat.log_of_lt hlt]
      rfl
    · rw [digits_of_le (by omega), List.length_append, ih (n / 10) (by omega),
        Nat.log_of_one_lt_of_le (by decide) (by omega : 10 ≤ n)]
      rfl

theorem length_ofInt (n : ℤ) : (ofInt n).length = width n := by
  rw [ofInt, width]
  split
  · rw [List.length_cons, length_digits, Nat.add_comm 1, Nat.add_right_comm]
  · rw [length_digits, Nat.zero_add]

theorem ofInt_ne_nil (n : ℤ) : ofInt n ≠ [] := by
  rw [ofInt]
  split
  · exact List.cons_ne_nil _ _
  · exact digits_ne_nil _

theorem mem_ofInt {n : ℤ} {b : UInt8} (h : b ∈ ofInt n) : b = 45 ∨ isDigit b = true := by
  rw [ofInt] at h
  split at h
  · rcases List.mem_cons.mp h with rfl | hb
    · exact .inl rfl
    · exact .inr (isDigit_digits _ b hb)
  · exact .inr (isDigit_digits _ b h)

theorem nulFree_ofInt (n : ℤ) : (ofInt n).NulFree := fun h => absurd (mem_ofInt h) (by decide)

end Width

section Integer

-- A text that is a 64-bit integer and nothing else.
def integer? (s : Bytes) : Option ℤ :=
  let unsigned := if s.head? = some 45 ∨ s.head? = some 43 then s.tail else s
  if unsigned ≠ [] ∧ ∀ b ∈ unsigned, isDigit b = true then stoll s else none

theorem stoll_of_integer? {s : Bytes} {n : ℤ} (h : integer? s = some n) : stoll s = some n := by
  rw [integer?, Option.ite_none_right_eq_some] at h
  exact h.2

theorem integer?_ofInt {n : ℤ} (hlo : -2 ^ 63 ≤ n) (hhi : n < 2 ^ 63) :
    integer? (ofInt n) = some n := by
  rw [integer?, Option.ite_none_right_eq_some]
  refine ⟨?_, stoll_ofInt hlo hhi⟩
  by_cases hneg : n < 0
  · have hsigned : ofInt n = 45 :: digits n.natAbs := if_pos hneg
    rw [hsigned, List.head?_cons, if_pos (.inl rfl), List.tail_cons]
    exact ⟨digits_ne_nil _, isDigit_digits _⟩
  · have hunsigned : ofInt n = digits n.natAbs := if_neg hneg
    rw [hunsigned, if_neg (not_or.mpr ⟨head?_digits_ne (.inl rfl), head?_digits_ne (.inr rfl)⟩)]
    exact ⟨digits_ne_nil _, isDigit_digits _⟩

end Integer

end Glider.Lib.Decimal

namespace Glider.Lib.Hexadecimal

def digits (n : ℕ) : Bytes := (Nat.toDigits 16 n).map fun c => .ofNat c.toNat

def valueOf (b : UInt8) : ℕ := if b ≤ 57 then b.toNat - 48 else b.toNat - 87

theorem digitChar_spec (d : ℕ) (h : d < 16) :
    valueOf (.ofNat d.digitChar.toNat) = d ∧ UInt8.ofNat d.digitChar.toNat ≠ 58 := by
  have hall : ∀ d < 16, valueOf (.ofNat (Nat.digitChar d).toNat) = d ∧
      UInt8.ofNat (Nat.digitChar d).toNat ≠ 58 := by
    decide
  exact hall d h

theorem digits_of_lt {n : ℕ} (h : n < 16) : digits n = [.ofNat n.digitChar.toNat] := by
  rw [digits, Nat.toDigits_of_lt_base h]
  rfl

theorem digits_of_le {n : ℕ} (h : 16 ≤ n) :
    digits n = digits (n / 16) ++ [.ofNat (n % 16).digitChar.toNat] := by
  rw [digits, Nat.toDigits_of_base_le (by omega) h, List.map_append]
  rfl

theorem colon_not_mem_digits (n : ℕ) : 58 ∉ digits n := by
  induction n using Nat.strongRecOn with
  | ind n ih =>
    by_cases hlt : n < 16
    · rw [digits_of_lt hlt, List.mem_singleton]
      exact fun h => (digitChar_spec n hlt).2 h.symm
    · rw [digits_of_le (by omega), List.mem_append, List.mem_singleton, not_or]
      exact ⟨ih (n / 16) (by omega), fun h => (digitChar_spec (n % 16) (by omega)).2 h.symm⟩

theorem value_digits (n : ℕ) : (digits n).foldl (fun m d => 16 * m + valueOf d) 0 = n := by
  induction n using Nat.strongRecOn with
  | ind n ih =>
    by_cases hlt : n < 16
    · rw [digits_of_lt hlt, List.foldl_cons, List.foldl_nil, (digitChar_spec n hlt).1]
      omega
    · rw [digits_of_le (by omega), List.foldl_append, ih (n / 16) (by omega), List.foldl_cons,
        List.foldl_nil, (digitChar_spec (n % 16) (by omega)).1]
      omega

theorem digits_injective : Function.Injective digits := by
  intro m n h
  rw [← value_digits m, h, value_digits]

end Glider.Lib.Hexadecimal

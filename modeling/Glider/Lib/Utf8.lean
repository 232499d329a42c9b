import Glider.Lib.Utf16

namespace Glider.Lib.Utf8

open Utf16 (encode encode_append encode_cons)

def isContinuation (b : UInt8) : Bool := b &&& 0xC0 = 0x80

def Valid (s : Bytes) : Prop := ∃ text : List Char, encode text = s

-- A place between two characters, or at an end.
def Boundary (s : Bytes) (n : ℕ) : Prop := n ≤ s.length ∧ Valid (s.take n) ∧ Valid (s.drop n)

section Valid

variable {s t : Bytes}

theorem valid_nil : Valid [] := ⟨[], rfl⟩

theorem Valid.append (hs : Valid s) (ht : Valid t) : Valid (s ++ t) := by
  obtain ⟨text, rfl⟩ := hs
  obtain ⟨text', rfl⟩ := ht
  exact ⟨text ++ text', encode_append text text'⟩

theorem valid_char (c : Char) : Valid (String.utf8EncodeChar c) :=
  ⟨[c], List.append_nil _⟩

theorem isContinuation_iff {b : UInt8} :
    isContinuation b = true ↔ 128 ≤ b.toNat ∧ b.toNat < 192 := by
  have hall : ∀ n : Fin 256, isContinuation (.ofNat n.val) = true ↔ 128 ≤ n.val ∧ n.val < 192 := by
    decide +kernel
  have hb := hall ⟨b.toNat, b.toNat_lt⟩
  rwa [UInt8.ofNat_toNat] at hb

-- One byte that starts a character, and at most three behind it.
theorem utf8EncodeChar_cases (c : Char) :
    ∃ first rest, String.utf8EncodeChar c = first :: rest ∧ isContinuation first = false ∧
      (∀ b ∈ rest, isContinuation b = true) ∧ rest.length ≤ 3 := by
  have hstarts : ∀ n, n < 128 ∨ 192 ≤ n ∧ n < 256 → isContinuation (.ofNat n) = false := by
    intro n hn
    rw [Bool.eq_false_iff, Ne, isContinuation_iff, UInt8.toNat_ofNat']
    omega
  have hgoes : ∀ n, isContinuation (.ofNat (n % 64 + 128)) = true := by
    intro n
    rw [isContinuation_iff, UInt8.toNat_ofNat']
    omega
  have hone : ∀ n, ∀ b ∈ [UInt8.ofNat (n % 64 + 128)], isContinuation b = true := fun n =>
    List.forall_mem_singleton.mpr (hgoes n)
  have htwo : ∀ n m, ∀ b ∈ [UInt8.ofNat (n % 64 + 128), .ofNat (m % 64 + 128)],
      isContinuation b = true := fun n m => List.forall_mem_cons.mpr ⟨hgoes n, hone m⟩
  fun_cases String.utf8EncodeChar c with
  | case1 v hv => exact ⟨_, [], rfl, hstarts _ (.inl (by omega)), by simp, by simp⟩
  | case2 v => exact ⟨_, [_], rfl, hstarts _ (.inr (by omega)), hone _, by simp⟩
  | case3 v => exact ⟨_, [_, _], rfl, hstarts _ (.inr (by omega)), htwo _ _, by simp⟩
  | case4 v =>
    exact ⟨_, [_, _, _], rfl, hstarts _ (.inr (by omega)),
      List.forall_mem_cons.mpr ⟨hgoes _, htwo _ _⟩, by simp⟩

theorem Valid.head_not_continuation (hs : Valid s) {b : UInt8} (hb : s[0]? = some b) :
    isContinuation b = false := by
  obtain ⟨text, rfl⟩ := hs
  cases text with
  | nil => cases hb
  | cons c text =>
    obtain ⟨first, rest, hc, hfirst, -⟩ := utf8EncodeChar_cases c
    rw [encode_cons, hc] at hb
    obtain rfl := Option.some.inj hb
    exact hfirst

end Valid

section Boundary

variable {s t : Bytes} {m n : ℕ}

theorem boundary_zero (hs : Valid s) : Boundary s 0 := ⟨Nat.zero_le _, valid_nil, hs⟩

theorem boundary_length (hs : Valid s) : Boundary s s.length := by
  refine ⟨Nat.le_refl _, ?_, ?_⟩
  · rwa [List.take_length]
  · rw [List.drop_length]
    exact valid_nil

theorem boundary_append (hs : Valid s) (ht : Valid t) : Boundary (s ++ t) s.length := by
  refine ⟨?_, ?_, ?_⟩
  · rw [List.length_append]
    exact Nat.le_add_right _ _
  · rwa [List.take_left]
  · rwa [List.drop_left]

theorem boundary_append_right (hs : Valid s) (h : Boundary t n) :
    Boundary (s ++ t) (s.length + n) := by
  obtain ⟨hn, hfront, hback⟩ := h
  refine ⟨?_, ?_, ?_⟩
  · rw [List.length_append]
    omega
  · rw [List.take_length_add_append]
    exact hs.append hfront
  · rwa [List.drop_append, List.drop_eq_nil_of_le (Nat.le_add_right _ _), List.nil_append,
      Nat.add_sub_cancel_left]

-- A valid text can be cut in front of every byte that starts a character.
theorem boundary_iff (hs : Valid s) :
    Boundary s n ↔ n ≤ s.length ∧ ∀ b, s[n]? = some b → isContinuation b = false := by
  constructor
  · rintro ⟨hn, -, hback⟩
    refine ⟨hn, fun b hb => hback.head_not_continuation ?_⟩
    rwa [List.getElem?_drop, Nat.add_zero]
  rintro ⟨hn, hb⟩
  obtain ⟨text, rfl⟩ := hs
  induction text generalizing n with
  | nil =>
    obtain rfl := Nat.le_zero.mp hn
    exact boundary_zero valid_nil
  | cons c text ih =>
    obtain ⟨first, rest, hc, -, hrest, -⟩ := utf8EncodeChar_cases c
    have hchar := valid_char c
    rw [encode_cons] at hn hb ⊢
    rw [hc] at hn hb hchar ⊢
    rcases Nat.lt_or_ge n (first :: rest).length with hlt | hge
    · cases n with
      | zero => exact boundary_zero (hchar.append ⟨text, rfl⟩)
      | succ n =>
        rw [List.getElem?_append_left hlt, List.getElem?_cons_succ] at hb
        have hlt' := Nat.lt_of_succ_lt_succ hlt
        have hcontinues := hrest rest[n] (List.getElem_mem hlt')
        rw [hb _ (List.getElem?_eq_getElem hlt')] at hcontinues
        cases hcontinues
    · obtain ⟨k, rfl⟩ := Nat.exists_eq_add_of_le hge
      rw [List.length_append] at hn
      rw [List.getElem?_append_right hge, Nat.add_sub_cancel_left] at hb
      exact boundary_append_right hchar (ih (by omega) hb)

-- No character has more than four bytes.
theorem exists_boundary_near (hs : Valid s) (hn : n ≤ s.length) :
    ∃ m, Boundary s m ∧ m ≤ n ∧ n ≤ m + 3 := by
  obtain ⟨text, rfl⟩ := hs
  induction text generalizing n with
  | nil => exact ⟨0, boundary_zero valid_nil, Nat.zero_le _, hn.trans (Nat.zero_le _)⟩
  | cons c text ih =>
    obtain ⟨first, rest, hc, -, -, hlen⟩ := utf8EncodeChar_cases c
    have hchar := valid_char c
    rw [encode_cons] at hn ⊢
    rcases Nat.lt_or_ge n (String.utf8EncodeChar c).length with hlt | hge
    · rw [hc, List.length_cons] at hlt
      exact ⟨0, boundary_zero (hchar.append ⟨text, rfl⟩), Nat.zero_le _, by omega⟩
    · obtain ⟨k, rfl⟩ := Nat.exists_eq_add_of_le hge
      rw [List.length_append] at hn
      obtain ⟨m, hm, hle, hnear⟩ := ih (n := k) (by omega)
      exact ⟨_, boundary_append_right hchar hm, by omega, by omega⟩

-- Cutting a text off behind a boundary, and going on in another way, changes nothing before it.
theorem boundary_take_append (h : Boundary s m) (ht : Valid t) (hn : n ≤ m) :
    Boundary (s.take m ++ t) n ↔ Boundary s n := by
  have hlen : (s.take m).length = m := List.length_take_of_le h.1
  have hs : Valid s := by
    rw [← List.take_append_drop m s]
    exact h.2.1.append h.2.2
  rcases Nat.lt_or_eq_of_le hn with hlt | rfl
  · have hsame : (s.take m ++ t)[n]? = s[n]? := by
      rw [List.getElem?_append_left (by omega), List.getElem?_take_of_lt hlt]
    rw [boundary_iff (h.2.1.append ht), boundary_iff hs, hsame, List.length_append, hlen]
    have := h.1
    exact and_congr_left' (iff_of_true (by omega) (by omega))
  · refine iff_of_true ?_ h
    have happend := boundary_append h.2.1 ht
    rwa [hlen] at happend

theorem Boundary.valid_between (hm : Boundary s m) (hn : Boundary s n) (hle : m ≤ n) :
    Valid ((s.drop m).take (n - m)) := by
  have hfront : Boundary (s.take n ++ []) m := (boundary_take_append hn valid_nil hle).mpr hm
  have hback := hfront.2.2
  rwa [List.append_nil, List.drop_take] at hback

end Boundary

end Glider.Lib.Utf8

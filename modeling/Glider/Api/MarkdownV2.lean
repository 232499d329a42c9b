import Glider.Lib.Absl
import Mathlib.Algebra.Group.Nat.Even
import Mathlib.Data.List.Induction

namespace Glider.Api.MarkdownV2

open Lib
open Bytes (ascii)

def replacements : List (Bytes × Bytes) :=
  [(ascii "\\", ascii "\\\\"), (ascii "_", ascii "\\_"), (ascii "*", ascii "\\*"),
    (ascii "[", ascii "\\["), (ascii "]", ascii "\\]"), (ascii "(", ascii "\\("),
    (ascii ")", ascii "\\)"), (ascii "~", ascii "\\~"), (ascii "`", ascii "\\`"),
    (ascii ">", ascii "\\>"), (ascii "#", ascii "\\#"), (ascii "+", ascii "\\+"),
    (ascii "-", ascii "\\-"), (ascii "=", ascii "\\="), (ascii "|", ascii "\\|"),
    (ascii "\x7b", ascii "\\\x7b"), (ascii "\x7d", ascii "\\\x7d"), (ascii ".", ascii "\\."),
    (ascii "!", ascii "\\!")]

def escape (absl : Absl) (input : Bytes) : Bytes := absl.strReplaceAll input replacements

def backslash : UInt8 := 92

-- The characters that mark something up; a backslash in front of one takes that away.
def special : Bytes := ascii "_*[]()~`>#+-=|\x7b\x7d.!"

def escaped : Bytes := backslash :: special

-- Takes the backslash away in front of each escaped character.
def unescape : Bytes → Bytes
  | [] => []
  | [b] => [b]
  | b :: c :: rest =>
    if b = backslash ∧ c ∈ escaped then c :: unescape rest else b :: unescape (c :: rest)

-- The length of the run of backslashes at the end of a text.
def backslashes (text : Bytes) : ℕ := (text.reverse.takeWhile (· = backslash)).length

section Escape

variable {absl : Absl} (h : absl.Documented)

theorem replacements_eq : replacements = escaped.map fun b => ([b], [backslash, b]) := by decide

def token (b : UInt8) : Bytes := if b ∈ escaped then [backslash, b] else [b]

theorem replaces_iff {b : UInt8} {rest key value : Bytes} :
    Absl.Replaces replacements key value (b :: rest) ↔
      b ∈ escaped ∧ key = [b] ∧ value = [backslash, b] := by
  have hkeys : ∀ r ∈ replacements, r.1.length = 1 := by decide
  constructor
  · rintro ⟨hmem, -, hthere, -⟩
    rw [replacements_eq, List.mem_map] at hmem
    obtain ⟨c, hc, heq⟩ := hmem
    obtain ⟨rfl, rfl⟩ := Prod.mk.inj heq
    obtain rfl := (List.cons_prefix_cons.mp hthere).1
    exact ⟨hc, rfl, rfl⟩
  · rintro ⟨hb, rfl, rfl⟩
    refine ⟨?_, List.cons_ne_nil _ _, List.prefix_append [b] rest, fun r hr _ => ?_⟩
    · rw [replacements_eq]
      exact List.mem_map_of_mem hb
    · exact Nat.le_of_eq (hkeys r hr)

include h

theorem escape_nil : escape absl [] = [] := h.replace_nil replacements

theorem escape_cons (b : UInt8) (rest : Bytes) :
    escape absl (b :: rest) = token b ++ escape absl rest := by
  rw [token]
  split
  · next hb =>
    exact h.replace_key replacements [b] [backslash, b] rest (by decide)
      (replaces_iff.mpr ⟨hb, rfl, rfl⟩)
  · next hb =>
    exact h.replace_other replacements b rest fun key value hr => hb (replaces_iff.mp hr).1

theorem escape_eq (s : Bytes) : escape absl s = s.flatMap token := by
  induction s with
  | nil => exact escape_nil h
  | cons b s ih => rw [escape_cons h, ih, List.flatMap_cons]

theorem length_escape_le (s : Bytes) : (escape absl s).length ≤ 2 * s.length := by
  induction s with
  | nil =>
    rw [escape_nil h]
    exact Nat.zero_le _
  | cons b s ih =>
    have htoken : (token b).length ≤ 2 := by
      rw [token]
      split
      · exact Nat.le_refl 2
      · exact Nat.le_succ 1
    rw [escape_cons h, List.length_append, List.length_cons]
    omega

theorem escape_append (s t : Bytes) : escape absl (s ++ t) = escape absl s ++ escape absl t := by
  rw [escape_eq h, escape_eq h, escape_eq h, List.flatMap_append]

end Escape

section Unescape

theorem ne_backslash {b : UInt8} (hb : b ∉ escaped) : b ≠ backslash := by
  rintro rfl
  exact hb List.mem_cons_self

theorem unescape_cons {b : UInt8} (hb : b ≠ backslash) (rest : Bytes) :
    unescape (b :: rest) = b :: unescape rest := by
  cases rest with
  | nil => rfl
  | cons c rest => exact if_neg fun h => hb h.1

theorem unescape_token (b : UInt8) (rest : Bytes) :
    unescape (token b ++ rest) = b :: unescape rest := by
  rw [token]
  split
  · next hb => exact if_pos ⟨rfl, hb⟩
  · next hb => exact unescape_cons (ne_backslash hb) rest

theorem unescape_escape {absl : Absl} (h : absl.Documented) (s : Bytes) :
    unescape (escape absl s) = s := by
  induction s with
  | nil =>
    rw [escape_nil h]
    rfl
  | cons b s ih => rw [escape_cons h, unescape_token, ih]

end Unescape

section Pending

-- Whether a text ends in a backslash that escapes what comes behind it.
def pending (before : Bool) (text : Bytes) : Bool :=
  text.foldl (fun p b => b = backslash && !p) before

theorem backslashes_concat (text : Bytes) (b : UInt8) :
    backslashes (text ++ [b]) = if b = backslash then backslashes text + 1 else 0 := by
  rw [backslashes, List.reverse_append, List.reverse_singleton, List.singleton_append,
    List.takeWhile_cons]
  simp only [decide_eq_true_eq]
  split
  · rfl
  · rfl

theorem pending_iff (text : Bytes) : pending false text = true ↔ Odd (backslashes text) := by
  induction text using List.reverseRecOn with
  | nil => exact iff_of_false Bool.false_ne_true (by decide)
  | append_singleton text b ih =>
    rw [pending, List.foldl_append, List.foldl_cons, List.foldl_nil, backslashes_concat]
    change (decide (b = backslash) && !pending false text) = true ↔ _
    by_cases hb : b = backslash
    · rw [if_pos hb, decide_eq_true hb, Bool.true_and, Bool.not_eq_true', ← Bool.not_eq_true, ih,
        Nat.odd_add_one]
    · rw [if_neg hb, decide_eq_false hb]
      exact iff_of_false Bool.false_ne_true (by decide)

theorem pending_token (b : UInt8) : pending false (token b) = false := by
  rw [token]
  split
  · simp [pending]
  · next hb =>
    simp [pending, ne_backslash hb]

-- A cut inside the token of a character: behind the backslash that escapes it, or before it.
theorem pending_inside {b : UInt8} {front back : Bytes} (hsplit : token b = front ++ back)
    (hback : back ≠ []) :
    (∀ c ∈ back.head?, c ∈ special → pending false front = true) ∧
      ((∀ c ∈ back.head?, c ∉ escaped) → pending false front = false) := by
  rw [token] at hsplit
  cases front with
  | nil =>
    refine ⟨fun c hc hspecial => ?_, fun _ => rfl⟩
    rw [List.nil_append] at hsplit
    subst hsplit
    split at hc
    · obtain rfl := Option.some.inj hc
      exact absurd hspecial (by decide)
    · next hb =>
      obtain rfl := Option.some.inj hc
      exact absurd (List.mem_cons_of_mem _ hspecial) hb
  | cons d front =>
    split at hsplit
    · next hb =>
      obtain ⟨rfl, hrest⟩ := List.cons.inj hsplit
      obtain ⟨rfl, rfl⟩ | ⟨-, rfl⟩ := List.singleton_eq_append_iff.mp hrest
      · exact ⟨fun _ _ _ => rfl, fun hnot => absurd hb (hnot b rfl)⟩
      · exact absurd rfl hback
    · obtain ⟨-, hrest⟩ := List.cons.inj hsplit
      exact absurd (List.append_eq_nil_iff.mp hrest.symm).2 hback

-- Where escaped text is cut in front of a special character, and in front of any other or at its
-- end.
theorem pending_escape {absl : Absl} (h : absl.Documented) {s front back : Bytes}
    (hsplit : escape absl s = front ++ back) :
    (∀ b ∈ back.head?, b ∈ special → pending false front = true) ∧
      ((∀ b ∈ back.head?, b ∉ escaped) → pending false front = false) := by
  induction s generalizing front with
  | nil =>
    rw [escape_nil h] at hsplit
    obtain ⟨rfl, rfl⟩ := List.append_eq_nil_iff.mp hsplit.symm
    exact ⟨nofun, fun _ => rfl⟩
  | cons b s ih =>
    have hbehind {front' : Bytes} (hrest : escape absl s = front' ++ back) :
        (∀ c ∈ back.head?, c ∈ special → pending false (token b ++ front') = true) ∧
          ((∀ c ∈ back.head?, c ∉ escaped) → pending false (token b ++ front') = false) := by
      have hpending : pending false (token b ++ front') = pending false front' := by
        rw [pending, List.foldl_append]
        exact congrArg (pending · front') (pending_token b)
      rw [hpending]
      exact ih hrest
    rw [escape_cons h] at hsplit
    rcases List.append_eq_append_iff.mp hsplit with ⟨front', rfl, hrest⟩ | ⟨back', htoken, rfl⟩
    · exact hbehind hrest
    · by_cases hback : back' = []
      · subst hback
        rw [List.append_nil] at htoken
        rw [← htoken, ← List.append_nil (token b)]
        exact hbehind rfl
      · have hhead : (back' ++ escape absl s).head? = back'.head? := List.head?_append_of_ne_nil _ hback
        rw [hhead]
        exact pending_inside htoken hback

-- An escaped text loses nothing, and each character in it that would mark something up is escaped;
-- a backslash in it is escaped or escapes the character behind it.
theorem escape_lossless (absl : Absl) (h : absl.Documented) :
    (∀ s, unescape (escape absl s) = s) ∧
      (∀ s front b back, escape absl s = front ++ b :: back →
        (b ∈ special → Odd (backslashes front)) ∧
          (b = backslash → Odd (backslashes front) ∨ ∃ c ∈ back.head?, c ∈ escaped)) ∧
      (∀ s t, escape absl (s ++ t) = escape absl s ++ escape absl t) ∧
      ∀ s, (escape absl s).length ≤ 2 * s.length := by
  refine ⟨unescape_escape h, fun s front b back hsplit => ⟨fun hb => ?_, ?_⟩, escape_append h,
    length_escape_le h⟩
  · exact (pending_iff front).mp ((pending_escape h hsplit).1 b rfl hb)
  · rintro rfl
    by_contra hneither
    obtain ⟨hodd, hnone⟩ := not_or.mp hneither
    have hbefore : pending false front = false := by
      rw [← Bool.not_eq_true, pending_iff]
      exact hodd
    have hbehind : pending false (front ++ [backslash]) = true := by
      rw [pending, List.foldl_append]
      change (decide (backslash = backslash) && !pending false front) = true
      rw [hbefore]
      rfl
    have hcut : escape absl s = front ++ [backslash] ++ back := by
      rw [hsplit, List.append_assoc]
      rfl
    have hidle := (pending_escape h hcut).2 fun c hc hescaped => hnone ⟨c, hc, hescaped⟩
    rw [hbehind] at hidle
    cases hidle

theorem escape_lossless_emphasis :
    escape Absl.reference (ascii "\\*a*") = ascii "\\\\\\*a\\*" ∧
      unescape (escape Absl.reference (ascii "\\*a*")) = ascii "\\*a*" ∧
      Odd (backslashes (ascii "\\\\\\")) :=
  have h := escape_lossless Absl.reference Absl.reference_documented
  ⟨by decide, h.1 _,
    (h.2.1 (ascii "\\*a*") (ascii "\\\\\\") 42 (ascii "a\\*") (by decide)).1 (by decide)⟩

end Pending

end Glider.Api.MarkdownV2

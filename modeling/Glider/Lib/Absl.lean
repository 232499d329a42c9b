import Glider.Lib.Decimal
import Mathlib.Data.List.Nodup

namespace Glider.Lib

open Decimal (isSpace)

-- The functions of the string library that a program calls. `SkipEmpty` and `SkipWhitespace` drop
-- pieces of what `strSplit` finds.
structure Absl where
  strReplaceAll : Bytes → List (Bytes × Bytes) → Bytes
  strSplit : Bytes → UInt8 → List Bytes
  stripLeadingAsciiWhitespace : Bytes → Bytes
  stripTrailingAsciiWhitespace : Bytes → Bytes

namespace Absl

-- A replacement that is made in front of a text: no other key that stands there is longer.
structure Replaces (replacements : List (Bytes × Bytes)) (key value text : Bytes) : Prop where
  mem : (key, value) ∈ replacements
  nonempty : key ≠ []
  there : key <+: text
  longest : ∀ r ∈ replacements, r.1 <+: text → r.1.length ≤ key.length

-- What the documentation promises. `strReplaceAll` goes over the text once from the left; what it
-- has put in is not looked at again.
structure Documented (absl : Absl) : Prop where
  replace_nil : ∀ replacements, absl.strReplaceAll [] replacements = []
  replace_key : ∀ replacements key value rest, (replacements.map Prod.fst).Nodup →
    Replaces replacements key value (key ++ rest) →
      absl.strReplaceAll (key ++ rest) replacements =
        value ++ absl.strReplaceAll rest replacements
  replace_other : ∀ replacements b rest,
    (∀ key value, ¬Replaces replacements key value (b :: rest)) →
      absl.strReplaceAll (b :: rest) replacements = b :: absl.strReplaceAll rest replacements
  split_joined : ∀ text delimiter, [delimiter].intercalate (absl.strSplit text delimiter) = text
  split_apart : ∀ text delimiter, ∀ part ∈ absl.strSplit text delimiter, delimiter ∉ part
  split_ne_nil : ∀ text delimiter, absl.strSplit text delimiter ≠ []
  leading_blank : ∀ text, ∃ blanks, blanks ++ absl.stripLeadingAsciiWhitespace text = text ∧
    ∀ b ∈ blanks, isSpace b = true
  leading_head : ∀ text b, (absl.stripLeadingAsciiWhitespace text).head? = some b →
    isSpace b = false
  trailing_blank : ∀ text, ∃ blanks, absl.stripTrailingAsciiWhitespace text ++ blanks = text ∧
    ∀ b ∈ blanks, isSpace b = true
  trailing_last : ∀ text b, (absl.stripTrailingAsciiWhitespace text).getLast? = some b →
    isSpace b = false

section Strip

theorem dropWhile_append_of_blank {blanks rest : Bytes} (hblanks : ∀ b ∈ blanks, isSpace b = true)
    (hrest : ∀ b, rest.head? = some b → isSpace b = false) :
    (blanks ++ rest).dropWhile isSpace = rest := by
  rw [List.dropWhile_append_of_pos hblanks]
  cases rest with
  | nil => rfl
  | cons b rest => exact List.dropWhile_cons_of_neg (by rw [hrest b rfl]; exact Bool.false_ne_true)

variable {absl : Absl} (h : absl.Documented) (text : Bytes)
include h

theorem stripLeading_eq : absl.stripLeadingAsciiWhitespace text = text.dropWhile isSpace := by
  obtain ⟨blanks, heq, hblanks⟩ := h.leading_blank text
  have hdrop := dropWhile_append_of_blank hblanks (h.leading_head text)
  rw [heq] at hdrop
  exact hdrop.symm

theorem stripTrailing_eq :
    absl.stripTrailingAsciiWhitespace text = (text.reverse.dropWhile isSpace).reverse := by
  obtain ⟨blanks, heq, hblanks⟩ := h.trailing_blank text
  have hdrop := @dropWhile_append_of_blank blanks.reverse
    (absl.stripTrailingAsciiWhitespace text).reverse
    (fun b hb => hblanks b (List.mem_reverse.mp hb))
    (fun b hb => h.trailing_last text b (by rwa [List.head?_reverse] at hb))
  rw [← List.reverse_append, heq] at hdrop
  rw [hdrop, List.reverse_reverse]

theorem strSplit_eq (delimiter : UInt8) : absl.strSplit text delimiter = text.splitOn delimiter := by
  have hsplit := List.splitOn_intercalate delimiter (h.split_apart text delimiter)
    (h.split_ne_nil text delimiter)
  rw [h.split_joined] at hsplit
  exact hsplit.symm

end Strip

section Reference

variable (replacements : List (Bytes × Bytes))

-- The replacement for a place, if there is one.
def replacementAt (text : Bytes) : Option (Bytes × Bytes) :=
  replacements.find? fun r =>
    r.1 ≠ [] ∧ r.1 <+: text ∧ ∀ q ∈ replacements, q.1 <+: text → q.1.length ≤ r.1.length

-- `skip` bytes belong to the key that was replaced last.
def replaceFrom (skip : ℕ) : Bytes → Bytes
  | [] => []
  | b :: rest =>
    match skip with
    | skip + 1 => replaceFrom skip rest
    | 0 =>
      match replacementAt replacements (b :: rest) with
      | some (key, value) => value ++ replaceFrom (key.length - 1) rest
      | none => b :: replaceFrom 0 rest

-- The functions as they are documented.
def reference : Absl where
  strReplaceAll text replacements := replaceFrom replacements 0 text
  strSplit text delimiter := text.splitOn delimiter
  stripLeadingAsciiWhitespace text := text.dropWhile isSpace
  stripTrailingAsciiWhitespace text := (text.reverse.dropWhile isSpace).reverse

variable {replacements}

theorem replaces_of_replacementAt {text key value : Bytes}
    (h : replacementAt replacements text = some (key, value)) :
    Replaces replacements key value text := by
  have hsome := List.find?_some h
  obtain ⟨hne, hthere, hlongest⟩ := of_decide_eq_true hsome
  exact ⟨List.mem_of_find?_eq_some h, hne, hthere, hlongest⟩

theorem replacementAt_of_replaces {text key value : Bytes}
    (hnodup : (replacements.map Prod.fst).Nodup) (h : Replaces replacements key value text) :
    replacementAt replacements text = some (key, value) := by
  cases hfind : replacementAt replacements text with
  | none =>
    have hnone := List.find?_eq_none.mp hfind _ h.mem
    exact absurd (decide_eq_true ⟨h.nonempty, h.there, h.longest⟩) hnone
  | some r =>
    have hr := replaces_of_replacementAt hfind
    have hlen : r.1.length = key.length :=
      Nat.le_antisymm (h.longest r hr.mem hr.there) (hr.longest _ h.mem h.there)
    have hkey : r.1 = key :=
      (List.prefix_of_prefix_length_le hr.there h.there (Nat.le_of_eq hlen)).eq_of_length hlen
    exact congrArg some (List.inj_on_of_nodup_map hnodup hr.mem h.mem hkey)

theorem replaceFrom_skip (key rest : Bytes) :
    replaceFrom replacements key.length (key ++ rest) = replaceFrom replacements 0 rest := by
  induction key with
  | nil => rfl
  | cons b key ih => exact ih

theorem not_mem_of_mem_splitOn {delimiter : UInt8} {text : Bytes} :
    ∀ part ∈ text.splitOn delimiter, delimiter ∉ part := by
  induction text with
  | nil =>
    rw [List.splitOn_nil]
    exact List.forall_mem_singleton.mpr List.not_mem_nil
  | cons b text ih =>
    rw [List.splitOn_cons_eq_if_modifyHead]
    split
    · exact List.forall_mem_cons.mpr ⟨List.not_mem_nil, ih⟩
    · next hb =>
      obtain ⟨part, parts, hparts⟩ := List.exists_cons_of_ne_nil (List.splitOn_ne_nil delimiter text)
      rw [hparts] at ih ⊢
      obtain ⟨hpart, hrest⟩ := List.forall_mem_cons.mp ih
      refine List.forall_mem_cons.mpr ⟨fun hmem => ?_, hrest⟩
      rcases List.mem_cons.mp hmem with rfl | hmem
      · exact hb (beq_self_eq_true _)
      · exact hpart hmem

theorem head_dropWhile {text : Bytes} {b : UInt8} (h : (text.dropWhile isSpace).head? = some b) :
    isSpace b = false := by
  have hnot := List.head?_dropWhile_not isSpace text
  rw [h] at hnot
  exact hnot

theorem reference_documented : reference.Documented where
  replace_nil _ := rfl
  replace_key replacements key value rest hnodup h := by
    obtain ⟨b, key', rfl⟩ := List.exists_cons_of_ne_nil h.nonempty
    have hat := replacementAt_of_replaces hnodup h
    change replaceFrom replacements 0 (b :: (key' ++ rest)) = _
    rw [List.cons_append] at hat
    rw [replaceFrom, hat]
    exact congrArg (value ++ ·) (replaceFrom_skip key' rest)
  replace_other replacements b rest hnone := by
    change replaceFrom replacements 0 (b :: rest) = _
    cases hat : replacementAt replacements (b :: rest) with
    | none =>
      rw [replaceFrom, hat]
      rfl
    | some r => exact absurd (replaces_of_replacementAt hat) (hnone r.1 r.2)
  split_joined text delimiter := List.intercalate_splitOn delimiter
  split_apart text delimiter part hpart := not_mem_of_mem_splitOn part hpart
  split_ne_nil text delimiter := List.splitOn_ne_nil delimiter text
  leading_blank text :=
    ⟨text.takeWhile isSpace, List.takeWhile_append_dropWhile, fun _ hb => List.mem_takeWhile_imp hb⟩
  leading_head _ _ hb := head_dropWhile hb
  trailing_blank text := by
    refine ⟨(text.reverse.takeWhile isSpace).reverse, ?_, fun b hb => ?_⟩
    · change (text.reverse.dropWhile isSpace).reverse ++ _ = text
      rw [← List.reverse_append, List.takeWhile_append_dropWhile, List.reverse_reverse]
    · exact List.mem_takeWhile_imp (List.mem_reverse.mp hb)
  trailing_last text b hb := by
    refine @head_dropWhile text.reverse b ?_
    rwa [← List.getLast?_reverse]

end Reference

end Absl

end Glider.Lib

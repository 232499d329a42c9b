import Glider.Lib.Decimal
import Mathlib.Data.List.Induction
import Mathlib.Data.List.Nodup

namespace Glider.Commands

open Glider.Lib
open Bytes (ascii)

def kPercentMax : ℕ := 100

def kMaxChoices : ℕ := 100

def kMaxChoiceBytes : ℕ := 64

def kMaxTelegramTextBytes : ℕ := 4096

inductive Strings where
  | INVALID_ARGS_PASSED
  | SEND_POSSIBILITIES
  | GIVE_MORE_THAN_ONE
  | TOTAL_ITEMS_PREFIX
  | TOTAL_ITEMS_SUFFIX

-- The texts of a locale.
abbrev PerLocaleMap := Strings → Bytes

-- `generate` is given the number of the call; its answers may leave the range asked for.
structure RandomBase where
  generate : (call min max : ℕ) → ℕ
  shuffle : List Bytes → List Bytes
  shuffle_perm : ∀ inArray, (shuffle inArray).Perm inArray

abbrev WeightedChoice := Bytes × ℕ

-- Control characters of the "C" locale.
def iscntrl (ch : UInt8) : Bool := ch < 32 ∨ ch = 127

def isValidChoice (choice : Bytes) : Bool :=
  if choice = [] ∨ choice.length > kMaxChoiceBytes then false else choice.all fun ch => !iscntrl ch

inductive Reply where
  | sendPossibilities
  | invalidChoice
  | tooManyChoices
  | giveMoreThanOne
  | failedToAllocate
  | outputTooLong
  | output (text : Bytes)

def validationError (res : PerLocaleMap) (detail : Bytes) : Bytes :=
  res .INVALID_ARGS_PASSED ++ ascii ": " ++ detail

def Reply.text (res : PerLocaleMap) : Reply → Bytes
  | sendPossibilities => res .SEND_POSSIBILITIES
  | invalidChoice =>
    validationError res
      (ascii "each choice must contain 1-" ++ Decimal.digits kMaxChoiceBytes ++
        ascii " bytes of printable text")
  | tooManyChoices =>
    validationError res
      (ascii "at most " ++ Decimal.digits kMaxChoices ++ ascii " unique choices are allowed")
  | giveMoreThanOne => res .GIVE_MORE_THAN_ONE
  | failedToAllocate => validationError res (ascii "failed to allocate exactly 100 percent")
  | outputTooLong =>
    validationError res
      (ascii "combined output exceeds " ++ Decimal.digits kMaxTelegramTextBytes ++
        ascii " bytes")
  | output text => text

-- The loop over the arguments; `seen` holds what `choices` holds.
def collect (choices : List Bytes) : List Bytes → Except Reply (List Bytes)
  | [] => .ok choices
  | choice :: rest =>
    if !isValidChoice choice then .error .invalidChoice
    else if choice ∈ choices then collect choices rest
    else if choices.length = kMaxChoices then .error .tooManyChoices
    else collect (choices ++ [choice]) rest

-- `none` is an unsigned difference that wraps.
def subtract (a b : ℕ) : Option ℕ := if b ≤ a then some (a - b) else none

-- The last item does not draw, nor does one for which nothing remains.
def draws (remaining : ℕ) (rest : List Bytes) : Prop := rest ≠ [] ∧ remaining ≠ 0

instance (remaining : ℕ) (rest : List Bytes) : Decidable (draws remaining rest) :=
  inferInstanceAs (Decidable (rest ≠ [] ∧ remaining ≠ 0))

def percent (random : RandomBase) (call remaining : ℕ) (rest : List Bytes) : ℕ :=
  if draws remaining rest then min (random.generate call 0 remaining) remaining else remaining

-- Each item gets a part of what remains, the last one all of it.
def weigh (random : RandomBase) (call remaining : ℕ) : List Bytes → Option (List WeightedChoice)
  | [] => some []
  | choice :: rest => do
      let left ← subtract remaining (percent random call remaining rest)
      let weighted ← weigh random (if draws remaining rest then call + 1 else call) left rest
      return (choice, percent random call remaining rest) :: weighted

-- The larger percentage first, then by name.
def before (a b : WeightedChoice) : Bool := if a.2 ≠ b.2 then a.2 > b.2 else a.1 ≤ b.1

def displayedTotal (weighted : List WeightedChoice) : ℕ := (weighted.map Prod.snd).sum

def outStream (res : PerLocaleMap) (weighted : List WeightedChoice) : Bytes :=
  res .TOTAL_ITEMS_PREFIX ++ ascii " " ++ Decimal.digits weighted.length ++ ascii " " ++
    res .TOTAL_ITEMS_SUFFIX ++ ascii "\n" ++
    weighted.flatMap (fun m => m.1 ++ ascii " : " ++ Decimal.digits m.2 ++ ascii "%\n") ++
    res .TOTAL_ITEMS_PREFIX ++ ascii ": " ++ Decimal.digits (displayedTotal weighted) ++ ascii "%"

-- The choices as they are weighed, and what is answered.
structure Possibilities where
  weighted : List WeightedChoice
  reply : Reply

def possibility (res : PerLocaleMap) (random : RandomBase) (parsed : List Bytes) :
    Option Possibilities :=
  if parsed = [] then some ⟨[], .sendPossibilities⟩
  else
    match collect [] parsed with
    | .error reply => some ⟨[], reply⟩
    | .ok choices =>
      if choices.length ≤ 1 then some ⟨[], .giveMoreThanOne⟩
      else do
        let weighted ← weigh random 0 kPercentMax (random.shuffle choices)
        let weighted := weighted.mergeSort before
        if displayedTotal weighted ≠ kPercentMax then return ⟨weighted, .failedToAllocate⟩
        else if (outStream res weighted).length > kMaxTelegramTextBytes then
          return ⟨weighted, .outputTooLong⟩
        else return ⟨weighted, .output (outStream res weighted)⟩

section Collect

variable {passed rest : List Bytes}

theorem eraseDups_append_singleton (passed : List Bytes) (choice : Bytes) :
    (passed ++ [choice]).eraseDups =
      if choice ∈ passed then passed.eraseDups else passed.eraseDups ++ [choice] := by
  rw [List.eraseDups_append]
  by_cases hmem : choice ∈ passed
  · simp [List.removeAll, hmem]
  · simp [List.removeAll, hmem, List.eraseDups_cons]

theorem eraseDups_of_nodup {choices : List Bytes} (h : choices.Nodup) :
    choices.eraseDups = choices := by
  induction choices using List.reverseRecOn with
  | nil => rfl
  | append_singleton passed choice ih =>
    obtain ⟨hpassed, -, hdisjoint⟩ := List.nodup_append'.mp h
    have hfresh : choice ∉ passed := fun hmem => hdisjoint hmem (List.mem_singleton_self choice)
    rw [eraseDups_append_singleton, if_neg hfresh, ih hpassed]

theorem length_eraseDups_le_append (passed rest : List Bytes) :
    passed.eraseDups.length ≤ (passed ++ rest).eraseDups.length := by
  rw [List.eraseDups_append, List.length_append]
  exact Nat.le_add_right _ _

-- The first occurrences are kept as long as there is room for all of them.
theorem collect_eq (hvalid : ∀ choice ∈ rest, isValidChoice choice = true)
    (hpassed : passed.eraseDups.length ≤ kMaxChoices) :
    collect passed.eraseDups rest =
      if (passed ++ rest).eraseDups.length ≤ kMaxChoices then .ok (passed ++ rest).eraseDups
      else .error .tooManyChoices := by
  induction rest generalizing passed with
  | nil =>
    rw [List.append_nil, if_pos hpassed]
    rfl
  | cons choice rest ih =>
    obtain ⟨hchoice, hrest⟩ := List.forall_mem_cons.mp hvalid
    rw [List.append_cons]
    have hnext := @ih (passed ++ [choice]) hrest
    have hgrows := length_eraseDups_le_append (passed ++ [choice]) rest
    rw [eraseDups_append_singleton] at hnext hgrows
    rw [collect, hchoice]
    by_cases hmem : choice ∈ passed
    · rw [if_pos hmem] at hnext
      rw [if_neg (by simp), if_pos (List.mem_eraseDups.mpr hmem), hnext hpassed]
    · rw [if_neg hmem] at hnext hgrows
      rw [List.length_append, List.length_singleton] at hnext hgrows
      rw [if_neg (by simp), if_neg (mt List.mem_eraseDups.mp hmem)]
      by_cases hfull : passed.eraseDups.length = kMaxChoices
      · rw [if_pos hfull, if_neg (by omega)]
      · rw [if_neg hfull, hnext (by omega)]

end Collect

section Weigh

variable {random : RandomBase} {call remaining : ℕ} {rest : List Bytes}

theorem percent_le : percent random call remaining rest ≤ remaining := by
  unfold percent
  split_ifs
  · exact Nat.min_le_right _ _
  · exact Nat.le_refl _

theorem percent_last : percent random call remaining [] = remaining :=
  if_neg fun h => h.1 rfl

-- What is handed out and what remains are the amount at hand, so no difference wraps.
theorem weigh_spec (random : RandomBase) (call remaining : ℕ) (choices : List Bytes) :
    ∃ weighted, weigh random call remaining choices = some weighted ∧
      weighted.map Prod.fst = choices ∧ (∀ m ∈ weighted, m.2 ≤ remaining) ∧
      (choices ≠ [] → displayedTotal weighted = remaining) := by
  induction choices generalizing call remaining with
  | nil => exact ⟨[], rfl, rfl, by simp, fun h => absurd rfl h⟩
  | cons choice rest ih =>
    have hle : percent random call remaining rest ≤ remaining := percent_le
    have hleft : subtract remaining (percent random call remaining rest) =
        some (remaining - percent random call remaining rest) := if_pos hle
    obtain ⟨weighted, hweigh, hnames, hparts, hsum⟩ :=
      ih (if draws remaining rest then call + 1 else call)
        (remaining - percent random call remaining rest)
    refine ⟨(choice, percent random call remaining rest) :: weighted, ?_, ?_, ?_, fun _ => ?_⟩
    · rw [weigh, hleft, Option.bind_eq_bind, Option.bind_some, hweigh]
      rfl
    · rw [List.map_cons, hnames]
    · refine List.forall_mem_cons.mpr ⟨hle, fun m hm => ?_⟩
      exact Nat.le_trans (hparts m hm) (Nat.sub_le _ _)
    · rw [displayedTotal, List.map_cons, List.sum_cons, ← displayedTotal]
      cases rest with
      | nil =>
        obtain rfl := List.map_eq_nil_iff.mp hnames
        exact (percent_last : percent random call remaining [] = remaining)
      | cons next rest =>
        rw [hsum (List.cons_ne_nil _ _)]
        exact Nat.add_sub_cancel' hle

end Weigh

section Handler

-- Every choice has one percentage, and the percentages are a whole.
structure Assigned (choices : List Bytes) (weighted : List WeightedChoice) : Prop where
  names : (weighted.map Prod.fst).Perm choices
  percent : ∀ m ∈ weighted, m.2 ≤ kPercentMax
  total : displayedTotal weighted = kPercentMax

theorem displayedTotal_perm {weighted weighted' : List WeightedChoice}
    (h : weighted.Perm weighted') : displayedTotal weighted = displayedTotal weighted' :=
  (h.map Prod.snd).sum_nat

theorem Assigned.of_perm {choices choices' : List Bytes} {weighted weighted' : List WeightedChoice}
    (h : Assigned choices weighted) (hweighted : weighted'.Perm weighted)
    (hchoices : choices.Perm choices') : Assigned choices' weighted' where
  names := ((hweighted.map Prod.fst).trans h.names).trans hchoices
  percent := fun m hm => h.percent m (hweighted.mem_iff.mp hm)
  total := (displayedTotal_perm hweighted).trans h.total

variable (res : PerLocaleMap) (random : RandomBase) (parsed : List Bytes)

-- What has to come of distinct choices: all are weighed, and the answer shows it if it is short.
def Shared : Prop :=
  ∃ weighted, Assigned parsed.eraseDups weighted ∧
    possibility res random parsed =
      some ⟨weighted,
        if (outStream res weighted).length > kMaxTelegramTextBytes then .outputTooLong
        else .output (outStream res weighted)⟩

variable {res random parsed}

theorem shared_of_few (hvalid : ∀ choice ∈ parsed, isValidChoice choice = true)
    (hmany : 2 ≤ parsed.eraseDups.length) (hfew : parsed.eraseDups.length ≤ kMaxChoices) :
    Shared res random parsed := by
  have hempty : ([] : List Bytes).eraseDups.length ≤ kMaxChoices := Nat.zero_le _
  have hcollect := collect_eq hvalid hempty
  rw [List.nil_append, if_pos hfew] at hcollect
  have hshuffle := random.shuffle_perm parsed.eraseDups
  have hsome : random.shuffle parsed.eraseDups ≠ [] := by
    intro h
    have := hshuffle.length_eq
    rw [h, List.length_nil] at this
    omega
  obtain ⟨weighted, hweigh, hnames, hparts, hsum⟩ :=
    weigh_spec random 0 kPercentMax (random.shuffle parsed.eraseDups)
  have hassigned : Assigned (random.shuffle parsed.eraseDups) weighted :=
    ⟨hnames ▸ List.Perm.refl _, hparts, hsum hsome⟩
  have hsorted := hassigned.of_perm (List.mergeSort_perm weighted before) hshuffle
  refine ⟨_, hsorted, ?_⟩
  have hne : parsed ≠ [] := by
    rintro rfl
    simp at hmany
  rw [possibility, if_neg hne]
  change (match collect [].eraseDups parsed with | .error _ => _ | .ok _ => _) = _
  rw [hcollect]
  simp only [if_neg (Nat.not_le.mpr hmany), hweigh, Option.bind_eq_bind, Option.bind_some]
  rw [if_neg (not_not_intro hsorted.total)]
  split_ifs <;> rfl

-- One more choice than there is room for, and nothing is weighed.
theorem possibility_of_many (hvalid : ∀ choice ∈ parsed, isValidChoice choice = true)
    (hcrowd : kMaxChoices < parsed.eraseDups.length) :
    possibility res random parsed = some ⟨[], .tooManyChoices⟩ := by
  have hempty : ([] : List Bytes).eraseDups.length ≤ kMaxChoices := Nat.zero_le _
  have hcollect := collect_eq hvalid hempty
  rw [List.nil_append, if_neg (Nat.not_le.mpr hcrowd)] at hcollect
  have hne : parsed ≠ [] := by
    rintro rfl
    simp at hcrowd
  rw [possibility, if_neg hne]
  change (match collect [].eraseDups parsed with | .error _ => _ | .ok _ => _) = _
  rw [hcollect]

theorem not_shared_of_many (hvalid : ∀ choice ∈ parsed, isValidChoice choice = true)
    (hcrowd : kMaxChoices < parsed.eraseDups.length) : ¬ Shared res random parsed := by
  rintro ⟨weighted, hassigned, hrun⟩
  rw [possibility_of_many hvalid hcrowd, Option.some.injEq, Possibilities.mk.injEq] at hrun
  obtain ⟨rfl, -⟩ := hrun
  have hlength := hassigned.names.length_eq
  rw [List.map_nil, List.length_nil] at hlength
  omega

theorem possibility_shared (hvalid : ∀ choice ∈ parsed, isValidChoice choice = true)
    (hmany : 2 ≤ parsed.eraseDups.length) :
    Shared res random parsed ↔ parsed.eraseDups.length ≤ kMaxChoices := by
  refine ⟨fun h => ?_, shared_of_few hvalid hmany⟩
  by_contra hcrowd
  exact not_shared_of_many hvalid (Nat.not_le.mp hcrowd) h

-- A generator that answers the same at every call and leaves the order alone.
def constant (answer : ℕ) : RandomBase := ⟨fun _ _ _ => answer, id, fun _ => List.Perm.refl _⟩

def silent : PerLocaleMap := fun _ => []

theorem possibility_shared_beyondRange :
    Shared silent (constant 1000) [ascii "yes", ascii "no", ascii "yes"] :=
  (possibility_shared (by decide) (by decide)).mpr (by decide)

def crowd : List Bytes := (List.range 101).map fun i => ascii "choice-" ++ Decimal.digits i

theorem nodup_crowd : crowd.Nodup :=
  List.nodup_range.map fun _ _ h => Decimal.digits_injective (List.append_cancel_left h)

theorem crowd_not_shared :
    ¬ ∀ res random parsed, (∀ choice ∈ parsed, isValidChoice choice = true) →
      2 ≤ parsed.eraseDups.length → Shared res random parsed := by
  intro h
  have hvalid : ∀ choice ∈ crowd, isValidChoice choice = true := by decide +kernel
  have hlength : crowd.eraseDups.length = 101 := by
    rw [eraseDups_of_nodup nodup_crowd, crowd, List.length_map, List.length_range]
  refine not_shared_of_many hvalid ?_ (h silent (constant 0) crowd hvalid ?_)
  · rw [hlength]
    decide
  · rw [hlength]
    decide

end Handler

end Glider.Commands

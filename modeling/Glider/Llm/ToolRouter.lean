import Glider.Lib.Bytes
import Glider.Lib.Words

namespace Glider.Llm.ToolRouter

open Lib
open Bytes (ascii)

-- `All` is no label of the classifier.
inductive Domain
  | Chat
  | KernelBuild
  | RomBuild
  | Build
  | Telegram
  | ChatRegistry
  | Confirmation
  | All
  deriving DecidableEq

def name : Domain → Bytes
  | .Chat => ascii "chat"
  | .KernelBuild => ascii "kernel_build"
  | .RomBuild => ascii "rom_build"
  | .Build => ascii "build"
  | .Telegram => ascii "telegram"
  | .ChatRegistry => ascii "chat_registry"
  | .Confirmation => ascii "confirmation"
  | .All => ascii "all"

section Normalized

def isalnum (ch : UInt8) : Bool := 48 ≤ ch ∧ ch ≤ 57 ∨ 65 ≤ ch ∧ ch ≤ 90 ∨ 97 ≤ ch ∧ ch ≤ 122

-- A character of a term: `ch == '_'` and `ch == '-'` beside the letters and digits.
def isTerm (ch : UInt8) : Bool := isalnum ch || ch = 95 || ch = 45

def space : UInt8 := 32

def normalizedFrom (previousSpace : Bool) : Bytes → Bytes
  | [] => if !previousSpace then [space] else []
  | ch :: rest =>
    if isTerm ch then Bytes.asciiToLower ch :: normalizedFrom false rest
    else if !previousSpace then space :: normalizedFrom true rest
    else normalizedFrom previousSpace rest

def normalized (value : Bytes) : Bytes := space :: normalizedFrom true value

end Normalized

section Parse

def candidate (token : Bytes) : Option Domain :=
  if token = ascii "kernel_build" then some .KernelBuild
  else if token = ascii "rom_build" then some .RomBuild
  else if token = ascii "build" then some .Build
  else if token = ascii "telegram" then some .Telegram
  else if token = ascii "chat_registry" then some .ChatRegistry
  else if token = ascii "confirmation" then some .Confirmation
  else if token = ascii "chat" then some .Chat
  else none

-- What has been parsed after one more token; `none` returns from the function.
def accept (parsed : Option Domain) (token : Bytes) : Option (Option Domain) :=
  match candidate token with
  | some domain =>
    if parsed.isSome ∧ parsed ≠ some domain then none else some (some domain)
  | none => some parsed

theorem length_lt_of_behind {value rest : Bytes} {ch : UInt8}
    (h : (value.dropWhile (· = space)).dropWhile (· ≠ space) = ch :: rest) :
    rest.length < value.length := by
  have hlen := congrArg List.length h
  have htoken := (List.dropWhile_sublist (· ≠ space) (l := value.dropWhile (· = space))).length_le
  have hspaces := (List.dropWhile_sublist (· = space) (l := value)).length_le
  rw [List.length_cons] at hlen
  omega

-- The loop over the tokens, on what is left of the value from `start` on.
def parseFrom (parsed : Option Domain) (value : Bytes) : Option Domain :=
  if value = [] then parsed
  else
    match accept parsed ((value.dropWhile (· = space)).takeWhile (· ≠ space)) with
    | none => none
    | some parsed =>
      match _ : (value.dropWhile (· = space)).dropWhile (· ≠ space) with
      | [] => parsed
      | _ :: rest => parseFrom parsed rest
termination_by value.length
decreasing_by exact length_lt_of_behind ‹_›

def parseClassifierResult (result : Bytes) : Option Domain := parseFrom none (normalized result)

end Parse

section Words

-- Words as `normalized` puts them out.
def spread (words : List Bytes) : Bytes :=
  words.flatMap fun word => word.map Bytes.asciiToLower ++ [space]

theorem toLower_ne_space {ch : UInt8} (h : isTerm ch = true) : Bytes.asciiToLower ch ≠ space := by
  have hall : ∀ n : Fin 256, isTerm (.ofNat n.val) = true →
      Bytes.asciiToLower (.ofNat n.val) ≠ space := by
    decide +kernel
  have hch := hall ⟨ch.toNat, ch.toNat_lt⟩
  rw [UInt8.ofNat_toNat] at hch
  exact hch h

theorem normalizedFrom_word {word rest : Bytes} (hne : word ≠ []) (hword : ∀ b ∈ word, isTerm b = true)
    (previousSpace : Bool) :
    normalizedFrom previousSpace (word ++ rest) =
      word.map Bytes.asciiToLower ++ normalizedFrom false rest := by
  induction word generalizing previousSpace with
  | nil => exact absurd rfl hne
  | cons b word ih =>
    obtain ⟨hb, hword⟩ := List.forall_mem_cons.mp hword
    rw [List.cons_append, normalizedFrom, if_pos hb, List.map_cons, List.cons_append]
    cases word with
    | nil => rfl
    | cons c word => rw [ih (List.cons_ne_nil _ _) hword]

theorem normalizedFrom_eq (value : Bytes) : normalizedFrom true value = spread (runs isTerm value) := by
  induction value using run_induction (p := isTerm) with
  | nil =>
    rw [runs_nil]
    rfl
  | cons ch rest hch ih =>
    rw [runs_cons hch, ← ih, normalizedFrom, if_neg (by rw [hch]; exact Bool.false_ne_true)]
    rfl
  | word word rest hne hword hrest ih =>
    have hbehind : normalizedFrom false rest = space :: normalizedFrom true rest := by
      cases rest with
      | nil => rfl
      | cons ch rest =>
        have hch : ¬isTerm ch = true := Bool.eq_false_iff.mp (hrest ch rfl)
        rw [normalizedFrom, normalizedFrom, if_neg hch, if_neg hch]
        rfl
    rw [normalizedFrom_word hne hword, runs_word_append hne hword hrest, hbehind, ih]
    exact (List.append_cons _ _ _).trans rfl

-- A word of the value, with or without the space in front of it.
theorem parseFrom_word {word rest : Bytes} (hne : word ≠ []) (hword : space ∉ word)
    (parsed : Option Domain) {value : Bytes}
    (hvalue : value.dropWhile (· = space) = word ++ space :: rest) :
    parseFrom parsed value = (accept parsed word).bind (parseFrom · rest) := by
  have hletters : ∀ b ∈ word, decide (b ≠ space) = true := fun b hb =>
    decide_eq_true fun heq => hword (heq ▸ hb)
  have htoken : (word ++ space :: rest).takeWhile (· ≠ space) = word := by
    rw [List.takeWhile_append_of_pos hletters, List.takeWhile_cons_of_neg (by decide), List.append_nil]
  have hbehind : (word ++ space :: rest).dropWhile (· ≠ space) = space :: rest := by
    rw [List.dropWhile_append_of_pos hletters, List.dropWhile_cons_of_neg (by decide)]
  have hvalue' : value ≠ [] := by
    rintro rfl
    exact List.append_ne_nil_of_left_ne_nil hne _ hvalue.symm
  rw [parseFrom, if_neg hvalue', hvalue, htoken]
  cases accept parsed word with
  | none => rfl
  | some parsed =>
    simp only [Option.bind_some]
    split
    · next heq =>
      rw [hbehind] at heq
      cases heq
    · next heq =>
      rw [hbehind] at heq
      cases heq
      rfl

-- The answer after the tokens, from what has been parsed before.
def settle (parsed : Option Domain) : List Bytes → Option Domain
  | [] => parsed
  | token :: tokens => (accept parsed token).bind (settle · tokens)

def lowered (words : List Bytes) : List Bytes := words.map fun word => word.map Bytes.asciiToLower

theorem parseFrom_spread {words : List Bytes}
    (hwords : ∀ word ∈ words, word ≠ [] ∧ ∀ b ∈ word, isTerm b = true) (parsed : Option Domain) :
    parseFrom parsed (spread words) = settle parsed (lowered words) := by
  induction words generalizing parsed with
  | nil => rw [show spread [] = [] from rfl, parseFrom, if_pos rfl]; rfl
  | cons word words ih =>
    obtain ⟨⟨hne, hword⟩, hrest⟩ := List.forall_mem_cons.mp hwords
    have hne' : word.map Bytes.asciiToLower ≠ [] := mt List.map_eq_nil_iff.mp hne
    have hspace : space ∉ word.map Bytes.asciiToLower := by
      intro hmem
      obtain ⟨b, hb, heq⟩ := List.mem_map.mp hmem
      exact toLower_ne_space (hword b hb) heq
    have hvalue : (spread (word :: words)).dropWhile (· = space) =
        word.map Bytes.asciiToLower ++ space :: spread words := by
      rw [spread, List.flatMap_cons, List.append_assoc]
      obtain ⟨b, rest, hb⟩ := List.exists_cons_of_ne_nil hne'
      rw [hb] at hspace ⊢
      exact List.dropWhile_cons_of_neg fun heq =>
        hspace (List.mem_cons.mpr (.inl (of_decide_eq_true heq).symm))
    rw [parseFrom_word hne' hspace parsed hvalue]
    exact Option.bind_congr fun parsed _ => ih hrest parsed

theorem parseFrom_space (parsed : Option Domain) (value : Bytes) :
    parseFrom parsed (space :: value) = parseFrom parsed value := by
  have hdrop : (space :: value).dropWhile (· = space) = value.dropWhile (· = space) :=
    List.dropWhile_cons_of_pos (by decide)
  rw [parseFrom, if_neg (List.cons_ne_nil _ _), hdrop]
  by_cases hvalue : value = []
  · subst hvalue
    rw [parseFrom, if_pos rfl]
    rfl
  · conv_rhs => rw [parseFrom, if_neg hvalue]

end Words

section Settle

theorem candidate_eq_some {token : Bytes} {domain : Domain} :
    candidate token = some domain ↔ domain ≠ .All ∧ token = name domain := by
  constructor
  · intro h
    unfold candidate at h
    repeat' split at h
    all_goals cases h
    all_goals exact ⟨nofun, by assumption⟩
  · rintro ⟨hall, rfl⟩
    cases domain with
    | All => exact absurd rfl hall
    | _ => decide

theorem accept_of_none {token : Bytes} (h : candidate token = none) (parsed : Option Domain) :
    accept parsed token = some parsed := by
  rw [accept, h]

theorem accept_of_some {token : Bytes} {domain : Domain} (h : candidate token = some domain)
    (parsed : Option Domain) :
    accept parsed token =
      if parsed = none ∨ parsed = some domain then some (some domain) else none := by
  rw [accept, h]
  cases parsed <;> simp

-- All labels that have been met are the same, and there is one.
theorem settle_eq_some {tokens : List Bytes} {parsed : Option Domain} {domain : Domain} :
    settle parsed tokens = some domain ↔
      (∀ d ∈ parsed.toList ++ tokens.filterMap candidate, d = domain) ∧
        parsed.toList ++ tokens.filterMap candidate ≠ [] := by
  induction tokens generalizing parsed with
  | nil =>
    cases parsed with
    | none | some d => simp [settle]
  | cons token tokens ih =>
    rw [settle]
    cases hcandidate : candidate token with
    | none =>
      rw [accept_of_none hcandidate, Option.bind_some, ih, List.filterMap_cons_none hcandidate]
    | some d =>
      rw [accept_of_some hcandidate, List.filterMap_cons_some hcandidate]
      cases parsed with
      | none =>
        rw [if_pos (.inl rfl), Option.bind_some, ih]
        rfl
      | some e =>
        by_cases he : e = d
        · subst he
          rw [if_pos (.inr rfl), Option.bind_some, ih]
          simp
        · simp only [reduceCtorEq, Option.some.injEq, he, or_self, if_false, Option.bind_none,
            Option.toList_some, List.singleton_append, List.forall_mem_cons, false_iff]
          rintro ⟨⟨rfl, rfl, -⟩, -⟩
          exact he rfl

-- The label of a domain is one of the words of the text.
def Occurs (text : Bytes) (domain : Domain) : Prop :=
  domain ≠ .All ∧ ∃ word, IsRun isTerm text word ∧ word.map Bytes.asciiToLower = name domain

theorem parseClassifierResult_eq (result : Bytes) :
    parseClassifierResult result = settle none (lowered (runs isTerm result)) := by
  have hwords : ∀ word ∈ runs isTerm result, word ≠ [] ∧ ∀ b ∈ word, isTerm b = true := by
    intro word hword
    obtain ⟨hne, hletters, -⟩ := mem_runs_iff.mp hword
    exact ⟨hne, hletters⟩
  rw [parseClassifierResult, normalized, parseFrom_space, normalizedFrom_eq, parseFrom_spread hwords]

theorem mem_labels_iff {result : Bytes} {domain : Domain} :
    domain ∈ (lowered (runs isTerm result)).filterMap candidate ↔ Occurs result domain := by
  simp only [lowered, List.mem_filterMap, List.mem_map, candidate_eq_some, exists_exists_and_eq_and,
    mem_runs_iff, Occurs]
  constructor
  · rintro ⟨word, hword, hall, hname⟩
    exact ⟨hall, word, hword, hname⟩
  · rintro ⟨hall, word, hword, hname⟩
    exact ⟨word, hword, hall, hname⟩

-- What the classifier has answered is the one label among its words.
theorem parseClassifierResult_exact (result : Bytes) :
    (∀ domain, parseClassifierResult result = some domain ↔
      ∀ d, Occurs result d ↔ d = domain) ∧
      (parseClassifierResult result = none ↔
        (∀ d, ¬Occurs result d) ∨ ∃ d d', d ≠ d' ∧ Occurs result d ∧ Occurs result d') := by
  have hsome : ∀ domain, parseClassifierResult result = some domain ↔
      ∀ d, Occurs result d ↔ d = domain := by
    intro domain
    rw [parseClassifierResult_eq, settle_eq_some, Option.toList_none, List.nil_append]
    simp only [mem_labels_iff]
    constructor
    · rintro ⟨hall, hne⟩ d
      refine ⟨hall d, ?_⟩
      rintro rfl
      obtain ⟨e, hmem⟩ := List.exists_mem_of_ne_nil _ hne
      have he := mem_labels_iff.mp hmem
      exact hall e he ▸ he
    · intro h
      exact ⟨fun d => (h d).mp, List.ne_nil_of_mem (mem_labels_iff.mpr ((h domain).mpr rfl))⟩
  refine ⟨hsome, ?_⟩
  rw [Option.eq_none_iff_forall_ne_some]
  constructor
  · intro h
    by_contra hneither
    obtain ⟨hsomewhere, hsame⟩ := not_or.mp hneither
    obtain ⟨d, hd⟩ := not_forall_not.mp hsomewhere
    refine h d ((hsome d).mpr fun e => ⟨fun he => ?_, fun heq => heq ▸ hd⟩)
    by_contra hne
    exact hsame ⟨e, d, hne, he, hd⟩
  · rintro (hnone | ⟨d, d', hne, hd, hd'⟩) domain h
    · exact hnone domain (((hsome domain).mp h domain).mpr rfl)
    · have hall := (hsome domain).mp h
      exact hne (((hall d).mp hd).trans ((hall d').mp hd').symm)

end Settle

end Glider.Llm.ToolRouter

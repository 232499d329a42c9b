import Glider.Lib.Absl
import Mathlib.Data.List.Induction

namespace Glider.Api

open Lib
open Bytes (ascii)
open Decimal (isSpace)

-- `isBotCommand` stands for the type `BotCommand` among those an entity can have.
structure MessageEntity where
  isBotCommand : Bool
  offset : Int32
  length : Int32
  deriving DecidableEq

inductive Message
  | mk (text : Option Bytes) (entities : Option (List MessageEntity))
    (replyToMessage : Option Message)

inductive SplitMessageText
  | None
  | ByWhitespace
  | ByComma
  | ByNewline

structure BotCommand where
  name : Bytes
  target : Bytes
  deriving DecidableEq

-- What the constructor makes of the text of a message.
structure Parsed where
  command : Option BotCommand
  extraArgs : Bytes
  arguments : List Bytes
  deriving DecidableEq

inductive MessageExt
  | mk (parsed : Parsed) (message : Option Message) (replyMessage : Option MessageExt)

section Parse

variable (absl : Absl)

-- `none` is the exception of a place behind the end.
def substr (s : Bytes) (pos count : ℕ) : Option Bytes :=
  if s.length < pos then none else some ((s.drop pos).take count)

-- The conversion of a signed number to `std::size_t`.
def toSize (n : Int32) : ℕ := (n.toInt % 2 ^ 64).toNat

def isCommandEntity (entity : MessageEntity) : Bool := entity.isBotCommand ∧ entity.offset = 0

def parseCommand (text : Bytes) (entry : MessageEntity) : Option (BotCommand × Bytes) := do
  let extraArgs ← substr text (toSize entry.length) text.length
  let command ← substr text 1 (toSize entry.length)
  -- a pair takes the first two pieces, and drops the others
  let kCommandSplit := absl.strSplit command 64
  some (⟨kCommandSplit.getD 0 [], absl.stripTrailingAsciiWhitespace (kCommandSplit.getD 1 [])⟩,
    absl.stripLeadingAsciiWhitespace extraArgs)

def stripAsciiWhitespace (text : Bytes) : Bytes :=
  absl.stripTrailingAsciiWhitespace (absl.stripLeadingAsciiWhitespace text)

-- `StrSplit` with `SkipWhitespace`.
def splitSkipping (text : Bytes) (delimiter : UInt8) : List Bytes :=
  (absl.strSplit text delimiter).filter fun part => stripAsciiWhitespace absl part ≠ []

def splitArguments (extraArgs : Bytes) (how : SplitMessageText) : List Bytes :=
  if extraArgs = [] then []
  else
    (match how with
      | .ByWhitespace => splitSkipping absl extraArgs 32
      | .ByComma => splitSkipping absl extraArgs 44
      | .None => [extraArgs]
      | .ByNewline => splitSkipping absl extraArgs 10).map (stripAsciiWhitespace absl)

def parse (text : Option Bytes) (entities : Option (List MessageEntity)) (how : SplitMessageText) :
    Option Parsed :=
  match text with
  | none => some ⟨none, [], []⟩
  | some text =>
    match (entities.getD []).find? isCommandEntity with
    | some entry =>
      if text.head? = some 47 then
        (parseCommand absl text entry).map fun c =>
          ⟨some c.1, c.2, splitArguments absl c.2 how⟩
      else some ⟨none, text, splitArguments absl text how⟩
    | none => some ⟨none, text, splitArguments absl text how⟩

-- The constructor; `none` is an exception.
def construct (message : Option Message) (how : SplitMessageText) : Option MessageExt :=
  match message with
  | none => some (.mk ⟨none, [], []⟩ none none)
  | some (.mk text entities replyToMessage) => do
    let replyMessage ← construct replyToMessage .None
    let parsed ← parse absl text entities how
    some (.mk parsed (some (.mk text entities replyToMessage)) (some replyMessage))

end Parse

section Pieces

-- What a command is by its text: its name up to the first '@', its target behind it.
def nameOf (command : Bytes) : Bytes := command.takeWhile (· ≠ 64)

def targetOf (command : Bytes) : Bytes := (command.dropWhile (· ≠ 64)).tail

theorem nameOf_of_not_mem {command : Bytes} (h : 64 ∉ command) :
    nameOf command = command ∧ targetOf command = [] := by
  have hall : ∀ b ∈ command, decide (b ≠ 64) = true := fun b hb =>
    decide_eq_true fun heq => h (heq ▸ hb)
  refine ⟨List.takeWhile_eq_self_iff.mpr hall, ?_⟩
  rw [targetOf, List.dropWhile_eq_nil_iff.mpr hall]
  rfl

theorem nameOf_append {front rest : Bytes} (h : 64 ∉ front) :
    nameOf (front ++ 64 :: rest) = front ∧ targetOf (front ++ 64 :: rest) = rest := by
  have hall : ∀ b ∈ front, decide (b ≠ 64) = true := fun b hb =>
    decide_eq_true fun heq => h (heq ▸ hb)
  refine ⟨?_, ?_⟩
  · rw [nameOf, List.takeWhile_append_of_pos hall, List.takeWhile_cons_of_neg (by decide),
      List.append_nil]
  · rw [targetOf, List.dropWhile_append_of_pos hall, List.dropWhile_cons_of_neg (by decide)]
    rfl

def strip (s : Bytes) : Bytes := (s.reverse.dropWhile isSpace).reverse

theorem strip_concat_of_space {b : UInt8} (hb : isSpace b = true) (s : Bytes) :
    strip (s ++ [b]) = strip s := by
  rw [strip, List.reverse_concat, List.dropWhile_cons_of_pos hb, strip]

theorem strip_concat_of_not_space {b : UInt8} (hb : isSpace b = false) (s : Bytes) :
    strip (s ++ [b]) = s ++ [b] := by
  rw [strip, List.reverse_concat, List.dropWhile_cons_of_neg (by rw [hb]; exact Bool.false_ne_true),
    List.reverse_cons, List.reverse_reverse]

theorem strip_sublist (s : Bytes) : (strip s).Sublist s := by
  have hsub := (List.dropWhile_sublist isSpace (l := s.reverse)).reverse
  rwa [List.reverse_reverse] at hsub

theorem strip_eq_iff {s : Bytes} :
    strip s = s ↔ ∀ b, s.getLast? = some b → isSpace b = false := by
  cases s using List.reverseRecOn with
  | nil => exact iff_of_true rfl nofun
  | append_singleton s b =>
    rw [List.getLast?_concat]
    by_cases hb : isSpace b = true
    · refine iff_of_false (fun heq => ?_) fun h => absurd hb (by rw [h b rfl]; exact Bool.false_ne_true)
      have hlen := congrArg List.length heq
      have hle := (strip_sublist s).length_le
      rw [strip_concat_of_space hb, List.length_append, List.length_singleton] at hlen
      omega
    · have hb' := Bool.eq_false_iff.mpr hb
      exact iff_of_true (strip_concat_of_not_space hb' s) fun c hc => Option.some.inj hc ▸ hb'

variable {command : Bytes} {next : Option UInt8}

theorem split_pieces (s : Bytes) :
    (s.splitOn 64).getD 0 [] = nameOf s ∧ (s.splitOn 64).getD 1 [] = nameOf (targetOf s) := by
  have hfirst : ∀ s : Bytes, (s.splitOn 64).getD 0 [] = nameOf s := by
    intro s
    by_cases hs : 64 ∈ s
    · obtain ⟨front, rest, rfl, hfront⟩ := List.eq_append_cons_of_mem hs
      rw [List.splitOn_append_cons_self_of_not_mem hfront, (nameOf_append hfront).1]
      rfl
    · rw [List.splitOn_eq_singleton hs, (nameOf_of_not_mem hs).1]
      rfl
  refine ⟨hfirst s, ?_⟩
  by_cases hs : 64 ∈ s
  · obtain ⟨front, rest, rfl, hfront⟩ := List.eq_append_cons_of_mem hs
    rw [List.splitOn_append_cons_self_of_not_mem hfront, (nameOf_append hfront).2]
    exact hfirst rest
  · rw [List.splitOn_eq_singleton hs, (nameOf_of_not_mem hs).2]
    rfl

-- The condition on a command and the character behind it.
def EndsWell (command : Bytes) (next : Option UInt8) : Prop :=
  64 ∉ targetOf command ∧ (∀ b, (targetOf command).getLast? = some b → isSpace b = false) ∧
    ∀ b, next = some b → b = 64 ∨ 64 ∈ command ∧ isSpace b = true

theorem target_exact_iff {target : Bytes} :
    strip (nameOf (target ++ next.toList)) = target ↔
      64 ∉ target ∧ (∀ b, target.getLast? = some b → isSpace b = false) ∧
        ∀ b, next = some b → b = 64 ∨ isSpace b = true := by
  by_cases htarget : 64 ∈ target
  · refine iff_of_false (fun heq => ?_) fun h => h.1 htarget
    have hmem : 64 ∈ nameOf (target ++ next.toList) :=
      (strip_sublist _).subset (heq.symm ▸ htarget)
    exact absurd (List.mem_takeWhile_imp hmem) (by decide)
  rw [and_iff_right htarget, ← strip_eq_iff]
  cases next with
  | none =>
    rw [Option.toList_none, List.append_nil, (nameOf_of_not_mem htarget).1]
    exact (and_iff_left nofun).symm
  | some b =>
    have hbehind : (∀ c, some b = some c → c = 64 ∨ isSpace c = true) ↔ b = 64 ∨ isSpace b = true :=
      ⟨fun h => h b rfl, fun h c hc => Option.some.inj hc ▸ h⟩
    rw [hbehind, Option.toList_some]
    by_cases hb : b = 64
    · subst hb
      rw [(nameOf_append htarget).1]
      exact (and_iff_left (.inl rfl)).symm
    · have hnone : 64 ∉ target ++ [b] := by
        rw [List.mem_append, List.mem_singleton, not_or]
        exact ⟨htarget, Ne.symm hb⟩
      rw [(nameOf_of_not_mem hnone).1]
      by_cases hspace : isSpace b = true
      · rw [strip_concat_of_space hspace]
        exact (and_iff_left (.inr hspace)).symm
      · rw [strip_concat_of_not_space (Bool.eq_false_iff.mpr hspace)]
        refine iff_of_false (fun heq => ?_) fun h => h.2.elim hb hspace
        exact List.cons_ne_nil _ _ (List.append_right_eq_self.mp heq)

theorem pieces_exact_iff :
    (nameOf (command ++ next.toList) = nameOf command ∧
      strip (nameOf (targetOf (command ++ next.toList))) = targetOf command) ↔
      EndsWell command next := by
  rw [EndsWell]
  by_cases hcommand : 64 ∈ command
  · obtain ⟨front, target, rfl, hfront⟩ := List.eq_append_cons_of_mem hcommand
    rw [List.append_assoc, List.cons_append, (nameOf_append hfront).1, (nameOf_append hfront).1,
      (nameOf_append hfront).2, (nameOf_append hfront).2, and_iff_right rfl, target_exact_iff]
    simp only [hcommand, true_and]
  · obtain ⟨hname, htarget⟩ := nameOf_of_not_mem hcommand
    rw [hname, htarget]
    simp only [hcommand, false_and, or_false]
    have hempty : 64 ∉ ([] : Bytes) ∧
        ∀ b, ([] : Bytes).getLast? = some b → isSpace b = false := ⟨List.not_mem_nil, nofun⟩
    rw [← and_assoc, and_iff_right hempty]
    cases next with
    | none =>
      rw [Option.toList_none, List.append_nil, hname, htarget]
      exact iff_of_true ⟨rfl, rfl⟩ nofun
    | some b =>
      rw [Option.toList_some]
      by_cases hb : b = 64
      · subst hb
        rw [(nameOf_append hcommand).1, (nameOf_append hcommand).2]
        exact iff_of_true ⟨rfl, rfl⟩ fun c hc => (Option.some.inj hc).symm
      · have hnone : 64 ∉ command ++ [b] := by
          rw [List.mem_append, List.mem_singleton, not_or]
          exact ⟨hcommand, Ne.symm hb⟩
        rw [(nameOf_of_not_mem hnone).1]
        refine iff_of_false (fun h => ?_) fun h => hb (h b rfl)
        exact List.cons_ne_nil _ _ (List.append_right_eq_self.mp h.1)

end Pieces

section Exact

variable {absl : Absl} {text : Bytes} {entry : MessageEntity}

-- The text of an entity at the start of a message, without the slash.
def commandText (text : Bytes) (length : ℕ) : Bytes := (text.drop 1).take (length - 1)

theorem toSize_of_nonneg {n : Int32} (h : 0 ≤ n.toInt) : toSize n = n.toInt.toNat := by
  have hlt := n.toInt_lt
  rw [toSize, Int.emod_eq_of_lt h (by omega)]

theorem parseCommand_eq (h : absl.Documented) (hlo : 1 ≤ entry.length.toInt)
    (hhi : entry.length.toInt.toNat ≤ text.length) :
    parseCommand absl text entry =
      let taken := commandText text entry.length.toInt.toNat ++
        text[entry.length.toInt.toNat]?.toList
      some (⟨nameOf taken, strip (nameOf (targetOf taken))⟩,
        (text.drop entry.length.toInt.toNat).dropWhile isSpace) := by
  obtain ⟨k, hk⟩ : ∃ k, entry.length.toInt.toNat = k + 1 := ⟨entry.length.toInt.toNat - 1, by omega⟩
  rw [parseCommand, toSize_of_nonneg (by omega)]
  rw [hk] at hhi ⊢
  have htaken : (text.drop 1).take (k + 1) = commandText text (k + 1) ++ text[k + 1]?.toList := by
    rw [List.take_add_one, List.getElem?_drop, Nat.add_comm 1 k]
    rfl
  have hrest : (text.drop (k + 1)).take text.length = text.drop (k + 1) := by
    apply List.take_of_length_le
    rw [List.length_drop]
    omega
  rw [substr, if_neg (by omega), substr, if_neg (by omega), Option.bind_eq_bind, Option.bind_some,
    Option.bind_some, htaken, hrest]
  dsimp only
  rw [Absl.strSplit_eq h, (split_pieces _).1, (split_pieces _).2, Absl.stripTrailing_eq h,
    Absl.stripLeading_eq h]
  rfl

-- The command of a message as its entity marks it.
def Exact (text : Bytes) (length : ℕ) (parsed : Parsed) : Prop :=
  parsed.command = some ⟨nameOf (commandText text length), targetOf (commandText text length)⟩ ∧
    parsed.extraArgs = (text.drop length).dropWhile isSpace

-- A message is parsed into its command, up to the errors that its reply makes; and when that is
-- the command its entity marks.
theorem command_exact_iff (absl : Absl) (h : absl.Documented) (text : Bytes)
    (entities : List MessageEntity) (entry : MessageEntity) (reply : Option Message)
    (how : SplitMessageText) (hentry : entities.find? isCommandEntity = some entry)
    (hslash : text.head? = some 47) (hlo : 1 ≤ entry.length.toInt)
    (hhi : entry.length.toInt.toNat ≤ text.length) :
    ∃ parsed, construct absl (some (.mk (some text) (some entities) reply)) how =
        (construct absl reply .None).map (fun replyMessage =>
          .mk parsed (some (.mk (some text) (some entities) reply)) (some replyMessage)) ∧
      (Exact text entry.length.toInt.toNat parsed ↔
        EndsWell (commandText text entry.length.toInt.toNat) text[entry.length.toInt.toNat]?) := by
  have hparse : ∃ parsed, parse absl (some text) (some entities) how = some parsed ∧
      (Exact text entry.length.toInt.toNat parsed ↔
        EndsWell (commandText text entry.length.toInt.toNat) text[entry.length.toInt.toNat]?) := by
    simp only [parse, Option.getD_some, hentry, hslash, if_true, parseCommand_eq h hlo hhi,
      Option.map_some]
    refine ⟨_, rfl, ?_⟩
    rw [Exact, ← pieces_exact_iff, and_iff_left rfl, Option.some.injEq, BotCommand.mk.injEq]
  obtain ⟨parsed, hparsed, hiff⟩ := hparse
  refine ⟨parsed, ?_, hiff⟩
  rw [construct, hparsed]
  cases construct absl reply .None <;> rfl

theorem command_exact_targeted :
    ∃ parsed, construct Absl.reference
        (some (.mk (some (ascii "/start@bot now")) (some [⟨true, 0, 10⟩]) none)) .None =
        (construct Absl.reference none .None).map (fun replyMessage =>
          .mk parsed (some (.mk (some (ascii "/start@bot now")) (some [⟨true, 0, 10⟩]) none))
            (some replyMessage)) ∧
      Exact (ascii "/start@bot now") 10 parsed := by
  obtain ⟨parsed, hparsed, hiff⟩ := command_exact_iff Absl.reference Absl.reference_documented
    (ascii "/start@bot now") [⟨true, 0, 10⟩] ⟨true, 0, 10⟩ none .None (by decide) (by decide)
    (by decide) (by decide)
  refine ⟨parsed, hparsed, hiff.mpr ⟨by decide, ?_, ?_⟩⟩
  · intro b hb
    obtain rfl : 116 = b := Option.some.inj hb
    decide
  · intro b hb
    obtain rfl : 32 = b := Option.some.inj hb
    exact .inr (by decide)

-- One character too many.
theorem command_with_blank :
    ¬∀ (text : Bytes) (entities : List MessageEntity) (entry : MessageEntity) (ext : MessageExt),
      entities.find? isCommandEntity = some entry → text.head? = some 47 → 1 ≤ entry.length.toInt →
      entry.length.toInt.toNat ≤ text.length →
      construct Absl.reference (some (.mk (some text) (some entities) none)) .None = some ext →
      ∃ parsed message replyMessage, ext = .mk parsed message replyMessage ∧
        Exact text entry.length.toInt.toNat parsed := by
  intro h
  have hparse : parse Absl.reference (some (ascii "/start now")) (some [⟨true, 0, 6⟩]) .None =
      some ⟨some ⟨ascii "start ", []⟩, ascii "now", [ascii "now"]⟩ := by decide
  have hconstruct : construct Absl.reference
      (some (.mk (some (ascii "/start now")) (some [⟨true, 0, 6⟩]) none)) .None =
        some (.mk ⟨some ⟨ascii "start ", []⟩, ascii "now", [ascii "now"]⟩
          (some (.mk (some (ascii "/start now")) (some [⟨true, 0, 6⟩]) none))
          (some (.mk ⟨none, [], []⟩ none none))) := by
    rw [construct, construct, hparse]
    rfl
  obtain ⟨parsed, message, replyMessage, hext, hcommand, -⟩ := h (ascii "/start now") [⟨true, 0, 6⟩]
    ⟨true, 0, 6⟩ _ (by decide) (by decide) (by decide) (by decide) hconstruct
  obtain ⟨rfl, -, -⟩ := MessageExt.mk.inj hext
  exact absurd hcommand (by decide)

end Exact

end Glider.Api

import Glider.Lib.Decimal
import Glider.Lib.Lines
import Glider.Lib.Word

namespace Glider

open Lib
open Bytes (ascii)
open Decimal (isDigit)
open Lines (getline lines unlines)
open Spans (Ordered)

-- A compiled expression: the matches that an iterator over a text comes to, whether there is one,
-- and what `std::regex_replace` makes of the text with the flags of `sed`.
structure Regex where
  spans : Bytes → List (ℕ × ℕ)
  ordered : ∀ source, Ordered source.length 0 (spans source)
  search : Bytes → Bool
  replace : (firstOnly : Bool) → Bytes → Bytes → Bytes

-- `none` is the exception that an expression is not valid.
structure RegexEngine where
  compile : (target : Bytes) → (icase : Bool) → Option Regex

namespace RegexCommand

inductive Error where
  | InvalidRegexMatchIndex
  | InvalidRegexOption
  | GlobalFlagAndMatchIndexInvalid
  | InvalidRegex
  | None
  deriving DecidableEq

abbrev Result := Except Error Bytes

-- A dot does not match the end of a line.
def isLineEnd (b : UInt8) : Bool := b = 10 ∨ b = 13

-- `(?:[^\/\\]|\\.)*`: what it takes of a text and what it leaves.
def elements : Bytes → Bytes × Bytes
  | [] => ([], [])
  | b :: rest =>
    if b = 47 then ([], b :: rest)
    else if b = 92 then
      match rest with
      | [] => ([], [b])
      | c :: rest =>
        if isLineEnd c then ([], b :: c :: rest)
        else (b :: c :: (elements rest).1, (elements rest).2)
    else (b :: (elements rest).1, (elements rest).2)

-- A text can stand between two slashes.
def Closed (s : Bytes) : Prop := s ≠ [] ∧ (elements s).2 = []

instance (s : Bytes) : Decidable (Closed s) := inferInstanceAs (Decidable (_ ∧ _))

-- The group of `^before((?:[^\/\\]|\\.)+)after$`, where `after` begins with a slash.
def group (before after command : Bytes) : Option Bytes :=
  if before <+: command then
    let (pattern, rest) := elements (command.drop before.length)
    if pattern ≠ [] ∧ rest = after then some pattern else none
  else none

end RegexCommand

-- A command: what it takes from the text of the command, and what it makes of that. `none` is
-- behaviour that is undefined.
structure RegexCommand where
  Groups : Type
  command_regex : Bytes → Option Groups
  run : RegexEngine → Bytes → Groups → Option RegexCommand.Result

namespace RegexCommand

def process (self : RegexCommand) (engine : RegexEngine) (source regexCommand : Bytes) :
    Option Result :=
  match self.command_regex regexCommand with
  | some groups => self.run engine source groups
  | none => some (.error .None)

end RegexCommand

namespace ReplaceCommand

open RegexCommand (Error Result elements isLineEnd)

structure Groups where
  target : Bytes
  replacement : Bytes
  options : Bytes

-- `^s\/((?:[^\/\\]|\\.)+)\/((?:[^\/\\]|\\.)*)(\/)?(.*)?$`.
def command_regex (command : Bytes) : Option Groups :=
  if ascii "s/" <+: command then
    match elements (command.drop 2) with
    | (target, 47 :: rest) =>
      let (replacement, rest) := elements rest
      let options := if rest.head? = some 47 then rest.tail else rest
      if target = [] ∨ options.any isLineEnd then none
      else some ⟨target, replacement, options⟩
    | _ => none
  else none

structure Options where
  isGlobal : Bool
  icase : Bool
  replaceIndex : Option ℤ

-- `value` is an `int`.
def readIndex (digits : Bytes) : Option ℤ :=
  digits.foldlM (fun value d => checkedInt (value * 10 + (d.toNat - 48))) 0

def scan (options : Bytes) (o : Options) : Option (Except Error Options) :=
  match options with
  | [] => some (.ok o)
  | option :: rest =>
    if option = 103 then scan rest { o with isGlobal := true }
    else if option = 105 then scan rest { o with icase := true }
    else if isDigit option then
      match readIndex (option :: rest.takeWhile isDigit) with
      | none => none
      | some value => scan (rest.dropWhile isDigit) { o with replaceIndex := some value }
    else some (.error .InvalidRegexOption)
termination_by options.length
decreasing_by
  all_goals have := (List.dropWhile_suffix isDigit (l := rest)).length_le
  all_goals simp only [List.length_cons]; omega

-- The loop over the matches: `count` is an `int`, too.
structure Replacing where
  count : ℤ
  result : Bytes
  last_pos : ℕ
  replaced : Bool

def replaceNext (source replacement : Bytes) (replaceIndex : ℤ) (s : Replacing) (it : ℕ × ℕ) :
    Option Replacing := do
  let count ← checkedInt (s.count + 1)
  let before := s.result ++ source.extract s.last_pos it.1
  if count = replaceIndex then return ⟨count, before ++ replacement, it.2, true⟩
  else return ⟨count, before ++ source.extract it.1 it.2, it.2, s.replaced⟩

def replaceAt (regex : Regex) (source replacement : Bytes) (replaceIndex : ℤ) : Option Result := do
  let s ← (regex.spans source).foldlM (replaceNext source replacement replaceIndex) ⟨0, [], 0, false⟩
  if s.replaced then return .ok (s.result ++ source.drop s.last_pos)
  else return .error .InvalidRegexMatchIndex

def run (engine : RegexEngine) (source : Bytes) (command : Groups) : Option Result :=
  match scan command.options ⟨false, false, none⟩ with
  | none => none
  | some (.error e) => some (.error e)
  | some (.ok o) =>
    if o.isGlobal ∧ o.replaceIndex.isSome then some (.error .GlobalFlagAndMatchIndexInvalid)
    else
      match engine.compile command.target o.icase with
      | none => some (.error .InvalidRegex)
      | some regex =>
        match o.replaceIndex with
        | some replaceIndex => replaceAt regex source command.replacement replaceIndex
        | none => some (.ok (regex.replace (!o.isGlobal) source command.replacement))

end ReplaceCommand

def ReplaceCommand : RegexCommand :=
  ⟨ReplaceCommand.Groups, ReplaceCommand.command_regex, ReplaceCommand.run⟩

namespace RegexCommand

-- The commands of one group, with what each makes of the source.
def single (before after : Bytes) (make : Regex → Bytes → Bytes) : RegexCommand where
  Groups := Bytes
  command_regex := group before after
  run engine source pattern :=
    match engine.compile pattern false with
    | none => some (.error .InvalidRegex)
    | some regex => some (.ok (make regex source))

end RegexCommand

def DeleteCommand : RegexCommand :=
  .single (ascii "/") (ascii "/d") fun reg source =>
    unlines ((lines source).filter fun line => !reg.search line)

def PrintCommand : RegexCommand :=
  .single (ascii "/") (ascii "/p") fun reg source => unlines ((lines source).filter reg.search)

def CountCommand : RegexCommand :=
  .single (ascii "/") (ascii "/c") fun reg source => Decimal.digits (reg.spans source).length

namespace ToUpperCommand

def asciiToUpper (b : UInt8) : UInt8 := if 97 ≤ b ∧ b ≤ 122 then b - 32 else b

-- What is put out so far, and where the last match ended.
def upperNext (source : Bytes) (s : Bytes × ℕ) (it : ℕ × ℕ) : Bytes × ℕ :=
  (s.1 ++ source.extract s.2 it.1 ++ (source.extract it.1 it.2).map asciiToUpper, it.2)

end ToUpperCommand

def ToUpperCommand : RegexCommand :=
  .single (ascii "u/") (ascii "/") fun reg source =>
    let (result, last_pos) := (reg.spans source).foldl (ToUpperCommand.upperNext source) ([], 0)
    result ++ source.drop last_pos

namespace RegexHandler

inductive Callback where
  | onError (message : Bytes)
  | onSuccess (result : Bytes)
  deriving DecidableEq

-- The message of an error, all of them for an invalid argument. A command that is not the handler's
-- own is no error.
def errorText (regexCommand : Bytes) : RegexCommand.Error → Option Bytes
  | .InvalidRegexOption => some (ascii "Invalid regex option in command: " ++ regexCommand)
  | .GlobalFlagAndMatchIndexInvalid =>
    some (ascii "Global flag and match index are not compatible: " ++ regexCommand)
  | .InvalidRegexMatchIndex => some (ascii "Invalid regex match index: " ++ regexCommand)
  | .InvalidRegex => some (ascii "Invalid regex: " ++ regexCommand)
  | .None => none

def execute (engine : RegexEngine) (source regexCommand : Bytes) :
    List RegexCommand → Option (List Callback)
  | [] => some []
  | handler :: rest =>
    match handler.process engine source regexCommand with
    | none => none
    | some (.ok result) => (execute engine source regexCommand rest).map (.onSuccess result :: ·)
    | some (.error e) =>
      match errorText regexCommand e with
      | some message => some [.onError message]
      | none => execute engine source regexCommand rest

def handlers : List RegexCommand :=
  [ReplaceCommand, DeleteCommand, PrintCommand, CountCommand, ToUpperCommand]

end RegexHandler

section Elements

open RegexCommand

variable {p rest : Bytes}

theorem elements_slash (rest : Bytes) : elements (47 :: rest) = ([], 47 :: rest) := by
  simp [elements.eq_def]

theorem elements_escape {c : UInt8} (hc : isLineEnd c = false) (rest : Bytes) :
    elements (92 :: c :: rest) = (92 :: c :: (elements rest).1, (elements rest).2) := by
  simp [elements.eq_def (92 :: c :: rest), hc]

theorem elements_lineEnd {c : UInt8} (hc : isLineEnd c = true) (rest : Bytes) :
    elements (92 :: c :: rest) = ([], 92 :: c :: rest) := by
  simp [elements.eq_def (92 :: c :: rest), hc]

theorem elements_plain {b : UInt8} (hslash : b ≠ 47) (hback : b ≠ 92) (rest : Bytes) :
    elements (b :: rest) = (b :: (elements rest).1, (elements rest).2) := by
  simp [elements.eq_def (b :: rest), hslash, hback]

theorem elements_append (h : (elements p).2 = []) :
    elements (p ++ 47 :: rest) = (p, 47 :: rest) := by
  fun_induction elements p with
  | case1 => exact elements_slash rest
  | case2 rest' | case3 | case4 => cases h
  | case5 c rest' hline hslash ih =>
    rw [List.cons_append, List.cons_append, elements_escape (Bool.eq_false_iff.mpr hline), ih h]
  | case6 b rest' hslash hback ih =>
    rw [List.cons_append, elements_plain hslash hback, ih h]

theorem elements_of_plain (h : ∀ b ∈ p, b ≠ 47 ∧ b ≠ 92) : elements p = (p, []) := by
  induction p with
  | nil => rfl
  | cons b p ih =>
    obtain ⟨hb, hrest⟩ := List.forall_mem_cons.mp h
    rw [elements_plain hb.1 hb.2, ih hrest]

end Elements

end Glider

import Mathlib.Data.List.Chain
import Mathlib.Data.List.Infix

namespace Glider.Lib.Shell

-- How a shell divides a text into commands and these into words, as far as quoting goes. Reserved
-- words are words like others.
abbrev Word := List Char

abbrev Command := List Word

inductive Mode
  | plain
  | escaped
  | single
  | double
  | doubleEscaped
  | comment
  deriving DecidableEq

-- The word that has begun, the words before it in its command, and the commands before that.
structure Lexer where
  mode : Mode
  word : Option Word
  words : Command
  commands : List Command
  deriving DecidableEq

namespace Lexer

def initial : Lexer := ⟨.plain, none, [], []⟩

def push (l : Lexer) (s : Word) : Lexer := { l with word := some (l.word.getD [] ++ s) }

def endWord (l : Lexer) : Lexer := { l with word := none, words := l.words ++ l.word.toList }

def endCommand (l : Lexer) : Lexer :=
  { l with
    word := none
    words := []
    commands :=
      if l.endWord.words = [] then l.commands else l.commands ++ [l.endWord.words] }

end Lexer

-- What stands for more than itself where nothing quotes it, and what does so in double quotes.
def isActive (c : Char) : Bool :=
  c ∈ ['$', '`', '&', '|', '<', '>', '(', ')', '*', '?', '[', '~', '!', '\x7b', '\x7d']

def isExpanded (c : Char) : Bool := c = '$' ∨ c = '`'

def isBlank (c : Char) : Bool := c = ' ' ∨ c = '\t'

-- The next character, unless it stands for more than itself.
def step (l : Lexer) (c : Char) : Option Lexer :=
  match l.mode with
  | .plain =>
    if c = '\'' then some { l.push [] with mode := .single }
    else if c = '"' then some { l.push [] with mode := .double }
    else if c = '\\' then some { l with mode := .escaped }
    else if isBlank c then some l.endWord
    else if c = '\n' then some l.endCommand
    else if c = ';' then if l.endWord.words = [] then none else some l.endCommand
    else if c = '#' ∧ l.word = none then some { l with mode := .comment }
    else if isActive c then none
    else some (l.push [c])
  | .escaped =>
    if c = '\n' then some { l with mode := .plain } else some { l.push [c] with mode := .plain }
  | .single => if c = '\'' then some { l with mode := .plain } else some (l.push [c])
  | .double =>
    if c = '"' then some { l with mode := .plain }
    else if c = '\\' then some { l with mode := .doubleEscaped }
    else if isExpanded c then none
    else some (l.push [c])
  | .doubleEscaped =>
    if c = '\n' then some { l with mode := .double }
    else if c = '"' ∨ c = '\\' ∨ isExpanded c then some { l.push [c] with mode := .double }
    else some { l.push ['\\', c] with mode := .double }
  | .comment => if c = '\n' then some { l.endCommand with mode := .plain } else some l

def run (l : Lexer) : List Char → Option Lexer
  | [] => some l
  | c :: text => (step l c).bind fun l => run l text

def Lexer.finish (l : Lexer) : Option (List Command) :=
  match l.mode with
  | .plain | .comment => some l.endCommand.commands
  | _ => none

-- What has been read stays as it is, and the word that has begun is the start of a longer one. A
-- number is no word where a redirection follows it.
def Lexer.Extends (l : Lexer) (commands : List Command) : Prop :=
  ∃ more, commands = l.commands ++ more ∧ ∀ command others, more = command :: others →
    ∃ tail, command = l.words ++ tail ∧ ∀ word, l.word = some word →
      word.all Char.isDigit = true ∨ ∃ rest tail', tail = (word ++ rest) :: tail'

-- What the commands of a text can be: where a character stands for more than itself, anything that
-- goes on from what was read before.
inductive Evaluates (text : List Char) (commands : List Command) : Prop
  | quoted {l : Lexer} (hrun : run .initial text = some l) (hfinish : l.finish = some commands)
  | beyond {l : Lexer} {before after : List Char} {c : Char} (htext : text = before ++ c :: after)
      (hrun : run .initial before = some l) (hactive : step l c = none)
      (hextends : l.Extends commands)

-- A value between single quotes: each one of its own is put outside of these.
def escapeQuote (c : Char) : List Char := if c = '\'' then ['\'', '\\', '\'', '\''] else [c]

def quote (value : List Char) : List Char := '\'' :: value.flatMap escapeQuote ++ ['\'']

section Steps

variable {l l' : Lexer} {c : Char} {commands : List Command}

theorem run_append (l : Lexer) (text text' : List Char) :
    run l (text ++ text') = (run l text).bind fun l => run l text' := by
  induction text generalizing l with
  | nil => rfl
  | cons c text ih =>
    rw [List.cons_append, run, run]
    cases step l c with
    | none => rfl
    | some l' => exact ih l'

theorem run_append_of_run {text text' : List Char} (h : run l text = some l') :
    run l (text ++ text') = run l' text' := by
  rw [run_append, h]
  rfl

-- What one character does, up to the mode.
inductive Moves (l : Lexer) : Lexer → Prop
  | stays (mode : Mode) : Moves l { l with mode }
  | pushes (s : Word) (mode : Mode) : Moves l { l.push s with mode }
  | endsWord (mode : Mode) : Moves l { l.endWord with mode }
  | endsCommand (mode : Mode) : Moves l { l.endCommand with mode }

theorem moves_of_step (h : step l c = some l') : Moves l l' := by
  obtain ⟨mode, word, words, before⟩ := l
  cases mode with
  | plain =>
    simp only [step] at h
    split at h
    · exact Option.some.inj h ▸ .pushes [] .single
    split at h
    · exact Option.some.inj h ▸ .pushes [] .double
    split at h
    · exact Option.some.inj h ▸ .stays .escaped
    split at h
    · exact Option.some.inj h ▸ .endsWord .plain
    split at h
    · exact Option.some.inj h ▸ .endsCommand .plain
    split at h
    · split at h
      · cases h
      · exact Option.some.inj h ▸ .endsCommand .plain
    split at h
    · exact Option.some.inj h ▸ .stays .comment
    split at h
    · cases h
    · exact Option.some.inj h ▸ .pushes [c] .plain
  | escaped =>
    simp only [step] at h
    split at h
    · exact Option.some.inj h ▸ .stays .plain
    · exact Option.some.inj h ▸ .pushes [c] .plain
  | single =>
    simp only [step] at h
    split at h
    · exact Option.some.inj h ▸ .stays .plain
    · exact Option.some.inj h ▸ .pushes [c] .single
  | double =>
    simp only [step] at h
    split at h
    · exact Option.some.inj h ▸ .stays .plain
    split at h
    · exact Option.some.inj h ▸ .stays .doubleEscaped
    split at h
    · cases h
    · exact Option.some.inj h ▸ .pushes [c] .double
  | doubleEscaped =>
    simp only [step] at h
    split at h
    · exact Option.some.inj h ▸ .stays .double
    split at h
    · exact Option.some.inj h ▸ .pushes [c] .double
    · exact Option.some.inj h ▸ .pushes ['\\', c] .double
  | comment =>
    simp only [step] at h
    split at h
    · exact Option.some.inj h ▸ .endsCommand .plain
    · exact Option.some.inj h ▸ .stays .comment

theorem extends_of_push {s : Word} (h : (l.push s).Extends commands) : l.Extends commands := by
  obtain ⟨more, rfl, hmore⟩ := h
  refine ⟨more, rfl, fun command others heq => ?_⟩
  obtain ⟨tail, htail, hword⟩ := hmore command others heq
  refine ⟨tail, htail, fun word hbegun => ?_⟩
  have hpushed : (l.push s).word = some (word ++ s) := by
    rw [Lexer.push, hbegun]
    rfl
  rcases hword _ hpushed with hdigits | ⟨rest, tail', rfl⟩
  · rw [List.all_append, Bool.and_eq_true] at hdigits
    exact .inl hdigits.1
  · exact .inr ⟨s ++ rest, tail', by rw [List.append_assoc]⟩

theorem extends_of_endWord (h : l.endWord.Extends commands) : l.Extends commands := by
  obtain ⟨more, rfl, hmore⟩ := h
  refine ⟨more, rfl, fun command others heq => ?_⟩
  obtain ⟨tail, htail, -⟩ := hmore command others heq
  refine ⟨l.word.toList ++ tail, ?_, fun word hbegun => .inr ⟨[], tail, ?_⟩⟩
  · rw [htail, ← List.append_assoc]
    rfl
  · rw [hbegun, List.append_nil]
    rfl

theorem extends_of_endCommand (h : l.endCommand.Extends commands) : l.Extends commands := by
  apply extends_of_endWord
  by_cases hempty : l.endWord.words = []
  · obtain ⟨more, rfl, hmore⟩ := h
    refine ⟨more, congrArg (· ++ more) (if_pos hempty), fun command others heq => ?_⟩
    refine ⟨command, ?_, fun word hbegun => nomatch hbegun⟩
    rw [hempty]
    rfl
  · obtain ⟨more, rfl, hmore⟩ := h
    refine ⟨l.endWord.words :: more, ?_, fun command others heq => ?_⟩
    · refine (congrArg (· ++ more) (if_neg hempty)).trans ?_
      rw [List.append_assoc]
      rfl
    · cases heq
      exact ⟨[], (List.append_nil _).symm, fun word hbegun => nomatch hbegun⟩

theorem extends_of_step (hstep : step l c = some l') (h : l'.Extends commands) :
    l.Extends commands := by
  cases moves_of_step hstep with
  | stays mode => exact h
  | pushes s mode => exact extends_of_push h
  | endsWord mode => exact extends_of_endWord h
  | endsCommand mode => exact extends_of_endCommand h

theorem extends_of_run {text : List Char} (hrun : run l text = some l')
    (h : l'.Extends commands) : l.Extends commands := by
  induction text generalizing l with
  | nil =>
    cases hrun
    exact h
  | cons c text ih =>
    obtain ⟨next, hstep, hnext⟩ := Option.bind_eq_some_iff.mp hrun
    exact extends_of_step hstep (ih hnext)

theorem extends_of_finish (hfinish : l.finish = some commands) : l.Extends commands := by
  apply extends_of_endCommand
  refine ⟨[], ?_, fun command others heq => nomatch heq⟩
  rw [List.append_nil]
  unfold Lexer.finish at hfinish
  split at hfinish
  · exact (Option.some.inj hfinish).symm
  · exact (Option.some.inj hfinish).symm
  · cases hfinish

-- A text begins as its start is read, whatever follows.
theorem extends_of_evaluates {before after : List Char} (hrun : run .initial before = some l)
    (h : Evaluates (before ++ after) commands) : l.Extends commands := by
  cases h with
  | @quoted l' hrun' hfinish =>
    rw [run_append_of_run hrun] at hrun'
    exact extends_of_run hrun' (extends_of_finish hfinish)
  | @beyond l' before' after' c htext hrun' hactive hextends =>
    rcases List.append_eq_append_iff.mp htext with ⟨more, rfl, -⟩ | ⟨more, rfl, hmore⟩
    · rw [run_append_of_run hrun] at hrun'
      exact extends_of_run hrun' hextends
    · cases more with
      | nil =>
        rw [List.append_nil, hrun'] at hrun
        cases hrun
        exact hextends
      | cons d more =>
        cases hmore
        rw [run_append_of_run hrun', run, hactive] at hrun
        cases hrun

theorem evaluates_iff {text : List Char} {read : List Command} (hrun : run .initial text = some l)
    (hfinish : l.finish = some read) : Evaluates text commands ↔ commands = read := by
  constructor
  · intro h
    cases h with
    | quoted hrun' hfinish' =>
      cases hrun.symm.trans hrun'
      exact Option.some.inj (hfinish'.symm.trans hfinish)
    | beyond htext hrun' hactive _ =>
      subst htext
      rw [run_append_of_run hrun', run, hactive] at hrun
      cases hrun
  · rintro rfl
    exact .quoted hrun hfinish

section Before

variable (before : List Command)

def Lexer.behind (l : Lexer) : Lexer := { l with commands := before ++ l.commands }

theorem endCommand_behind (l : Lexer) :
    (l.behind before).endCommand = l.endCommand.behind before := by
  by_cases hempty : l.endWord.words = []
  · have hcommands : l.endCommand.commands = l.commands := if_pos hempty
    have hbehind : (l.behind before).endCommand.commands = before ++ l.commands := if_pos hempty
    rw [← hcommands] at hbehind
    exact congrArg (Lexer.mk l.mode none []) hbehind
  · have hcommands : l.endCommand.commands = l.commands ++ [l.endWord.words] := if_neg hempty
    have hbehind : (l.behind before).endCommand.commands =
        before ++ l.commands ++ [l.endWord.words] := if_neg hempty
    rw [List.append_assoc, ← hcommands] at hbehind
    exact congrArg (Lexer.mk l.mode none []) hbehind

-- The commands that are complete have no part in what comes after.
theorem step_behind (l : Lexer) (c : Char) :
    step (l.behind before) c = (step l c).map (Lexer.behind before) := by
  cases hmode : l.mode with
  | plain =>
    have hmode' : (l.behind before).mode = .plain := hmode
    simp only [step, hmode, hmode', endCommand_behind]
    by_cases hquote : c = '\''
    · rw [if_pos hquote, if_pos hquote]
      rfl
    rw [if_neg hquote, if_neg hquote]
    by_cases hdouble : c = '"'
    · rw [if_pos hdouble, if_pos hdouble]
      rfl
    rw [if_neg hdouble, if_neg hdouble]
    by_cases hback : c = '\\'
    · rw [if_pos hback, if_pos hback]
      rfl
    rw [if_neg hback, if_neg hback]
    by_cases hblank : isBlank c = true
    · rw [if_pos hblank, if_pos hblank]
      rfl
    rw [if_neg hblank, if_neg hblank]
    by_cases hnewline : c = '\n'
    · rw [if_pos hnewline, if_pos hnewline]
      rfl
    rw [if_neg hnewline, if_neg hnewline]
    by_cases hsemicolon : c = ';'
    · rw [if_pos hsemicolon, if_pos hsemicolon]
      by_cases hempty : l.endWord.words = []
      · have hempty' : (l.behind before).endWord.words = [] := hempty
        rw [if_pos hempty, if_pos hempty']
        rfl
      · have hempty' : (l.behind before).endWord.words ≠ [] := hempty
        rw [if_neg hempty, if_neg hempty']
        rfl
    rw [if_neg hsemicolon, if_neg hsemicolon]
    by_cases hcomment : c = '#' ∧ l.word = none
    · have hcomment' : c = '#' ∧ (l.behind before).word = none := hcomment
      rw [if_pos hcomment, if_pos hcomment']
      rfl
    have hcomment' : ¬(c = '#' ∧ (l.behind before).word = none) := hcomment
    rw [if_neg hcomment, if_neg hcomment']
    split
    · rfl
    · rfl
  | comment =>
    have hmode' : (l.behind before).mode = .comment := hmode
    simp only [step, hmode, hmode', endCommand_behind]
    split
    · rfl
    · rfl
  | escaped =>
    have hmode' : (l.behind before).mode = .escaped := hmode
    simp only [step, hmode, hmode']
    split
    · rfl
    · rfl
  | single =>
    have hmode' : (l.behind before).mode = .single := hmode
    simp only [step, hmode, hmode']
    split
    · rfl
    · rfl
  | double =>
    have hmode' : (l.behind before).mode = .double := hmode
    simp only [step, hmode, hmode']
    split
    · rfl
    split
    · rfl
    split
    · rfl
    · rfl
  | doubleEscaped =>
    have hmode' : (l.behind before).mode = .doubleEscaped := hmode
    simp only [step, hmode, hmode']
    split
    · rfl
    split
    · rfl
    · rfl

theorem run_behind {l l' : Lexer} {text : List Char} (h : run l text = some l') :
    run (l.behind before) text = some (l'.behind before) := by
  induction text generalizing l with
  | nil =>
    cases h
    rfl
  | cons c text ih =>
    obtain ⟨next, hstep, hnext⟩ := Option.bind_eq_some_iff.mp h
    have hbehind : step (l.behind before) c = some (next.behind before) := by
      rw [step_behind, hstep]
      rfl
    rw [run, hbehind]
    exact ih hnext

end Before

theorem run_ofList {text : List Char} {read : Option Lexer} (h : run l text = read) :
    run l (String.ofList text).toList = read := by
  rw [String.toList_ofList]
  exact h

end Steps

section Quoting

variable {l : Lexer}

theorem run_cons_of_step {l' : Lexer} {c : Char} (h : step l c = some l') (after : List Char) :
    run l (c :: after) = run l' after := by
  rw [run, h]
  rfl

-- A quote in a value closes the quotation, stands for itself behind a backslash and opens it again.
theorem run_escapeQuote (w after : List Char) (words : Command) (commands : List Command)
    (c : Char) :
    run ⟨.single, some w, words, commands⟩ (escapeQuote c ++ after) =
      run ⟨.single, some (w ++ [c]), words, commands⟩ after := by
  by_cases hc : c = '\''
  · subst hc
    have hclosed : step ⟨.single, some w, words, commands⟩ '\'' =
        some ⟨.plain, some w, words, commands⟩ := rfl
    have hescaped : step ⟨.plain, some w, words, commands⟩ '\\' =
        some ⟨.escaped, some w, words, commands⟩ := rfl
    have hpushed : step ⟨.escaped, some w, words, commands⟩ '\'' =
        some ⟨.plain, some (w ++ ['\'']), words, commands⟩ := rfl
    have hreopened : step ⟨.plain, some (w ++ ['\'']), words, commands⟩ '\'' =
        some ⟨.single, some (w ++ ['\''] ++ []), words, commands⟩ := rfl
    rw [List.append_nil] at hreopened
    rw [escapeQuote, if_pos rfl]
    exact (run_cons_of_step hclosed _).trans <| (run_cons_of_step hescaped _).trans <|
      (run_cons_of_step hpushed _).trans (run_cons_of_step hreopened _)
  · have hpushed : step ⟨.single, some w, words, commands⟩ c =
        some ⟨.single, some (w ++ [c]), words, commands⟩ := if_neg hc
    rw [escapeQuote, if_neg hc]
    exact run_cons_of_step hpushed after

theorem run_single (w value after : List Char) (words : Command) (commands : List Command) :
    run ⟨.single, some w, words, commands⟩ (value.flatMap escapeQuote ++ '\'' :: after) =
      run ⟨.plain, some (w ++ value), words, commands⟩ after := by
  induction value generalizing w with
  | nil =>
    have hclosed : step ⟨.single, some w, words, commands⟩ '\'' =
        some ⟨.plain, some w, words, commands⟩ := rfl
    rw [List.append_nil]
    exact run_cons_of_step hclosed after
  | cons c value ih =>
    rw [List.flatMap_cons, List.append_assoc, run_escapeQuote, ih, ← List.append_cons]

theorem run_quote (word : Option Word) (words : Command) (commands : List Command)
    (value after : List Char) :
    run ⟨.plain, word, words, commands⟩ (quote value ++ after) =
      run ⟨.plain, some (word.getD [] ++ value), words, commands⟩ after := by
  have hquote : quote value ++ after = '\'' :: (value.flatMap escapeQuote ++ '\'' :: after) := by
    simp only [quote, List.cons_append, List.append_assoc, List.nil_append]
  have hopened : step ⟨.plain, word, words, commands⟩ '\'' =
      some ⟨.single, some (word.getD [] ++ []), words, commands⟩ := rfl
  rw [List.append_nil] at hopened
  rw [hquote, run_cons_of_step hopened]
  exact run_single (word.getD []) value after words commands

def isBare (c : Char) : Bool :=
  c ∉ ['\'', '"', '\\', '\n', ';', '#'] ∧ isBlank c = false ∧ isActive c = false

theorem step_bare {c : Char} (hc : isBare c = true) (word : Option Word) (words : Command)
    (commands : List Command) :
    step ⟨.plain, word, words, commands⟩ c =
      some ⟨.plain, some (word.getD [] ++ [c]), words, commands⟩ := by
  obtain ⟨hquoting, hblank, hactive⟩ := of_decide_eq_true hc
  simp only [List.mem_cons, List.not_mem_nil, or_false, not_or] at hquoting
  obtain ⟨h1, h2, h3, h4, h5, h6⟩ := hquoting
  simp only [step, h1, h2, h3, h4, h5, h6, hblank, hactive, if_false, false_and,
    Bool.false_eq_true, Lexer.push]

theorem run_bare {s : List Char} (hs : s.all isBare = true) (word : Word) (words : Command)
    (commands : List Command) (after : List Char) :
    run ⟨.plain, some word, words, commands⟩ (s ++ after) =
      run ⟨.plain, some (word ++ s), words, commands⟩ after := by
  induction s generalizing word with
  | nil => rw [List.append_nil, List.nil_append]
  | cons c s ih =>
    rw [List.all_cons, Bool.and_eq_true] at hs
    rw [List.cons_append, run_cons_of_step (step_bare hs.1 _ _ _), Option.getD_some, ih hs.2,
      ← List.append_cons]

theorem isBare_of_isDigit {c : Char} (h : c.isDigit = true) : isBare c = true := by
  have hquoting : (['\'', '"', '\\', '\n', ';', '#'].all fun d => d.isDigit = false) = true := by
    decide
  have hactive : (['$', '`', '&', '|', '<', '>', '(', ')', '*', '?', '[', '~', '!', '\x7b',
      '\x7d'].all fun d => d.isDigit = false) = true := by
    decide
  rw [List.all_eq_true] at hquoting hactive
  have hne : ∀ {d : Char}, d.isDigit = false → c ≠ d := by
    rintro d hd rfl
    exact Bool.false_ne_true (hd.symm.trans h)
  apply decide_eq_true
  refine ⟨fun hmem => hne (of_decide_eq_true (hquoting c hmem)) rfl, ?_, ?_⟩
  · exact decide_eq_false (not_or.mpr ⟨hne (by decide), hne (by decide)⟩)
  · exact decide_eq_false fun hmem => hne (of_decide_eq_true (hactive c hmem)) rfl

end Quoting

section DoubleQuoting

-- Between double quotes all of it stands for itself.
def Literal (s : List Char) : Prop :=
  (∀ c ∈ s, c ≠ '"' ∧ isExpanded c = false) ∧
    s.IsChain fun c d => c = '\\' → d ≠ '\\' ∧ d ≠ '\n'

-- A backslash at the end waits for what it is in front of.
def settled (s : List Char) : List Char := if s.getLast? = some '\\' then s.dropLast else s

variable {s s' : List Char}

theorem Literal.start (h : Literal s') (hs : s <+: s') : Literal s := by
  obtain ⟨rest, rfl⟩ := hs
  exact ⟨fun c hc => h.1 c (List.mem_append_left _ hc), h.2.left_of_append⟩

theorem head?_escapeQuote (c : Char) (s : List Char) : (escapeQuote c ++ s).head? = some c := by
  by_cases hc : c = '\''
  · subst hc
    rfl
  · rw [escapeQuote, if_neg hc]
    rfl

theorem head?_flatMap_escapeQuote (s : List Char) :
    (s.flatMap escapeQuote).head? = s.head? := by
  cases s with
  | nil => rfl
  | cons c s => exact head?_escapeQuote c _

theorem Literal.escaped (h : Literal s) : Literal (s.flatMap escapeQuote) := by
  constructor
  · intro c hc
    obtain ⟨d, hd, hcd⟩ := List.mem_flatMap.mp hc
    by_cases hquote : d = '\''
    · have hall : (['\'', '\\', '\'', '\''].all fun c => c ≠ '"' ∧ isExpanded c = false) = true := by
        decide
      rw [escapeQuote, if_pos hquote] at hcd
      exact of_decide_eq_true (List.all_eq_true.mp hall c hcd)
    · rw [escapeQuote, if_neg hquote] at hcd
      rw [List.mem_singleton.mp hcd]
      exact h.1 d hd
  · have hchain := h.2
    clear h
    induction s with
    | nil => exact .nil
    | cons c s ih =>
      obtain ⟨hhead, htail⟩ := List.isChain_cons.mp hchain
      have hjoined : ∀ d ∈ (s.flatMap escapeQuote).head?, c = '\\' → d ≠ '\\' ∧ d ≠ '\n' := by
        rw [head?_flatMap_escapeQuote]
        exact hhead
      rw [List.flatMap_cons]
      by_cases hquote : c = '\''
      · subst hquote
        refine List.IsChain.append (by decide) (ih htail) ?_
        intro x hx y hy hback
        subst hback
        cases hx
      · rw [escapeQuote, if_neg hquote]
        exact (ih htail).cons hjoined

theorem literal_nil : Literal [] := ⟨fun _ hc => absurd hc List.not_mem_nil, .nil⟩

theorem settled_concat_backslash (s : List Char) : settled (s ++ ['\\']) = s := by
  rw [settled, List.getLast?_concat, if_pos rfl, List.dropLast_concat]

theorem settled_concat {c : Char} (hc : c ≠ '\\') (s : List Char) :
    settled (s ++ [c]) = s ++ [c] := by
  rw [settled, List.getLast?_concat, if_neg fun h => hc (Option.some.inj h)]

-- Between double quotes, what is literal is read as it stands.
theorem run_literal (h : Literal s) (w : Word) (words : Command) (commands : List Command) :
    ∃ mode, run ⟨.double, some w, words, commands⟩ s =
        some ⟨mode, some (w ++ settled s), words, commands⟩ ∧
      (mode = .double ∧ settled s = s ∨ mode = .doubleEscaped ∧ settled s ++ ['\\'] = s) := by
  induction s using List.reverseRecOn with
  | nil =>
    refine ⟨.double, ?_, .inl ⟨rfl, rfl⟩⟩
    rw [settled, List.getLast?_nil, if_neg (Option.some_ne_none _).symm, List.append_nil]
    rfl
  | append_singleton s c ih =>
    obtain ⟨mode, hrun, hmode⟩ := ih (h.start (List.prefix_append s [c]))
    obtain ⟨hquote, hexpanded⟩ := h.1 c List.mem_concat_self
    have hnext : ∀ l', step ⟨mode, some (w ++ settled s), words, commands⟩ c = some l' →
        run ⟨.double, some w, words, commands⟩ (s ++ [c]) = some l' := by
      intro l' hstep
      rw [run_append_of_run hrun, run, hstep]
      rfl
    rcases hmode with ⟨rfl, hsettled⟩ | ⟨rfl, hwaits⟩
    · rw [hsettled] at hnext
      by_cases hback : c = '\\'
      · subst hback
        rw [settled_concat_backslash]
        exact ⟨.doubleEscaped, hnext _ rfl, .inr ⟨rfl, rfl⟩⟩
      · rw [settled_concat hback]
        refine ⟨.double, hnext _ ?_, .inl ⟨rfl, rfl⟩⟩
        simp only [step, hquote, hback, hexpanded, if_false, Lexer.push, Option.getD_some,
          List.append_assoc, Bool.false_eq_true]
    · have hpair : c ≠ '\\' ∧ c ≠ '\n' := by
        have hchain := h.2
        rw [← hwaits, List.append_assoc] at hchain
        exact (List.isChain_append_cons_cons.mp hchain).2.1 rfl
      rw [settled_concat hpair.1]
      refine ⟨.double, hnext _ ?_, .inl ⟨rfl, rfl⟩⟩
      have hword : w ++ settled s ++ ['\\', c] = w ++ (s ++ [c]) := by
        have hjoined := congrArg (fun x => w ++ (x ++ [c])) hwaits
        simpa only [List.append_assoc, List.singleton_append] using hjoined
      simp only [step, hpair.1, hpair.2, hquote, hexpanded, if_false, Lexer.push, Option.getD_some,
        or_self, Bool.false_eq_true, hword]

theorem settled_of_quote (value : List Char) : settled (quote value) = quote value :=
  settled_concat (by decide) _

theorem length_le_escaped (s : List Char) : s.length ≤ (s.flatMap escapeQuote).length := by
  induction s with
  | nil => exact Nat.le_refl 0
  | cons c s ih =>
    have hc : 1 ≤ (escapeQuote c).length := by
      unfold escapeQuote
      split
      · decide
      · exact Nat.le_refl 1
    rw [List.flatMap_cons, List.length_append, List.length_cons]
    omega

-- What a prefix of a quotation is quoted as is longer than the prefix itself.
theorem length_le_settled {value : List Char} (hs : s <+: quote value) :
    s.length ≤ ((settled s).flatMap escapeQuote).length := by
  by_cases hlast : s.getLast? = some '\\'
  · rw [settled, if_pos hlast]
    cases s with
    | nil => cases hlast
    | cons c s =>
      obtain ⟨rfl, -⟩ := List.cons_prefix_cons.mp hs
      cases s with
      | nil => cases hlast
      | cons d s =>
        have hlength := length_le_escaped (d :: s).dropLast
        rw [List.length_dropLast, List.length_cons] at hlength
        rw [List.dropLast_cons_cons, List.flatMap_cons, List.length_append]
        change s.length + 1 + 1 ≤ 4 + _
        omega
  · rw [settled, if_neg hlast]
    exact length_le_escaped s

theorem settled_begins (s : List Char) : settled s <+: s := by
  unfold settled
  split
  · exact List.dropLast_prefix s
  · exact List.prefix_rfl

theorem quotation_begins {value : List Char} (hs : s <+: value) :
    '\'' :: s.flatMap escapeQuote <+: quote value := by
  obtain ⟨rest, rfl⟩ := hs
  refine ⟨rest.flatMap escapeQuote ++ ['\''], ?_⟩
  rw [quote, List.flatMap_append, List.cons_append, List.cons_append, List.append_assoc]

theorem Literal.opened (h : Literal s) : Literal ('\'' :: s.flatMap escapeQuote) := by
  have hescaped := h.escaped
  constructor
  · intro c hc
    rcases List.mem_cons.mp hc with rfl | hmem
    · decide
    · exact hescaped.1 c hmem
  · refine hescaped.2.cons ?_
    intro d hd hback
    cases hback

theorem Literal.quoted (h : Literal s) : Literal (quote s) := by
  have hopened := h.opened
  constructor
  · intro c hc
    rcases List.mem_append.mp hc with hmem | hmem
    · exact hopened.1 c hmem
    · rw [List.mem_singleton.mp hmem]
      decide
  · refine hopened.2.append (.singleton '\'') ?_
    intro c hc d hd hback
    cases hd
    decide

-- A quotation that is literal between double quotes is longer than what it quotes, so it cannot be
-- read as that: what has been read of it always quotes more of it.
theorem not_literally_quoted (value : List Char) :
    ¬∀ s, s <+: quote value → Literal s → settled s <+: value := by
  intro hread
  have hliteral : ∀ n, Literal ((quote value).take n) := by
    intro n
    induction n with
    | zero => exact literal_nil
    | succ n ih =>
      have hbegins := List.take_prefix n (quote value)
      have hquotation := quotation_begins (hread _ hbegins ih)
      by_cases hn : n < (quote value).length
      · refine (ih.start (settled_begins _)).opened.start ?_
        refine List.prefix_of_prefix_length_le (List.take_prefix ..) hquotation ?_
        have hlonger := length_le_settled hbegins
        rw [List.length_take_of_le (Nat.le_of_lt hn)] at hlonger
        rw [List.length_take_of_le hn, List.length_cons]
        omega
      · rw [List.take_of_length_le (by omega)] at ih ⊢
        exact ih
  have hwhole := hliteral (quote value).length
  rw [List.take_length] at hwhole
  have hlonger := (hread _ List.prefix_rfl hwhole).length_le
  have hvalue := length_le_escaped value
  rw [settled_of_quote, quote, List.length_append, List.length_cons] at hlonger
  omega

end DoubleQuoting

section Lines

-- Lines that are complete commands, one after another.
def Reads (text : List Char) (commands : List Command) : Prop :=
  ∀ before, run ⟨.plain, none, [], before⟩ text = some ⟨.plain, none, [], before ++ commands⟩

variable {text text' : List Char} {commands commands' : List Command}

theorem Reads.nil : Reads [] [] := by
  intro before
  rw [List.append_nil]
  rfl

theorem Reads.append (h : Reads text commands) (h' : Reads text' commands') :
    Reads (text ++ text') (commands ++ commands') := by
  intro before
  rw [run_append_of_run (h before), h', List.append_assoc]

theorem run_after {mode : Mode} {word : Option Word} {words : Command} (before : List Command)
    (h : run .initial text = some ⟨mode, word, words, commands⟩) :
    run ⟨.plain, none, [], before⟩ text = some ⟨mode, word, words, before ++ commands⟩ := by
  have hbehind := run_behind before h
  rwa [Lexer.behind, Lexer.initial, List.append_nil] at hbehind

theorem Reads.of_run (h : run .initial text = some ⟨.plain, none, [], commands⟩) :
    Reads text commands := by
  intro before
  exact run_after before h

theorem run_newline (word : Word) (words : Command) (before : List Command)
    (after : List Char) :
    run ⟨.plain, some word, words, before⟩ ('\n' :: after) =
      run ⟨.plain, none, [], before ++ [words ++ [word]]⟩ after := by
  have hended : step ⟨.plain, some word, words, before⟩ '\n' =
      some (Lexer.endCommand ⟨.plain, some word, words, before⟩) := rfl
  have hsome : words ++ [word] ≠ [] := List.append_ne_nil_of_right_ne_nil _ (List.cons_ne_nil word [])
  rw [run_cons_of_step hended]
  exact congrArg (fun commands => run ⟨.plain, none, [], commands⟩ after) (if_neg hsome)

theorem run_closing (word : Word) (words : Command) (before : List Command) (after : List Char) :
    run ⟨.double, some word, words, before⟩ ('"' :: after) =
      run ⟨.plain, some word, words, before⟩ after := by
  have hclosed : step ⟨.double, some word, words, before⟩ '"' =
      some ⟨.plain, some word, words, before⟩ := rfl
  exact run_cons_of_step hclosed after

theorem run_blank (word : Word) (words : Command) (before : List Command) (after : List Char) :
    run ⟨.plain, some word, words, before⟩ (' ' :: after) =
      run ⟨.plain, none, words ++ [word], before⟩ after := by
  have hended : step ⟨.plain, some word, words, before⟩ ' ' =
      some (Lexer.endWord ⟨.plain, some word, words, before⟩) := rfl
  exact run_cons_of_step hended after

theorem run_bare_words {ws : List Word} (h : ∀ w ∈ ws, w ≠ [] ∧ w.all isBare = true) (hne : ws ≠ [])
    (words : Command) (before : List Command) (after : List Char) :
    run ⟨.plain, none, words, before⟩ ([' '].intercalate ws ++ '\n' :: after) =
      run ⟨.plain, none, [], before ++ [words ++ ws]⟩ after := by
  have hword : ∀ {w : Word} (words : Command) (after : List Char), w ≠ [] ∧ w.all isBare = true →
      run ⟨.plain, none, words, before⟩ (w ++ after) =
        run ⟨.plain, some w, words, before⟩ after := by
    rintro (_ | ⟨c, w⟩) words after ⟨hempty, hbare⟩
    · exact absurd rfl hempty
    · rw [List.all_cons, Bool.and_eq_true] at hbare
      rw [List.cons_append, run_cons_of_step (step_bare hbare.1 _ _ _), run_bare hbare.2]
      rfl
  induction ws generalizing words with
  | nil => exact absurd rfl hne
  | cons w ws ih =>
    obtain ⟨hw, hws⟩ := List.forall_mem_cons.mp h
    cases ws with
    | nil => rw [List.intercalate_singleton, hword _ _ hw, run_newline]
    | cons v ws =>
      rw [List.intercalate_cons_cons, List.append_assoc, List.append_assoc, hword _ _ hw,
        List.singleton_append, run_blank, ih hws (List.cons_ne_nil v ws), List.append_assoc]
      rfl

theorem run_comment {s : List Char} (h : '\n' ∉ s) (before : List Command) (after : List Char) :
    run ⟨.comment, none, [], before⟩ (s ++ '\n' :: after) =
      run ⟨.plain, none, [], before⟩ after := by
  induction s with
  | nil => rfl
  | cons c s ih =>
    rw [List.mem_cons, not_or] at h
    have hstays : step ⟨.comment, none, [], before⟩ c = some ⟨.comment, none, [], before⟩ :=
      if_neg (Ne.symm h.1)
    rw [List.cons_append, run_cons_of_step hstays, ih h.2]

def lineCommands (line : List Char) : List Command :=
  if line = [] ∨ line.head? = some '#' then [] else [line.splitOn ' ']

-- A line without anything, a comment, or words that stand for themselves.
def IsSimple (line : List Char) : Prop :=
  line = [] ∨ line.head? = some '#' ∧ '\n' ∉ line ∨
    line.head? ≠ some '#' ∧ ∀ word ∈ line.splitOn ' ', word ≠ [] ∧ word.all isBare = true

instance (line : List Char) : Decidable (IsSimple line) := by
  unfold IsSimple
  infer_instance

theorem Reads.simple {line : List Char} (h : IsSimple line) :
    Reads (line ++ ['\n']) (lineCommands line) := by
  intro before
  rcases h with rfl | ⟨hhead, hline⟩ | ⟨hhead, hwords⟩
  · rw [lineCommands, if_pos (.inl rfl), List.append_nil]
    rfl
  · obtain ⟨s, rfl⟩ := List.head?_eq_some_iff.mp hhead
    rw [lineCommands, if_pos (.inr hhead), List.append_nil]
    exact run_comment (fun hmem => hline (List.mem_cons_of_mem _ hmem)) before []
  · have hempty : line ≠ [] := by
      rintro rfl
      exact (hwords [] List.mem_cons_self).1 rfl
    have hne : line.splitOn ' ' ≠ [] := by
      intro hnil
      have hline : [' '].intercalate (line.splitOn ' ') = line := List.intercalate_splitOn ' '
      rw [hnil] at hline
      exact hempty hline.symm
    rw [lineCommands, if_neg (not_or.mpr ⟨hempty, hhead⟩)]
    have hline := run_bare_words hwords hne [] before []
    rw [List.intercalate_splitOn] at hline
    exact hline

theorem Reads.lines {lines : List (List Char)} (h : ∀ line ∈ lines, IsSimple line) :
    Reads (lines.flatMap (· ++ ['\n'])) (lines.flatMap lineCommands) := by
  induction lines with
  | nil => exact .nil
  | cons line lines ih =>
    obtain ⟨hline, hlines⟩ := List.forall_mem_cons.mp h
    exact (Reads.simple hline).append (ih hlines)

theorem intercalate_concat (lines : List (List Char)) (last : List Char) :
    ['\n'].intercalate (lines ++ [last]) = lines.flatMap (· ++ ['\n']) ++ last := by
  induction lines with
  | nil => rw [List.nil_append, List.intercalate_singleton, List.flatMap_nil, List.nil_append]
  | cons line lines ih =>
    rw [List.cons_append, List.intercalate_cons_of_ne_nil (List.concat_ne_nil last lines), ih,
      List.flatMap_cons, ← List.append_assoc]

theorem run_intercalate {lines : List (List Char)} {last : List Char} {l : Lexer}
    (h : ∀ line ∈ lines, IsSimple line) (hlast : run .initial last = some l) :
    run .initial (['\n'].intercalate (lines ++ [last])) =
      some (l.behind (lines.flatMap lineCommands)) := by
  have hlines : run .initial (lines.flatMap (· ++ ['\n'])) =
      some ⟨.plain, none, [], lines.flatMap lineCommands⟩ := Reads.lines h []
  rw [intercalate_concat, run_append_of_run hlines]
  have hbehind := run_behind (lines.flatMap lineCommands) hlast
  rwa [Lexer.behind, Lexer.initial, List.append_nil] at hbehind

theorem Reads.evaluates_iff {read : List Command} (h : Reads text commands) :
    Evaluates text read ↔ read = commands :=
  Shell.evaluates_iff (h []) rfl

end Lines

-- The output of the utility for a format of `%s`, of newlines and of what stands for itself.
def printf : List Char → List Word → Option (List Char)
  | [], [] => some []
  | [], _ :: _ => none
  | '%' :: 's' :: format, word :: words => (printf format words).map (word ++ ·)
  | '%' :: _, _ => none
  | '\\' :: 'n' :: format, words => (printf format words).map ('\n' :: ·)
  | '\\' :: _, _ => none
  | c :: format, words => (printf format words).map (c :: ·)

end Glider.Lib.Shell

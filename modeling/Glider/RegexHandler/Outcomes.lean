import Glider.RegexHandler.Commands

namespace Glider

open Lib
open Bytes (ascii)
open Decimal (isDigit)
open Lines (lines unlines)
open Spans (Ordered extract_append_drop)

theorem RegexCommand.process_of_groups {self : RegexCommand} {engine : RegexEngine}
    {source regexCommand : Bytes} {groups : self.Groups}
    (h : self.command_regex regexCommand = some groups) :
    self.process engine source regexCommand = self.run engine source groups := by
  rw [process, h]

namespace ReplaceCommand

open RegexCommand (Error Result elements Closed)

-- The number that decimal digits denote.
def valueOf (digits : Bytes) : ℕ := digits.foldl (fun n d => 10 * n + (d.toNat - 48)) 0

def indexed (target replacement digits : Bytes) : Bytes :=
  ascii "s/" ++ target ++ [47] ++ replacement ++ [47] ++ digits

-- The command has an outcome, which is a success exactly if there is a match of the index, and then
-- that match is replaced.
def ReplacesIndexed (engine : RegexEngine) (source target replacement digits : Bytes)
    (spans : List (ℕ × ℕ)) : Prop :=
  ∃ result, ReplaceCommand.process engine source (indexed target replacement digits) = some result ∧
    ((∃ text, result = .ok text) ↔ 1 ≤ valueOf digits ∧ valueOf digits ≤ spans.length) ∧
    ∀ first last, 1 ≤ valueOf digits → spans[valueOf digits - 1]? = some (first, last) →
      result = .ok (source.take first ++ replacement ++ source.drop last)

section Options

variable {digits : Bytes}

theorem toNat_of_isDigit {d : UInt8} (h : isDigit d = true) : 48 ≤ d.toNat ∧ d.toNat ≤ 57 := by
  have hrange := of_decide_eq_true h
  exact ⟨UInt8.le_iff_toNat_le.mp hrange.1, UInt8.le_iff_toNat_le.mp hrange.2⟩

theorem le_foldl (value : ℕ) (digits : Bytes) :
    value ≤ digits.foldl (fun n d => 10 * n + (d.toNat - 48)) value := by
  induction digits generalizing value with
  | nil => exact Nat.le_refl _
  | cons d rest ih =>
    have hstep : value ≤ 10 * value + (d.toNat - 48) := by omega
    exact Nat.le_trans hstep (ih _)

-- The digits are taken one by one, and no number on the way is greater than the last one.
theorem foldlM_digits (hdigits : ∀ d ∈ digits, isDigit d = true) (value : ℕ)
    (hvalue : value < 2 ^ 31) :
    digits.foldlM (fun (value : ℤ) d => checkedInt (value * 10 + (d.toNat - 48))) (value : ℤ) =
      checkedInt ((digits.foldl (fun n d => 10 * n + (d.toNat - 48)) value : ℕ) : ℤ) := by
  induction digits generalizing value with
  | nil => exact (checkedInt_of_lt (by omega) (by exact_mod_cast hvalue)).symm
  | cons d rest ih =>
    obtain ⟨hd, hrest⟩ := List.forall_mem_cons.mp hdigits
    have hrange := toNat_of_isDigit hd
    have hnext : (value : ℤ) * 10 + (d.toNat - 48) = ((10 * value + (d.toNat - 48) : ℕ) : ℤ) := by
      omega
    rw [List.foldlM_cons, List.foldl_cons, hnext]
    by_cases hfits : 10 * value + (d.toNat - 48) < 2 ^ 31
    · rw [checkedInt_of_lt (by omega) (by exact_mod_cast hfits)]
      exact ih hrest _ hfits
    · have hle := le_foldl (10 * value + (d.toNat - 48)) rest
      rw [checkedInt_of_le (by omega), checkedInt_of_le (by omega)]
      rfl

theorem readIndex_eq (hdigits : ∀ d ∈ digits, isDigit d = true) :
    readIndex digits = checkedInt (valueOf digits) :=
  foldlM_digits hdigits 0 (by decide)

theorem scan_nil (o : Options) : scan [] o = some (.ok o) := by
  rw [scan]

theorem scan_digits (hne : digits ≠ []) (hdigits : ∀ d ∈ digits, isDigit d = true) :
    scan digits ⟨false, false, none⟩ =
      (checkedInt (valueOf digits)).map fun n => .ok ⟨false, false, some n⟩ := by
  obtain ⟨d, rest, rfl⟩ := List.exists_cons_of_ne_nil hne
  obtain ⟨hd, hrest⟩ := List.forall_mem_cons.mp hdigits
  have hrange := toNat_of_isDigit hd
  have hg : d ≠ 103 := by rintro rfl; exact absurd hrange.2 (by decide)
  have hi : d ≠ 105 := by rintro rfl; exact absurd hrange.2 (by decide)
  have htake : rest.takeWhile isDigit = rest := List.takeWhile_eq_self_iff.mpr hrest
  have hdrop : rest.dropWhile isDigit = [] := List.dropWhile_eq_nil_iff.mpr hrest
  rw [scan, if_neg hg, if_neg hi, if_pos hd, htake, hdrop, readIndex_eq hdigits]
  cases checkedInt (valueOf (d :: rest) : ℤ) with
  | none => rfl
  | some n => exact scan_nil _

end Options

section Matches

variable {source replacement : Bytes} {replaceIndex : ℤ} {s : Replacing} {spans : List (ℕ × ℕ)}

-- What the result will be if nothing else is replaced.
def Replacing.text (s : Replacing) (source : Bytes) : Bytes := s.result ++ source.drop s.last_pos

theorem replaceNext_of_ne {first last : ℕ} (hlo : 0 ≤ s.count) (hhi : s.count + 1 < 2 ^ 31)
    (hne : s.count + 1 ≠ replaceIndex) :
    replaceNext source replacement replaceIndex s (first, last) =
      some ⟨s.count + 1, s.result ++ source.extract s.last_pos first ++ source.extract first last,
        last, s.replaced⟩ := by
  rw [replaceNext, checkedInt_of_lt (by omega) hhi, Option.bind_eq_bind, Option.bind_some,
    if_neg hne]
  rfl

theorem replaceNext_of_eq {first last : ℕ} (hlo : 0 ≤ s.count) (hhi : s.count + 1 < 2 ^ 31)
    (heq : s.count + 1 = replaceIndex) :
    replaceNext source replacement replaceIndex s (first, last) = some
      ⟨s.count + 1, s.result ++ source.extract s.last_pos first ++ replacement, last, true⟩ := by
  rw [replaceNext, checkedInt_of_lt (by omega) hhi, Option.bind_eq_bind, Option.bind_some,
    if_pos heq]
  rfl

-- More matches than an `int` can count.
theorem foldlM_of_le (hlo : 0 ≤ s.count) (hbefore : s.count < 2 ^ 31)
    (hmany : 2 ^ 31 ≤ s.count + spans.length) :
    spans.foldlM (replaceNext source replacement replaceIndex) s = none := by
  induction spans generalizing s with
  | nil =>
    rw [List.length_nil] at hmany
    omega
  | cons it rest ih =>
    obtain ⟨first, last⟩ := it
    rw [List.length_cons] at hmany
    rw [List.foldlM_cons]
    by_cases hhi : s.count + 1 < 2 ^ 31
    · by_cases heq : s.count + 1 = replaceIndex
      · rw [replaceNext_of_eq hlo hhi heq]
        exact ih (by simp only; omega) hhi (by simp only; omega)
      · rw [replaceNext_of_ne hlo hhi heq]
        exact ih (by simp only; omega) hhi (by simp only; omega)
    · rw [replaceNext, checkedInt_of_le (by omega)]
      rfl

-- None of the matches is the one of the index.
theorem foldlM_of_ne (source replacement : Bytes) (replaceIndex : ℤ) (s : Replacing)
    (spans : List (ℕ × ℕ)) (hlo : 0 ≤ s.count) (hhi : s.count + spans.length < 2 ^ 31)
    (hne : replaceIndex ≤ s.count ∨ s.count + spans.length < replaceIndex)
    (hordered : Ordered source.length s.last_pos spans) :
    ∃ t, spans.foldlM (replaceNext source replacement replaceIndex) s = some t ∧
      t.count = s.count + spans.length ∧ t.replaced = s.replaced ∧ t.text source = s.text source ∧
      ∀ rest, Ordered source.length s.last_pos (spans ++ rest) →
        Ordered source.length t.last_pos rest := by
  induction spans generalizing s with
  | nil => exact ⟨s, rfl, by simp, rfl, rfl, fun _ h => h⟩
  | cons it rest ih =>
    obtain ⟨first, last⟩ := it
    obtain ⟨hfirst, hlast, hrest⟩ := hordered
    rw [List.length_cons, Nat.cast_succ] at hhi hne
    obtain ⟨t, ht, hcount, hreplaced, htext, hbehind⟩ :=
      ih ⟨s.count + 1, _, last, s.replaced⟩ (by simp only; omega) (by simp only; omega)
        (by simp only; omega) hrest
    refine ⟨t, ?_, ?_, hreplaced, htext.trans ?_, fun more h => hbehind more h.2.2⟩
    · rw [List.foldlM_cons, replaceNext_of_ne hlo (by omega) (by omega)]
      exact ht
    · have hcount : t.count = s.count + 1 + rest.length := hcount
      rw [hcount, List.length_cons, Nat.cast_succ]
      omega
    · simp only [Replacing.text]
      rw [List.append_assoc, List.append_assoc, extract_append_drop source hlast,
        extract_append_drop source hfirst]

variable {regex : Regex}

theorem replaceAt_of_le (h : 2 ^ 31 ≤ (regex.spans source).length) :
    replaceAt regex source replacement replaceIndex = none := by
  have hmany : (2 : ℤ) ^ 31 ≤ 0 + (regex.spans source).length := by
    rw [Int.zero_add]
    exact_mod_cast h
  rw [replaceAt, foldlM_of_le (Int.le_refl 0) (by norm_num) hmany]
  rfl

theorem replaceAt_of_ne (h : (regex.spans source).length < 2 ^ 31) {n : ℕ}
    (hn : n = 0 ∨ (regex.spans source).length < n) :
    replaceAt regex source replacement n = some (.error .InvalidRegexMatchIndex) := by
  obtain ⟨t, ht, -, hreplaced, -⟩ := foldlM_of_ne source replacement n ⟨0, [], 0, false⟩
    (regex.spans source) (Int.le_refl 0) (by simp only; omega) (by simp only; omega)
    (regex.ordered source)
  rw [replaceAt, ht, Option.bind_eq_bind, Option.bind_some, if_neg (by simp [hreplaced])]
  rfl

theorem replaceAt_of_span (replacement : Bytes) (h : (regex.spans source).length < 2 ^ 31)
    {i first last : ℕ} (hi : (regex.spans source)[i]? = some (first, last)) :
    replaceAt regex source replacement ((i + 1 : ℕ) : ℤ) =
      some (.ok (source.take first ++ replacement ++ source.drop last)) := by
  obtain ⟨hlt, hget⟩ := List.getElem?_eq_some_iff.mp hi
  have hsplit : (regex.spans source).take i ++ (first, last) :: (regex.spans source).drop (i + 1) =
      regex.spans source := by
    rw [← hget, ← List.drop_eq_getElem_cons hlt, List.take_append_drop]
  generalize hbefore : (regex.spans source).take i = before at hsplit
  generalize (regex.spans source).drop (i + 1) = after at hsplit
  have hlength : before.length = i := by
    rw [← hbefore, List.length_take]
    exact Nat.min_eq_left (Nat.le_of_lt hlt)
  have hordered := regex.ordered source
  rw [← hsplit] at h hordered
  rw [List.length_append, List.length_cons] at h
  -- The matches before it, the match, and the matches after it.
  obtain ⟨t, ht, hcount, -, htext, hbehind⟩ := foldlM_of_ne source replacement ((i + 1 : ℕ) : ℤ)
    ⟨0, [], 0, false⟩ before (Int.le_refl 0) (by simp only; omega) (by simp only; omega)
    hordered.left
  have hcount : t.count = i := by
    rw [hcount, hlength]
    exact Int.zero_add _
  obtain ⟨hfirst, hlast, hafter⟩ := hbehind _ hordered
  obtain ⟨u, hu, -, hreplaced, hrest, -⟩ := foldlM_of_ne source replacement ((i + 1 : ℕ) : ℤ)
    ⟨t.count + 1, t.result ++ source.extract t.last_pos first ++ replacement, last, true⟩ after
    (by simp only; omega) (by simp only; omega) (by simp only; omega) hafter
  have hnext : replaceNext source replacement ((i + 1 : ℕ) : ℤ) t (first, last) =
      some ⟨t.count + 1, t.result ++ source.extract t.last_pos first ++ replacement, last, true⟩ :=
    replaceNext_of_eq (by omega) (by omega) (by omega)
  have hfold : (regex.spans source).foldlM (replaceNext source replacement ((i + 1 : ℕ) : ℤ))
      ⟨0, [], 0, false⟩ = some u := by
    rw [← hsplit, List.foldlM_append, ht, Option.bind_eq_bind, Option.bind_some, List.foldlM_cons,
      hnext, Option.bind_eq_bind, Option.bind_some, hu]
  have hbeforeText : t.result ++ source.extract t.last_pos first = source.take first := by
    have hwhole : t.result ++ source.extract t.last_pos first ++ source.drop first =
        source.take first ++ source.drop first := by
      rw [List.append_assoc, extract_append_drop source hfirst, List.take_append_drop]
      exact htext
    exact List.append_cancel_right hwhole
  have hu : u.result ++ source.drop u.last_pos =
      source.take first ++ replacement ++ source.drop last := by
    rw [← hbeforeText]
    exact hrest
  rw [replaceAt, hfold, Option.bind_eq_bind, Option.bind_some, if_pos hreplaced, hu]
  rfl

end Matches

section Commands

variable {engine : RegexEngine} {regex : Regex} {source target replacement digits : Bytes}

theorem command_regex_indexed (htarget : Closed target)
    (hreplacement : ∀ b ∈ replacement, b ≠ 47 ∧ b ≠ 92) (hdigits : ∀ d ∈ digits, isDigit d = true) :
    command_regex (indexed target replacement digits) = some ⟨target, replacement, digits⟩ := by
  have hprefix : ascii "s/" <+: indexed target replacement digits :=
    ⟨target ++ [47] ++ replacement ++ [47] ++ digits, by simp [indexed]⟩
  have hrest : (indexed target replacement digits).drop 2 =
      target ++ 47 :: (replacement ++ 47 :: digits) := by
    have hlength : (ascii "s/").length = 2 := by decide
    simp [indexed, ← hlength]
  have hplain := elements_of_plain hreplacement
  have hoptions : digits.any RegexCommand.isLineEnd = false := by
    rw [List.any_eq_false]
    intro d hd hline
    have hrange := toNat_of_isDigit (hdigits d hd)
    obtain rfl | rfl := of_decide_eq_true hline
    · exact absurd hrange.1 (by decide)
    · exact absurd hrange.1 (by decide)
  rw [command_regex, if_pos hprefix, hrest, elements_append htarget.2]
  simp only [elements_append (congrArg Prod.snd hplain), List.head?_cons, if_true, List.tail_cons]
  rw [if_neg (by simp [htarget.1, hoptions])]

theorem process_indexed (source : Bytes) (regex : Regex) (htarget : Closed target)
    (hreplacement : ∀ b ∈ replacement, b ≠ 47 ∧ b ≠ 92) (hne : digits ≠ [])
    (hdigits : ∀ d ∈ digits, isDigit d = true) (hcompile : engine.compile target false = some regex) :
    ReplaceCommand.process engine source (indexed target replacement digits) =
      (checkedInt (valueOf digits)).bind (replaceAt regex source replacement) := by
  have hprocess : ReplaceCommand.process engine source (indexed target replacement digits) =
      run engine source ⟨target, replacement, digits⟩ :=
    RegexCommand.process_of_groups (command_regex_indexed htarget hreplacement hdigits)
  rw [hprocess, run, scan_digits hne hdigits]
  cases checkedInt (valueOf digits : ℤ) with
  | none => rfl
  | some n => simp [hcompile]

-- The index and the number of matches have to fit an `int`.
theorem replacesIndexed_iff (htarget : Closed target)
    (hreplacement : ∀ b ∈ replacement, b ≠ 47 ∧ b ≠ 92) (hne : digits ≠ [])
    (hdigits : ∀ d ∈ digits, isDigit d = true) (hcompile : engine.compile target false = some regex) :
    ReplacesIndexed engine source target replacement digits (regex.spans source) ↔
      valueOf digits < 2 ^ 31 ∧ (regex.spans source).length < 2 ^ 31 := by
  have hprocess := process_indexed source regex htarget hreplacement hne hdigits hcompile
  constructor
  · rintro ⟨result, hresult, -⟩
    rw [hprocess] at hresult
    obtain ⟨n, hn, hreplace⟩ := Option.bind_eq_some_iff.mp hresult
    refine ⟨?_, ?_⟩
    · have hrange := (Option.ite_none_right_eq_some.mp hn).1.2
      exact_mod_cast hrange
    · by_contra hmany
      rw [replaceAt_of_le (Nat.le_of_not_lt hmany)] at hreplace
      cases hreplace
  · rintro ⟨hvalue, hmany⟩
    rw [checkedInt_of_lt (Int.natCast_nonneg _) (by exact_mod_cast hvalue),
      Option.bind_some] at hprocess
    by_cases hhit : 1 ≤ valueOf digits ∧ valueOf digits ≤ (regex.spans source).length
    · have hlt : valueOf digits - 1 < (regex.spans source).length := by omega
      obtain ⟨⟨first, last⟩, hget⟩ : ∃ it, (regex.spans source)[valueOf digits - 1]? = some it :=
        ⟨_, List.getElem?_eq_getElem hlt⟩
      have hreplace := replaceAt_of_span replacement hmany hget
      rw [Nat.sub_add_cancel hhit.1] at hreplace
      refine ⟨_, hprocess.trans hreplace, iff_of_true ⟨_, rfl⟩ hhit, fun _ _ _ hspan => ?_⟩
      obtain ⟨rfl, rfl⟩ := Prod.mk.inj (Option.some.inj (hget.symm.trans hspan))
      rfl
    · refine ⟨_, hprocess.trans (replaceAt_of_ne hmany (by omega)),
        iff_of_false (fun ⟨_, htext⟩ => nomatch htext) hhit, fun first last hpos hspan => ?_⟩
      have hlt := (List.getElem?_eq_some_iff.mp hspan).1
      omega

end Commands

end ReplaceCommand

theorem RegexCommand.process_single (engine : RegexEngine)
    (source regexCommand before after : Bytes) (make : Regex → Bytes → Bytes) :
    (single before after make).process engine source regexCommand =
      match group before after regexCommand with
      | none => some (.error .None)
      | some pattern =>
        match engine.compile pattern false with
        | none => some (.error .InvalidRegex)
        | some regex => some (.ok (make regex source)) := by
  unfold process single
  dsimp only
  cases group before after regexCommand with
  | none | some pattern => rfl

-- Both commands fail in one way, or each line of the source is in the output of one of them.
def Complementary (engine : RegexEngine) (source pattern : Bytes) : Prop :=
  let deleted := DeleteCommand.process engine source (ascii "/" ++ pattern ++ ascii "/d")
  let printed := PrintCommand.process engine source (ascii "/" ++ pattern ++ ascii "/p")
  (∃ e, deleted = some (.error e) ∧ printed = some (.error e)) ∨
    ∃ kept shown, deleted = some (.ok kept) ∧ printed = some (.ok shown) ∧
      Interleaved (lines kept) (lines shown) (lines source)

section LineCommands

open RegexCommand

variable {pattern : Bytes} {letter : UInt8}

-- What stands between the slashes ends where the text says that it does.
theorem elements_ne (hslash : letter ≠ 47) (hback : letter ≠ 92) (h : (elements pattern).2 ≠ []) :
    (elements (pattern ++ [47, letter])).2 ≠ [47, letter] := by
  fun_induction elements pattern with
  | case1 => exact absurd rfl h
  | case2 rest =>
    rw [List.cons_append, elements_slash]
    intro heq
    have hlength := congrArg List.length heq
    simp at hlength
  | case3 hslash' =>
    rw [List.singleton_append, elements_escape (by decide), elements_plain hslash hback]
    exact (List.cons_ne_nil _ _).symm
  | case4 c rest hline hslash' =>
    rw [List.cons_append, List.cons_append, elements_lineEnd hline]
    exact fun heq => absurd (List.cons.inj heq).1 (by decide)
  | case5 c rest hline hslash' ih =>
    rw [List.cons_append, List.cons_append, elements_escape (Bool.eq_false_iff.mpr hline)]
    exact ih h
  | case6 b rest hslash' hback' ih =>
    rw [List.cons_append, elements_plain hslash' hback']
    exact ih h

theorem group_eq (pattern : Bytes) {letter : UInt8} (hslash : letter ≠ 47) (hback : letter ≠ 92) :
    group (ascii "/") [47, letter] (ascii "/" ++ pattern ++ [47, letter]) =
      if Closed pattern then some pattern else none := by
  have hprefix : ascii "/" <+: ascii "/" ++ pattern ++ [47, letter] :=
    ⟨pattern ++ [47, letter], (List.append_assoc ..).symm⟩
  have hrest : (ascii "/" ++ pattern ++ [47, letter]).drop (ascii "/").length =
      pattern ++ [47, letter] := by
    rw [List.append_assoc, List.drop_left]
  rw [group, if_pos hprefix, hrest]
  by_cases hclosed : (elements pattern).2 = []
  · rw [elements_append hclosed]
    simp [Closed, hclosed]
  · have hne := elements_ne hslash hback hclosed
    simp [Closed, hclosed, hne]

theorem lines_kept (p : Bytes → Bool) (source : Bytes) :
    lines (unlines ((lines source).filter p)) = (lines source).filter p :=
  Lines.lines_unlines fun _ hmem => Lines.not_mem_of_mem_lines (List.mem_of_mem_filter hmem)

theorem complementary (engine : RegexEngine) (source pattern : Bytes) :
    Complementary engine source pattern := by
  have hdelete := group_eq pattern (show (100 : UInt8) ≠ 47 by decide) (by decide)
  have hprint := group_eq pattern (show (112 : UInt8) ≠ 47 by decide) (by decide)
  have hdeleted := process_single engine source (ascii "/" ++ pattern ++ ascii "/d") (ascii "/")
    (ascii "/d") fun reg source => unlines ((lines source).filter fun line => !reg.search line)
  have hshown := process_single engine source (ascii "/" ++ pattern ++ ascii "/p") (ascii "/")
    (ascii "/p") fun reg source => unlines ((lines source).filter reg.search)
  rw [show ascii "/d" = [47, 100] by decide, hdelete] at hdeleted
  rw [show ascii "/p" = [47, 112] by decide, hprint] at hshown
  by_cases hclosed : Closed pattern
  · rw [if_pos hclosed] at hdeleted hshown
    cases hcompile : engine.compile pattern false with
    | none =>
      simp only [hcompile] at hdeleted hshown
      exact .inl ⟨_, hdeleted, hshown⟩
    | some reg =>
      simp only [hcompile] at hdeleted hshown
      refine .inr ⟨_, _, hdeleted, hshown, ?_⟩
      rw [lines_kept, lines_kept]
      exact interleaved_filter reg.search (lines source)
  · rw [if_neg hclosed] at hdeleted hshown
    exact .inl ⟨_, hdeleted, hshown⟩

end LineCommands

section Handler

open RegexCommand

variable {engine : RegexEngine} {source regexCommand : Bytes}

-- What is told of a result of a command.
def RegexHandler.told (regexCommand : Bytes) : Result → List RegexHandler.Callback
  | .ok text => [.onSuccess text]
  | .error e => (RegexHandler.errorText regexCommand e).toList.map .onError

namespace RegexHandler

-- No text is a command of both.
def Apart (handler other : RegexCommand) : Prop :=
  ∀ regexCommand, (handler.command_regex regexCommand).isSome →
    other.command_regex regexCommand = none

theorem Apart.symm {handler other : RegexCommand} (h : Apart handler other) :
    Apart other handler := by
  intro regexCommand hother
  by_contra hhandler
  have hnone := h regexCommand (Option.isSome_iff_ne_none.mpr hhandler)
  rw [hnone] at hother
  cases hother

theorem apart_of_prefix {handler other : RegexCommand} {p q : Bytes} (hhead : p.head? ≠ q.head?)
    (hp : p ≠ []) (hq : q ≠ [])
    (hhandler : ∀ regexCommand, (handler.command_regex regexCommand).isSome → p <+: regexCommand)
    (hother : ∀ regexCommand, (other.command_regex regexCommand).isSome → q <+: regexCommand) :
    Apart handler other := by
  intro regexCommand hsome
  by_contra hnone
  obtain ⟨s, hs⟩ := hhandler regexCommand hsome
  obtain ⟨t, ht⟩ := hother regexCommand (Option.isSome_iff_ne_none.mpr hnone)
  have heads := congrArg List.head? (hs.trans ht.symm)
  rw [List.head?_append_of_ne_nil _ hp, List.head?_append_of_ne_nil _ hq] at heads
  exact hhead heads

theorem prefix_of_replace (regexCommand : Bytes)
    (h : (ReplaceCommand.command_regex regexCommand).isSome) : ascii "s/" <+: regexCommand := by
  by_contra hprefix
  rw [ReplaceCommand.command_regex, if_neg hprefix] at h
  cases h

theorem prefix_of_single {before after : Bytes} {make : Regex → Bytes → Bytes}
    (regexCommand : Bytes) (h : ((single before after make).command_regex regexCommand).isSome) :
    before <+: regexCommand := by
  by_contra hprefix
  have hnone : (single before after make).command_regex regexCommand = none := if_neg hprefix
  rw [hnone] at h
  cases h

-- Two commands that begin alike end differently.
theorem apart_single {before after after' : Bytes} {make make' : Regex → Bytes → Bytes}
    (hne : after ≠ after') : Apart (single before after make) (single before after' make') := by
  intro regexCommand hsome
  show group before after' regexCommand = none
  have hgroup : (group before after regexCommand).isSome := hsome
  by_cases hprefix : before <+: regexCommand
  · rw [group, if_pos hprefix] at hgroup ⊢
    by_cases hafter : (elements (regexCommand.drop before.length)).2 = after
    · simp [hafter, hne]
    · simp [hafter] at hgroup
  · rw [group, if_neg hprefix]

theorem pairwise_handlers : handlers.Pairwise Apart := by
  have hreplace {before after : Bytes} {make : Regex → Bytes → Bytes} (hne : before ≠ [])
      (hhead : (ascii "s/").head? ≠ before.head?) :
      Apart ReplaceCommand (single before after make) :=
    apart_of_prefix hhead (by decide) hne prefix_of_replace prefix_of_single
  have hupper {after : Bytes} {make : Regex → Bytes → Bytes} :
      Apart (single (ascii "/") after make) ToUpperCommand :=
    apart_of_prefix (by decide) (by decide) (by decide) prefix_of_single prefix_of_single
  refine .cons ?_ (.cons ?_ (.cons ?_ (.cons ?_ (.cons ?_ .nil))))
  · simp only [List.forall_mem_cons]
    exact ⟨hreplace (by decide) (by decide), hreplace (by decide) (by decide),
      hreplace (by decide) (by decide), hreplace (by decide) (by decide),
      List.forall_mem_nil _⟩
  · simp only [List.forall_mem_cons]
    exact ⟨apart_single (by decide), apart_single (by decide), hupper, List.forall_mem_nil _⟩
  · simp only [List.forall_mem_cons]
    exact ⟨apart_single (by decide), hupper, List.forall_mem_nil _⟩
  · exact List.forall_mem_singleton.mpr hupper
  · exact List.forall_mem_nil _

variable {registered : List RegexCommand} {handler : RegexCommand}

theorem process_of_none (h : handler.command_regex regexCommand = none) :
    handler.process engine source regexCommand = some (.error .None) := by
  rw [process, h]

theorem execute_of_none (h : ∀ k ∈ registered, k.command_regex regexCommand = none) :
    execute engine source regexCommand registered = some [] := by
  induction registered with
  | nil => rfl
  | cons k rest ih =>
    obtain ⟨hk, hrest⟩ := List.forall_mem_cons.mp h
    simp only [execute, process_of_none hk, errorText]
    exact ih hrest

-- The others pass the text on, so that what the one makes of it is told and nothing else.
theorem execute_of_mem (hapart : registered.Pairwise Apart) (hmem : handler ∈ registered)
    (h : (handler.command_regex regexCommand).isSome) :
    execute engine source regexCommand registered =
      (handler.process engine source regexCommand).map (told regexCommand) := by
  induction registered with
  | nil => cases hmem
  | cons k rest ih =>
    obtain ⟨hk, hrest⟩ := List.pairwise_cons.mp hapart
    rcases List.mem_cons.mp hmem with rfl | hmem
    · have hothers : execute engine source regexCommand rest = some [] :=
        execute_of_none fun other hother => hk other hother regexCommand h
      simp only [execute, hothers]
      cases handler.process engine source regexCommand with
      | none => rfl
      | some result =>
        cases result with
        | ok text => rfl
        | error e => cases e <;> rfl
    · have hnone := (hk handler hmem).symm regexCommand h
      simp only [execute, process_of_none hnone, errorText]
      exact ih hrest hmem

theorem run_replace_ne (groups : ReplaceCommand.Groups) :
    ReplaceCommand.run engine source groups ≠ some (.error .None) := by
  have hscan (options : Bytes) (o : ReplaceCommand.Options) :
      ReplaceCommand.scan options o ≠ some (.error .None) := by
    fun_induction ReplaceCommand.scan options o <;> simp_all
  have hreplace (regex : Regex) (replacement : Bytes) (index : ℤ) :
      ReplaceCommand.replaceAt regex source replacement index ≠ some (.error .None) := by
    intro h
    obtain ⟨s, -, hs⟩ := Option.bind_eq_some_iff.mp h
    by_cases hreplaced : s.replaced = true
    · simp [hreplaced] at hs
    · simp [hreplaced] at hs
  intro h
  rw [ReplaceCommand.run] at h
  split at h
  · cases h
  · next e he =>
      cases h
      exact hscan _ _ he
  · split at h
    · cases h
    · split at h
      · cases h
      · split at h
        · exact hreplace _ _ _ h
        · cases h

theorem run_single_ne {before after : Bytes} {make : Regex → Bytes → Bytes} (pattern : Bytes) :
    (single before after make).run engine source pattern ≠ some (.error .None) := by
  intro h
  cases hcompile : engine.compile pattern false <;> simp [single, hcompile] at h

-- A command is never taken for the command of no one.
theorem told_ne_nil {result : Result} (hmem : handler ∈ handlers)
    (h : (handler.command_regex regexCommand).isSome)
    (hresult : handler.process engine source regexCommand = some result) :
    told regexCommand result ≠ [] := by
  obtain ⟨groups, hgroups⟩ := Option.isSome_iff_exists.mp h
  have hrun : ∀ groups, handler.run engine source groups ≠ some (.error .None) := by
    simp only [handlers, List.mem_cons, List.not_mem_nil, or_false] at hmem
    rcases hmem with rfl | rfl | rfl | rfl | rfl
    · exact run_replace_ne
    · exact run_single_ne
    · exact run_single_ne
    · exact run_single_ne
    · exact run_single_ne
  rw [process_of_groups hgroups] at hresult
  cases result with
  | ok text => exact List.cons_ne_nil _ _
  | error e =>
    cases e with
    | None => exact absurd hresult (hrun groups)
    | InvalidRegexMatchIndex => exact List.cons_ne_nil _ _
    | InvalidRegexOption => exact List.cons_ne_nil _ _
    | GlobalFlagAndMatchIndexInvalid | InvalidRegex => exact List.cons_ne_nil _ _

theorem told_length_le (result : Result) : (told regexCommand result).length ≤ 1 := by
  cases result with
  | ok text => exact Nat.le_refl 1
  | error e => cases e <;> simp [told, errorText]

end RegexHandler

end Handler

-- The expression of one letter.
def spansOf (letter : UInt8) : ℕ → Bytes → List (ℕ × ℕ)
  | _, [] => []
  | start, b :: rest =>
    if b = letter then (start, start + 1) :: spansOf letter (start + 1) rest
    else spansOf letter (start + 1) rest

theorem ordered_spansOf (letter : UInt8) {length start : ℕ} (passed : ℕ) (source : Bytes)
    (hlength : length = start + source.length) (hpassed : passed ≤ start) :
    Ordered length passed (spansOf letter start source) := by
  induction source generalizing start passed with
  | nil =>
    rw [List.length_nil] at hlength
    exact Nat.le_trans hpassed (Nat.le_of_eq hlength.symm)
  | cons b rest ih =>
    rw [List.length_cons] at hlength
    rw [spansOf]
    split
    · exact ⟨hpassed, Nat.le_succ _, ih (start + 1) (by omega) (Nat.le_refl _)⟩
    · exact ih passed (by omega) (by omega)

def letterRegex (letter : UInt8) : Regex where
  spans := spansOf letter 0
  ordered source := ordered_spansOf letter 0 source (Nat.zero_add _).symm (Nat.le_refl 0)
  search := fun line => line.contains letter
  replace firstOnly source replacement :=
    if firstOnly then
      source.takeWhile (· ≠ letter) ++
        (if source.contains letter then replacement else []) ++ (source.dropWhile (· ≠ letter)).tail
    else source.flatMap fun b => if b = letter then replacement else [b]

def letterEngine : RegexEngine where
  compile target icase :=
    match target, icase with
    | [letter], false => some (letterRegex letter)
    | _, _ => none

namespace RegexHandler

-- In whichever order the commands were registered, the one that a text is a command of answers, and
-- it answers once.
theorem execute_of_perm (engine : RegexEngine) (source regexCommand : Bytes)
    (registered : List RegexCommand) (hperm : registered.Perm handlers) :
    (∀ handler ∈ handlers, (handler.command_regex regexCommand).isSome →
      execute engine source regexCommand registered =
        (handler.process engine source regexCommand).map (told regexCommand)) ∧
    ∀ callbacks, execute engine source regexCommand registered = some callbacks →
      callbacks.length ≤ 1 ∧
        (callbacks = [] ↔ ∀ handler ∈ handlers, handler.command_regex regexCommand = none) := by
  have hapart : registered.Pairwise Apart :=
    hperm.symm.pairwise pairwise_handlers fun h => h.symm
  have honce : ∀ handler ∈ handlers, (handler.command_regex regexCommand).isSome →
      execute engine source regexCommand registered =
        (handler.process engine source regexCommand).map (told regexCommand) :=
    fun handler hmem h => execute_of_mem hapart (hperm.symm.subset hmem) h
  refine ⟨honce, fun callbacks hcallbacks => ?_⟩
  by_cases hnone : ∀ handler ∈ handlers, handler.command_regex regexCommand = none
  · have hnil : execute engine source regexCommand registered = some [] :=
      execute_of_none fun handler hmem => hnone handler (hperm.subset hmem)
    obtain rfl := Option.some.inj (hnil.symm.trans hcallbacks)
    exact ⟨Nat.zero_le 1, iff_of_true rfl hnone⟩
  · obtain ⟨handler, hmem, hsome⟩ : ∃ handler ∈ handlers,
        handler.command_regex regexCommand ≠ none := by
      by_contra hno
      exact hnone fun handler hmem => by_contra fun hsome => hno ⟨handler, hmem, hsome⟩
    have hsome := Option.isSome_iff_ne_none.mpr hsome
    rw [honce handler hmem hsome] at hcallbacks
    obtain ⟨result, hresult, rfl⟩ := Option.map_eq_some_iff.mp hcallbacks
    exact ⟨told_length_le result, iff_of_false (told_ne_nil hmem hsome hresult) hnone⟩

theorem execute_of_perm_reverse :
    execute letterEngine (ascii "abca") (ascii "/a/c") handlers.reverse =
      some [.onSuccess (ascii "2")] :=
  ((execute_of_perm letterEngine (ascii "abca") (ascii "/a/c") handlers.reverse
    handlers.reverse_perm).1 CountCommand (by simp [handlers]) (by decide +kernel)).trans
    (by decide +kernel)

end RegexHandler

end Glider

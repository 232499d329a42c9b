import Glider.Lib.Bytes

namespace Glider.Ml.Csv

open Lib

def quote : UInt8 := 34

def comma : UInt8 := 44

def isNewline (c : UInt8) : Bool := c = 10 ∨ c = 13

def doubled (field : Bytes) : Bytes := field.flatMap fun c => if c = quote then [quote, c] else [c]

-- A character that `escapeField` quotes a field for.
def special (c : UInt8) : Bool := c = comma ∨ c = quote ∨ isNewline c

def escapeField (field : Bytes) : Bytes :=
  if field = [] ∨ field.any special then quote :: (doubled field ++ [quote]) else field

def escapeFields : List Bytes → Bytes
  | [] => []
  | [field] => escapeField field
  | field :: fields => escapeField field ++ comma :: escapeFields fields

def encodeRow (fields : List Bytes) : Bytes := escapeFields fields ++ [10]

-- The loop of `tryParseRow` over what is left of the row; `skip` stands for the index that the
-- second of two quotes advances. After a newline outside quotes only newlines may follow, and the
-- last field is pushed.
def parse (fields : List Bytes) (field : Bytes) (quoted afterQuote skip : Bool) :
    Bytes → Option (List Bytes)
  | [] => if quoted then none else some (fields ++ [field])
  | c :: rest =>
    if skip then parse fields field quoted afterQuote false rest
    else if quoted then
      if c = quote then
        if rest.head? = some quote then parse fields (field ++ [quote]) quoted afterQuote true rest
        else parse fields field false true false rest
      else parse fields (field ++ [c]) quoted afterQuote false rest
    else if afterQuote then
      if c = comma then parse (fields ++ [field]) [] false false false rest
      else if isNewline c then
        if rest.dropWhile isNewline = [] then some (fields ++ [field]) else none
      else none
    else if c = quote then
      if field ≠ [] then none else parse fields field true false false rest
    else if c = comma then parse (fields ++ [field]) [] false false false rest
    else if isNewline c then
      if rest.dropWhile isNewline = [] then some (fields ++ [field]) else none
    else parse fields (field ++ [c]) false false false rest

def tryParseRow (row : Bytes) : Option (List Bytes) := parse [] [] false false false row

-- What the loop of `readRow` leaves: the record, whether a newline ended it, and the rest of the
-- stream.
structure Scanned where
  record : Bytes
  quoted : Bool
  ended : Bool
  rest : Bytes

def scan (record : Bytes) (quoted skip : Bool) : Bytes → Scanned
  | [] => ⟨record, quoted, false, []⟩
  | c :: rest =>
    if skip then scan (record ++ [c]) quoted false rest
    else if c = quote then
      if quoted && rest.head? = some quote then scan (record ++ [c]) quoted true rest
      else scan (record ++ [c]) (!quoted) false rest
    else if c = 10 && !quoted then ⟨record ++ [c], quoted, true, rest⟩
    else scan (record ++ [c]) quoted false rest

-- The fields read, if a row could be read, and what is left of the stream.
def readRow (input : Bytes) : Option (List Bytes) × Bytes :=
  let scanned := scan [] false false input
  if scanned.ended then (tryParseRow scanned.record, scanned.rest)
  else if scanned.record ≠ [] && !scanned.quoted then (tryParseRow scanned.record, scanned.rest)
  else (none, scanned.rest)

section Progress

theorem length_scan_rest (record input : Bytes) (quoted skip : Bool) :
    (scan record quoted skip input).rest.length ≤ input.length - 1 := by
  induction input generalizing record quoted skip with
  | nil => exact Nat.le_refl 0
  | cons c rest ih =>
    have hstep : ∀ record quoted skip,
        (scan record quoted skip rest).rest.length ≤ (c :: rest).length - 1 := fun r q s =>
      (ih r q s).trans (by rw [List.length_cons]; omega)
    rw [scan]
    split
    · exact hstep _ _ _
    · split
      · split
        · exact hstep _ _ _
        · exact hstep _ _ _
      · split
        · exact Nat.le_refl _
        · exact hstep _ _ _

-- A row that could be read took something off the stream.
theorem length_readRow_lt {input rest : Bytes} {parts : List Bytes}
    (h : readRow input = (some parts, rest)) : rest.length < input.length := by
  have hlen := length_scan_rest [] input false false
  have hrest : rest = (scan [] false false input).rest := by
    rw [readRow] at h
    split at h
    · exact (congrArg Prod.snd h).symm
    · split at h
      · exact (congrArg Prod.snd h).symm
      · exact (congrArg Prod.snd h).symm
  cases input with
  | nil => exact absurd (congrArg Prod.fst h) (Option.some_ne_none _).symm
  | cons c input =>
    rw [hrest, List.length_cons]
    exact Nat.lt_succ_of_le hlen

end Progress

section Records

-- Whether the only newline of a text that lies outside quotes is its last byte.
def endsRecord (quoted : Bool) : Bytes → Bool
  | [] => false
  | c :: rest =>
    if c = quote then endsRecord (!quoted) rest
    else if c = 10 && !quoted then rest = []
    else endsRecord quoted rest

-- A newline-terminated record without unbalanced quotes.
def IsRecord (record : Bytes) : Prop := endsRecord false record = true

instance (record : Bytes) : Decidable (IsRecord record) := inferInstanceAs (Decidable (_ = _))

-- A quote that `scan` skips is one of two, which leave the parity of the quotes as it was.
theorem scan_append (record r rest : Bytes) (quoted skip : Bool)
    (hskip : skip = true → r.head? = some quote)
    (hends : endsRecord (if skip then !quoted else quoted) r = true) :
    (scan record quoted skip (r ++ rest)).ended = true ∧
      (scan record quoted skip (r ++ rest)).record = record ++ r ∧
      (scan record quoted skip (r ++ rest)).rest = rest := by
  induction r generalizing record quoted skip with
  | nil => exact absurd hends Bool.false_ne_true
  | cons c r ih =>
    have happend : record ++ c :: r = record ++ [c] ++ r := by rw [List.append_assoc]; rfl
    rw [List.cons_append, happend]
    by_cases hs : skip = true
    · have hc : c = quote := Option.some.inj (hskip hs)
      rw [if_pos hs, endsRecord, if_pos hc, Bool.not_not] at hends
      rw [scan, if_pos hs]
      exact ih (record ++ [c]) quoted false (fun h => absurd h Bool.false_ne_true) hends
    rw [if_neg hs, endsRecord] at hends
    rw [scan, if_neg hs]
    by_cases hc : c = quote
    · rw [if_pos hc] at hends ⊢
      have hhead : (r ++ rest).head? = r.head? := by
        cases r with
        | nil => exact absurd hends Bool.false_ne_true
        | cons d r => rfl
      rw [hhead]
      split
      · next hpair =>
        have hnext : r.head? = some quote := of_decide_eq_true (Bool.and_eq_true_iff.mp hpair).2
        exact ih (record ++ [c]) quoted true (fun _ => hnext) hends
      · exact ih (record ++ [c]) (!quoted) false (fun h => absurd h Bool.false_ne_true) hends
    · rw [if_neg hc] at hends ⊢
      split
      · next hend =>
        rw [if_pos hend] at hends
        have hlast : r = [] := of_decide_eq_true hends
        rw [hlast, List.append_nil]
        exact ⟨rfl, rfl, rfl⟩
      · next hend =>
        rw [if_neg hend] at hends
        exact ih (record ++ [c]) quoted false (fun h => absurd h Bool.false_ne_true) hends

theorem readRow_append {r : Bytes} (hr : IsRecord r) (rest : Bytes) :
    readRow (r ++ rest) = (tryParseRow r, rest) := by
  obtain ⟨hended, hrecord, hrest⟩ :=
    scan_append [] r rest false false (fun h => absurd h Bool.false_ne_true) hr
  rw [readRow]
  simp only [hended, hrecord, hrest, if_true, List.nil_append]

end Records

section RoundTrip

theorem parse_skip {fields : List Bytes} {field : Bytes} {quoted afterQuote : Bool} {c : UInt8}
    {rest : Bytes} :
    parse fields field quoted afterQuote true (c :: rest) =
      parse fields field quoted afterQuote false rest := rfl

-- Inside quotes a text comes out as it was, up to a quote that no quote follows.
theorem parse_doubled (fields : List Bytes) (field text : Bytes) (afterQuote : Bool) {rest : Bytes}
    (hrest : rest.head? ≠ some quote) :
    parse fields field true afterQuote false (doubled text ++ quote :: rest) =
      parse fields (field ++ text) false true false rest := by
  induction text generalizing field with
  | nil =>
    rw [List.append_nil]
    change parse fields field true afterQuote false (quote :: rest) = _
    rw [parse, if_neg Bool.false_ne_true, if_pos rfl, if_pos rfl, if_neg hrest]
  | cons c text ih =>
    have happend : field ++ c :: text = field ++ [c] ++ text := by rw [List.append_assoc]; rfl
    rw [happend, ← ih, doubled, List.flatMap_cons]
    by_cases hc : c = quote
    · rw [if_pos hc, hc]
      change parse fields field true afterQuote false
        (quote :: quote :: (doubled text ++ quote :: rest)) = _
      rw [parse, if_neg Bool.false_ne_true, if_pos rfl, if_pos rfl, List.head?_cons, if_pos rfl,
        parse_skip]
    · rw [if_neg hc]
      change parse fields field true afterQuote false (c :: (doubled text ++ quote :: rest)) = _
      rw [parse, if_neg Bool.false_ne_true, if_pos rfl, if_neg hc]

theorem of_not_special {c : UInt8} (h : special c = false) :
    c ≠ quote ∧ c ≠ comma ∧ isNewline c = false := by
  simp only [special, decide_eq_false_iff_not, not_or, Bool.not_eq_true] at h
  exact ⟨h.2.1, h.1, h.2.2⟩

theorem parse_plain (fields : List Bytes) (field text rest : Bytes)
    (hplain : ∀ c ∈ text, special c = false) :
    parse fields field false false false (text ++ rest) =
      parse fields (field ++ text) false false false rest := by
  induction text generalizing field with
  | nil => rw [List.append_nil, List.nil_append]
  | cons c text ih =>
    have happend : field ++ c :: text = field ++ [c] ++ text := by rw [List.append_assoc]; rfl
    obtain ⟨hquote, hcomma, hnewline⟩ := of_not_special (hplain c List.mem_cons_self)
    rw [happend, ← ih _ fun d hd => hplain d (List.mem_cons_of_mem _ hd), List.cons_append, parse,
      if_neg Bool.false_ne_true, if_neg Bool.false_ne_true, if_neg Bool.false_ne_true,
      if_neg hquote, if_neg hcomma, hnewline, if_neg Bool.false_ne_true]

-- A field as it was written, up to the character that ends it.
theorem parse_escapeField (fields : List Bytes) (field : Bytes) (c : UInt8) (rest : Bytes)
    (hc : c ≠ quote) :
    ∃ afterQuote, parse fields [] false false false (escapeField field ++ c :: rest) =
      parse fields field false afterQuote false (c :: rest) := by
  rw [escapeField]
  split
  · refine ⟨true, ?_⟩
    have hhead : (c :: rest).head? ≠ some quote := fun heq => hc (Option.some.inj heq)
    rw [List.cons_append, List.append_assoc, parse, if_neg Bool.false_ne_true,
      if_neg Bool.false_ne_true, if_neg Bool.false_ne_true, if_pos rfl, if_neg (not_not.mpr rfl)]
    exact parse_doubled fields [] field false hhead
  · next hplain =>
    refine ⟨false, parse_plain fields [] field (c :: rest) fun d hd => ?_⟩
    rw [not_or, Bool.not_eq_true, List.any_eq_false] at hplain
    exact Bool.eq_false_iff.mpr (hplain.2 d hd)

theorem parse_comma {fields : List Bytes} {field : Bytes} {afterQuote : Bool} {rest : Bytes} :
    parse fields field false afterQuote false (comma :: rest) =
      parse (fields ++ [field]) [] false false false rest := by
  cases afterQuote <;> rfl

theorem parse_newline {fields : List Bytes} {field : Bytes} {afterQuote : Bool} :
    parse fields field false afterQuote false [10] = some (fields ++ [field]) := by
  cases afterQuote <;> rfl

theorem parse_escapeFields (before fields : List Bytes) (hne : fields ≠ []) :
    parse before [] false false false (escapeFields fields ++ [10]) = some (before ++ fields) := by
  induction fields generalizing before with
  | nil => exact absurd rfl hne
  | cons field fields ih =>
    cases fields with
    | nil =>
      obtain ⟨afterQuote, hfield⟩ := parse_escapeField before field 10 [] (by decide)
      rw [escapeFields, hfield, parse_newline]
    | cons next fields =>
      obtain ⟨afterQuote, hfield⟩ := parse_escapeField before field comma
        (escapeFields (next :: fields) ++ [10]) (by decide)
      have happend : before ++ field :: next :: fields = before ++ [field] ++ next :: fields := by
        rw [List.append_assoc]
        rfl
      rw [happend, ← ih (before ++ [field]) (List.cons_ne_nil _ _), ← parse_comma, ← hfield,
        escapeFields, List.append_assoc]
      · rfl
      · exact List.cons_ne_nil _ _

-- A row comes back as the fields that were written.
theorem tryParseRow_encodeRow {fields : List Bytes} (hne : fields ≠ []) :
    tryParseRow (encodeRow fields) = some fields :=
  parse_escapeFields [] fields hne

end RoundTrip

section Written

theorem endsRecord_doubled (text rest : Bytes) :
    endsRecord true (doubled text ++ rest) = endsRecord true rest := by
  induction text with
  | nil => rfl
  | cons c text ih =>
    rw [doubled, List.flatMap_cons, List.append_assoc]
    by_cases hc : c = quote
    · rw [if_pos hc, hc]
      exact ih
    · rw [if_neg hc, List.singleton_append, endsRecord, if_neg hc, Bool.not_true, Bool.and_false,
        if_neg Bool.false_ne_true]
      exact ih

theorem endsRecord_escapeField (field rest : Bytes) :
    endsRecord false (escapeField field ++ rest) = endsRecord false rest := by
  rw [escapeField]
  split
  · rw [List.cons_append, List.append_assoc, endsRecord, if_pos rfl, Bool.not_false,
      endsRecord_doubled]
    rfl
  · next hplain =>
    rw [not_or, Bool.not_eq_true, List.any_eq_false] at hplain
    have hall := hplain.2
    clear hplain
    induction field with
    | nil => rfl
    | cons c field ih =>
      obtain ⟨hquote, -, hnewline⟩ :=
        of_not_special (Bool.eq_false_iff.mpr (hall c List.mem_cons_self))
      have hten : c ≠ 10 := fun heq => by rw [heq] at hnewline; exact absurd hnewline (by decide)
      rw [List.cons_append, endsRecord, if_neg hquote, decide_eq_false hten, Bool.false_and,
        if_neg Bool.false_ne_true]
      exact ih fun d hd => hall d (List.mem_cons_of_mem _ hd)

theorem isRecord_encodeRow (fields : List Bytes) : IsRecord (encodeRow fields) := by
  rw [IsRecord, encodeRow]
  induction fields with
  | nil => rfl
  | cons field fields ih =>
    cases fields with
    | nil =>
      rw [escapeFields, endsRecord_escapeField]
      rfl
    | cons next fields =>
      rw [escapeFields, List.append_assoc, endsRecord_escapeField]
      · exact ih
      · exact List.cons_ne_nil _ _

end Written

section Rows

-- Reads rows until none can be read, and what is left of the stream then.
def readRows (input : Bytes) : List (List Bytes) × Bytes :=
  match _ : readRow input with
  | (none, rest) => ([], rest)
  | (some row, rest) => (row :: (readRows rest).1, (readRows rest).2)
termination_by input.length
decreasing_by all_goals exact length_readRow_lt ‹_›

theorem readRows_of_some {input rest : Bytes} {row : List Bytes}
    (h : readRow input = (some row, rest)) :
    readRows input = (row :: (readRows rest).1, (readRows rest).2) := by
  rw [readRows]
  split
  · next heq =>
    rw [h] at heq
    cases heq
  · next heq =>
    rw [h] at heq
    cases heq
    rfl

theorem readRows_nil : readRows [] = ([], []) := by
  rw [readRows]
  rfl

-- A file that was written row by row is read as these rows, and then there is no more.
theorem rows_read_back :
    (∀ rows : List (List Bytes), (∀ row ∈ rows, row ≠ []) →
      readRows (rows.flatMap encodeRow) = (rows, [])) ∧
      ∀ row : List Bytes, row ≠ [] → tryParseRow (encodeRow row) = some row := by
  refine ⟨fun rows hrows => ?_, fun row hne => tryParseRow_encodeRow hne⟩
  induction rows with
  | nil => exact readRows_nil
  | cons row rows ih =>
    obtain ⟨hne, hrest⟩ := List.forall_mem_cons.mp hrows
    have hread : readRow (encodeRow row ++ rows.flatMap encodeRow) =
        (some row, rows.flatMap encodeRow) := by
      rw [readRow_append (isRecord_encodeRow row), tryParseRow_encodeRow hne]
    rw [List.flatMap_cons, readRows_of_some hread, ih hrest]

theorem rows_read_back_quoted :
    readRows ([[[34, 10], []], [[13]]].flatMap encodeRow) = ([[[34, 10], []], [[13]]], []) ∧
      tryParseRow (encodeRow [[44]]) = some [[44]] :=
  ⟨rows_read_back.1 [[[34, 10], []], [[13]]] (by decide), rows_read_back.2 [[44]] (by decide)⟩

end Rows

end Glider.Ml.Csv

import Glider.Lib.Decimal
import Glider.Lib.Find
import Glider.Lib.Word

namespace Glider.Ibash

open Lib

def kReadBufferSize : ℕ := 4096

def kMaxOutputSize : ℕ := 4096

def kMaxCommandSize : ℕ := 16 * 1024

-- What one turn of the inner loop of `readUntilMarkerLocked` meets: a stop, the end of the
-- session or the deadline; a read of some bytes, after which the same may be met when the marker
-- is there; `EINTR`; or any other error. The list of turns ends with `EAGAIN`.
inductive Read
  | halted
  | bytes (size : ℕ+) (halts : Bool)
  | interrupted
  | failed

-- One turn of the outer loop. The list of turns ends with the deadline.
inductive Poll
  | halted
  | timeout
  | failed
  | ready (hangup : Bool) (reads : List Read)

section Output

structure Reading where
  output : Bytes
  carry : Bytes
  truncated : Bool

def appendLimited (r : Reading) (data : Bytes) : Reading :=
  let available :=
    if r.output.length < kMaxOutputSize then kMaxOutputSize - r.output.length else 0
  let copied := min available data.length
  { r with output := r.output ++ data.take copied,
           truncated := r.truncated || copied ≠ data.length }

def limited (outputTruncated : Bytes) (r : Reading) : Bytes :=
  if r.truncated then
    let suffix := 10 :: outputTruncated
    if kMaxOutputSize ≤ suffix.length then suffix.take kMaxOutputSize
    else r.output.take (min r.output.length (kMaxOutputSize - suffix.length)) ++ suffix
  else r.output

end Output

section ReadUntilMarker

variable (marker outputTruncated : Bytes)

-- The inner loop returns from the function, or has read all there was for now.
inductive Drained
  | returned (output : Option Bytes)
  | again (reading : Reading) (readAny : Bool)

-- What is kept of the bytes in which there is no marker yet.
def carryOver (r : Reading) (combined : Bytes) : Reading :=
  let keep := min combined.length (if marker = [] then 0 else marker.length - 1)
  { appendLimited r (combined.take (combined.length - keep)) with
    carry := combined.drop (combined.length - keep) }

def readLoop (r : Reading) (readAny : Bool) : List Read → Bytes → Drained × Bytes
  | [], pipe => (.again r readAny, pipe)
  | .halted :: _, pipe => (.returned none, pipe)
  | .interrupted :: rest, pipe => readLoop r readAny rest pipe
  | .failed :: _, pipe => (.returned none, pipe)
  | .bytes size halts :: rest, pipe =>
    let data := pipe.take (min size kReadBufferSize)
    let pipe' := pipe.drop (min size kReadBufferSize)
    -- nothing to read: `EAGAIN`
    if data = [] then (.again r readAny, pipe)
    else
      let combined := r.carry ++ data
      match find marker combined with
      | some markerPos =>
        if halts then (.returned none, pipe')
        else
          (.returned (some (limited outputTruncated (appendLimited r (combined.take markerPos)))),
            pipe')
      | none => readLoop (carryOver marker r combined) true rest pipe'

def pollLoop (r : Reading) : List Poll → Bytes → Option Bytes × Bytes
  | [], pipe => (none, pipe)
  | .halted :: _, pipe => (none, pipe)
  | .timeout :: rest, pipe => pollLoop r rest pipe
  | .failed :: _, pipe => (none, pipe)
  | .ready hangup reads :: rest, pipe =>
    match readLoop marker outputTruncated r false reads pipe with
    | (.returned output, pipe') => (output, pipe')
    | (.again r' readAny, pipe') =>
      if !readAny && hangup then (none, pipe') else pollLoop r' rest pipe'

def readUntilMarker (polls : List Poll) (pipe : Bytes) : Option Bytes × Bytes :=
  pollLoop marker outputTruncated ⟨[], [], false⟩ polls pipe

end ReadUntilMarker

section Execute

-- The bytes of the shell's output that have not been read yet.
structure Session where
  sequence : ℕ
  pipe : Bytes

def Session.started : Session := ⟨0, []⟩

-- One call: whether the session runs and there is no stop and no deadline yet, whether the payload
-- could be written, and what comes into the pipe for it up to the marker line. By turns that is a
-- text of the shell itself (its notices at the start, the echo of a line that it reads, of the
-- `printf` too) and what the command prints.
structure Attempt where
  command : Bytes
  ready : Bool
  written : Bool
  answer : List (Bytes × Bytes)
  polls : List Poll

namespace Attempt

def shown (a : Attempt) : Bytes := a.answer.flatMap fun turn => turn.1 ++ turn.2

def printed (a : Attempt) : Bytes := a.answer.flatMap Prod.snd

-- The shell writes nothing of its own.
def Quiet (a : Attempt) : Prop := ∀ turn ∈ a.answer, turn.1 = []

theorem shown_of_quiet {a : Attempt} (h : a.Quiet) : a.shown = a.printed :=
  List.flatMap_congr fun turn hturn => by rw [h turn hturn, List.nil_append]

end Attempt

def markerOf (sequence : ℕ) : Bytes :=
  30 :: (Bytes.ascii "GLIDER_IBASH_" ++ Decimal.digits sequence ++ [31])

-- What the shell prints for the `printf` behind the command.
def markerLine (sequence : ℕ) : Bytes := markerOf sequence ++ [10]

variable (noOutput outputTruncated : Bytes)

def execute (s : Session) (a : Attempt) : Option Bytes × Session :=
  if !a.ready || kMaxCommandSize < a.command.length then (none, s)
  else
    let sequence := u64 (s.sequence + 1)
    if !a.written then (none, { s with sequence })
    else
      let (output, pipe) := readUntilMarker (markerOf sequence) outputTruncated a.polls
        (s.pipe ++ a.shown ++ markerLine sequence)
      (output.map fun text => if text = [] then noOutput else text, ⟨sequence, pipe⟩)

def executeAll (s : Session) : List Attempt → List (Option Bytes)
  | [] => []
  | a :: rest =>
    (execute noOutput outputTruncated s a).1 ::
      executeAll (execute noOutput outputTruncated s a).2 rest

end Execute

section Limit

theorem kMaxOutputSize_pos : 0 < kMaxOutputSize := by decide

-- A text as the output of a command: all of it, or a prefix with the notice behind it.
def shortened (outputTruncated text : Bytes) : Bytes :=
  if text.length ≤ kMaxOutputSize then text
  else
    let suffix := 10 :: outputTruncated
    (text.take (kMaxOutputSize - suffix.length) ++ suffix).take kMaxOutputSize

-- What has been taken in of a text.
def taken (text carry : Bytes) : Reading :=
  ⟨text.take kMaxOutputSize, carry, kMaxOutputSize < text.length⟩

theorem appendLimited_taken (text carry data : Bytes) :
    appendLimited (taken text carry) data = taken (text ++ data) carry := by
  have hlen : (text.take kMaxOutputSize).length = min kMaxOutputSize text.length :=
    List.length_take
  have havailable : (if (text.take kMaxOutputSize).length < kMaxOutputSize then
      kMaxOutputSize - (text.take kMaxOutputSize).length else 0) = kMaxOutputSize - text.length := by
    rw [hlen]
    split <;> omega
  have hmore : (decide (kMaxOutputSize < text.length) ||
      decide (min (kMaxOutputSize - text.length) data.length ≠ data.length)) =
        decide (kMaxOutputSize < (text ++ data).length) := by
    rw [List.length_append]
    by_cases hdata : data = []
    · subst hdata
      simp
    · have hpos := List.length_pos_iff.mpr hdata
      rw [← Bool.decide_or]
      apply decide_eq_decide.mpr
      omega
  unfold appendLimited taken
  dsimp only
  rw [havailable, hmore, List.take_append, ← List.take_eq_take_min]

theorem limited_taken (outputTruncated text carry : Bytes) :
    limited outputTruncated (taken text carry) = shortened outputTruncated text := by
  unfold limited taken shortened
  dsimp only
  by_cases hfits : text.length ≤ kMaxOutputSize
  · rw [if_neg (by simpa using hfits), if_pos hfits, List.take_of_length_le hfits]
  · have hlong : decide (kMaxOutputSize < text.length) = true :=
      decide_eq_true (Nat.lt_of_not_le hfits)
    rw [if_pos hlong, if_neg hfits]
    have hlen : (text.take kMaxOutputSize).length = kMaxOutputSize := by
      rw [List.length_take]
      omega
    split
    · next hsuffix => rw [Nat.sub_eq_zero_of_le hsuffix, List.take_zero, List.nil_append]
    · next hsuffix =>
      have htotal : (text.take (kMaxOutputSize - (10 :: outputTruncated).length) ++
          10 :: outputTruncated).length ≤ kMaxOutputSize := by
        rw [List.length_append, List.length_take]
        omega
      rw [hlen, Nat.min_eq_right (by omega), List.take_take, Nat.min_eq_left (by omega),
        List.take_of_length_le htotal]

theorem shortened_eq_nil {outputTruncated text : Bytes} :
    shortened outputTruncated text = [] ↔ text = [] := by
  unfold shortened
  split
  · rfl
  · next hlong =>
    have hpos := kMaxOutputSize_pos
    refine iff_of_false (fun hnil => ?_) fun hnil => hlong (by rw [hnil]; exact Nat.zero_le _)
    have hlen := congrArg List.length hnil
    simp only [List.length_take, List.length_append, List.length_cons, List.length_nil] at hlen
    omega

end Limit

section Read

variable {marker outputTruncated body tail : Bytes}

-- What the loop holds when it has read `text` and no marker: all but the last bytes are taken in.
def seen (marker text : Bytes) : Reading :=
  taken (text.take (text.length - (marker.length - 1)))
    (text.drop (text.length - (marker.length - 1)))

theorem carryOver_seen (marker text data : Bytes) :
    carryOver marker (seen marker text) ((seen marker text).carry ++ data) =
      seen marker (text ++ data) := by
  obtain ⟨base, hbase⟩ : ∃ base, base = text.length - (marker.length - 1) := ⟨_, rfl⟩
  have hle : base ≤ text.length := by omega
  have hcombined : (seen marker text).carry ++ data = (text ++ data).drop base := by
    change text.drop _ ++ data = _
    rw [← hbase, List.drop_append_of_le_length hle]
  have hkeep : (if marker = [] then 0 else marker.length - 1) = marker.length - 1 := by
    split
    · next hnil => rw [hnil]; rfl
    · rfl
  have hlen : ((text ++ data).drop base).length = text.length + data.length - base := by
    rw [List.length_drop, List.length_append]
  have hcut : ((text ++ data).drop base).length -
      min ((text ++ data).drop base).length (marker.length - 1) =
        (text ++ data).length - (marker.length - 1) - base := by
    rw [hlen, List.length_append]
    omega
  have hnext : base + ((text ++ data).length - (marker.length - 1) - base) =
      (text ++ data).length - (marker.length - 1) := by
    rw [List.length_append]
    omega
  have htext : text.take base = (text ++ data).take base := by
    rw [List.take_append_of_le_length hle]
  rw [carryOver, hcombined, hkeep, hcut, seen, ← hbase, appendLimited_taken, htext, ← List.take_add,
    hnext, List.drop_drop, hnext]
  rfl

-- The sizes of the reads of a turn.
def sizes (reads : List Read) : List ℕ :=
  reads.filterMap fun
    | .bytes size _ => some (min size kReadBufferSize)
    | _ => none

theorem sizes_cons_bytes (size : ℕ+) (halts : Bool) (reads : List Read) :
    sizes (.bytes size halts :: reads) = min ↑size kReadBufferSize :: sizes reads := rfl

-- What the inner loop comes to while the marker behind `body` has not been read as a whole.
def ReadTo (marker outputTruncated body tail : Bytes) (start : ℕ) (reads : List Read) :
    Drained × Bytes → Prop
  | (.returned none, _) => True
  | (.returned (some output), pipe) =>
    output = shortened outputTruncated body ∧
      ∃ k, body.length + marker.length ≤ start + ((sizes reads).take k).sum ∧
        pipe = (body ++ marker ++ tail).drop (start + ((sizes reads).take k).sum)
  | (.again r _, pipe) =>
    ∃ text, r = seen marker text ∧ text ++ pipe = body ++ marker ++ tail ∧
      text.length < body.length + marker.length ∧ text.length = start + (sizes reads).sum

theorem readTo_cons {start : ℕ} {size : ℕ+} {halts : Bool} {reads : List Read}
    {outcome : Drained × Bytes}
    (h : ReadTo marker outputTruncated body tail (start + min ↑size kReadBufferSize) reads outcome) :
    ReadTo marker outputTruncated body tail start (.bytes size halts :: reads) outcome := by
  obtain ⟨drained, pipe⟩ := outcome
  have hsum : ∀ k, start + ((sizes (.bytes size halts :: reads)).take (k + 1)).sum =
      start + min ↑size kReadBufferSize + ((sizes reads).take k).sum := by
    intro k
    rw [sizes_cons_bytes, List.take_succ_cons, List.sum_cons, Nat.add_assoc]
  cases drained with
  | returned output =>
    cases output with
    | none => trivial
    | some output =>
      obtain ⟨hshown, k, hwhole, hpipe⟩ := h
      refine ⟨hshown, k + 1, ?_, ?_⟩
      · rw [hsum]
        exact hwhole
      · rw [hsum]
        exact hpipe
  | again r readAny =>
    obtain ⟨text, hr, hstream, hlt, hlen⟩ := h
    refine ⟨text, hr, hstream, hlt, ?_⟩
    rw [hlen, sizes_cons_bytes, List.sum_cons, Nat.add_assoc]

-- The marker is found once it is whole, and what is put out is what stands before it.
theorem find_seen (hmarks : Marks marker body) (hmarker : marker ≠ []) {text data unread : Bytes}
    (hstream : text ++ data ++ unread = body ++ marker ++ tail)
    (hlt : text.length < body.length + marker.length) :
    find marker ((seen marker text).carry ++ data) =
      if body.length + marker.length ≤ text.length + data.length then
        some (body.length - (text.length - (marker.length - 1)))
      else none := by
  have hpos := List.length_pos_iff.mpr hmarker
  have hkept : (text.take (text.length - (marker.length - 1))).length =
      text.length - (marker.length - 1) := by
    rw [List.length_take]
    omega
  have hsplit : text.take (text.length - (marker.length - 1)) ++
      ((seen marker text).carry ++ data) ++ unread = body ++ marker ++ tail := by
    rw [← hstream, ← List.append_assoc]
    congr 2
    exact List.take_append_drop _ _
  have htotal : (text.take (text.length - (marker.length - 1))).length +
      ((seen marker text).carry ++ data).length = text.length + data.length := by
    change _ + (text.drop _ ++ data).length = _
    rw [hkept, List.length_append, List.length_drop]
    omega
  rw [find_of_marks hmarks hmarker hsplit (by omega), htotal, hkept]

theorem limited_seen {text data unread : Bytes}
    (hstream : text ++ data ++ unread = body ++ marker ++ tail)
    (hlt : text.length < body.length + marker.length) (hmarker : marker ≠ [])
    (hwhole : body.length + marker.length ≤ text.length + data.length) :
    limited outputTruncated (appendLimited (seen marker text)
      (((seen marker text).carry ++ data).take
        (body.length - (text.length - (marker.length - 1))))) =
      shortened outputTruncated body := by
  have hpos := List.length_pos_iff.mpr hmarker
  obtain ⟨base, hbase⟩ : ∃ base, base = text.length - (marker.length - 1) := ⟨_, rfl⟩
  have hle : base ≤ text.length := by omega
  have hbody : (text ++ data).take body.length = body := by
    have h := congrArg (List.take body.length) hstream
    rw [List.take_append_of_le_length (by rw [List.length_append]; omega), List.append_assoc body,
      List.take_left] at h
    exact h
  have hcarry : (seen marker text).carry ++ data = (text ++ data).drop base := by
    change text.drop _ ++ data = _
    rw [← hbase, List.drop_append_of_le_length hle]
  have htext : text.take base = (text ++ data).take base := by
    rw [List.take_append_of_le_length hle]
  rw [hcarry, ← hbase, seen, ← hbase, appendLimited_taken, limited_taken, htext, ← List.take_add,
    Nat.add_sub_cancel' (by omega), hbody]

theorem readLoop_spec (hmarks : Marks marker body) (hmarker : marker ≠ []) (reads : List Read)
    (readAny : Bool) {text pipe : Bytes} (hstream : text ++ pipe = body ++ marker ++ tail)
    (hlt : text.length < body.length + marker.length) :
    ReadTo marker outputTruncated body tail text.length reads
      (readLoop marker outputTruncated (seen marker text) readAny reads pipe) := by
  induction reads generalizing text pipe readAny with
  | nil => exact ⟨text, rfl, hstream, hlt, rfl⟩
  | cons read reads ih =>
    cases read with
    | halted => trivial
    | interrupted => exact ih readAny hstream hlt
    | failed => trivial
    | bytes size halts =>
      obtain ⟨n, hn⟩ : ∃ n, n = min (size : ℕ) kReadBufferSize := ⟨_, rfl⟩
      have hnpos : 0 < n := hn ▸ Nat.lt_min.mpr ⟨size.pos, by decide⟩
      have htotal := congrArg List.length hstream
      rw [List.length_append, List.length_append, List.length_append] at htotal
      have hpipe : pipe.length ≠ 0 := by omega
      have hdata : pipe.take n ≠ [] := by
        rw [← List.length_pos_iff, List.length_take]
        omega
      have hread : text ++ pipe.take n ++ pipe.drop n = body ++ marker ++ tail := by
        rw [List.append_assoc, List.take_append_drop, hstream]
      rw [readLoop]
      simp only [← hn, hdata, if_false, find_seen hmarks hmarker hread hlt]
      by_cases hwhole : body.length + marker.length ≤ text.length + (pipe.take n).length
      · rw [if_pos hwhole]
        cases halts with
        | true => trivial
        | false =>
          refine ⟨limited_seen hread hlt hmarker hwhole, 1, ?_, ?_⟩
          · rw [sizes_cons_bytes, List.take_succ_cons, List.take_zero, List.sum_singleton, ← hn]
            rw [List.length_take] at hwhole
            omega
          · rw [sizes_cons_bytes, List.take_succ_cons, List.take_zero, List.sum_singleton, ← hn,
              ← hstream, ← List.drop_drop, List.drop_left]
      · rw [if_neg hwhole, carryOver_seen]
        -- a read that took less than it asked for would have come to the end of the stream
        have hfull : (pipe.take n).length = n := by
          rw [List.length_take] at hwhole ⊢
          omega
        have hlen : (text ++ pipe.take n).length = text.length + n := by
          rw [List.length_append, hfull]
        have hnext := ih true hread (by rw [hlen]; omega)
        rw [hlen] at hnext
        exact readTo_cons (hn ▸ hnext)

variable (marker) in
theorem seen_nil : seen marker [] = ⟨[], [], false⟩ := by
  rw [seen, List.drop_nil, List.take_nil]
  rfl

end Read

section Poll

variable {marker outputTruncated body tail : Bytes}

def pollSizes (polls : List Poll) : List ℕ :=
  polls.flatMap fun
    | .ready _ reads => sizes reads
    | _ => []

theorem pollLoop_spec (hmarks : Marks marker body) (hmarker : marker ≠ []) (polls : List Poll)
    {text pipe rest output : Bytes} (hstream : text ++ pipe = body ++ marker ++ tail)
    (hlt : text.length < body.length + marker.length)
    (h : pollLoop marker outputTruncated (seen marker text) polls pipe = (some output, rest)) :
    output = shortened outputTruncated body ∧
      ∃ k, body.length + marker.length ≤ text.length + ((pollSizes polls).take k).sum ∧
        rest = (body ++ marker ++ tail).drop (text.length + ((pollSizes polls).take k).sum) := by
  induction polls generalizing text pipe with
  | nil => cases h
  | cons poll polls ih =>
    cases poll with
    | halted => cases h
    | timeout => exact ih hstream hlt h
    | failed => cases h
    | ready hangup reads =>
      have hinner : ReadTo marker outputTruncated body tail text.length reads _ :=
        readLoop_spec hmarks hmarker reads false hstream hlt
      rw [pollLoop] at h
      split at h
      · next returned pipe' hread =>
        rw [hread] at hinner
        cases h
        obtain ⟨hshown, k, hwhole, hrest⟩ := hinner
        obtain ⟨m, hm⟩ : ∃ m, (pollSizes (.ready hangup reads :: polls)).take m =
            (sizes reads).take k := by
          refine ⟨min k (sizes reads).length, ?_⟩
          rw [pollSizes, List.flatMap_cons, List.take_append_of_le_length (Nat.min_le_right _ _),
            ← List.take_eq_take_min]
        exact ⟨hshown, m, by rw [hm]; exact hwhole, by rw [hm]; exact hrest⟩
      · next r' readAny pipe' hread =>
        rw [hread] at hinner
        obtain ⟨text', rfl, hstream', hlt', hlen⟩ := hinner
        split at h
        · cases h
        · obtain ⟨hshown, k, hwhole, hrest⟩ := ih hstream' hlt' h
          have hsum : text.length + ((pollSizes (.ready hangup reads :: polls)).take
              ((sizes reads).length + k)).sum = text'.length + ((pollSizes polls).take k).sum := by
            rw [hlen, pollSizes, List.flatMap_cons, List.take_length_add_append, List.sum_append,
              Nat.add_assoc]
            rfl
          exact ⟨hshown, _, by rw [hsum]; exact hwhole, by rw [hsum]; exact hrest⟩

end Poll

section Execute

variable {noOutput outputTruncated : Bytes}

-- The reply to a command that printed a text.
def reply (noOutput outputTruncated printed : Bytes) : Bytes :=
  if printed = [] then noOutput else shortened outputTruncated printed

theorem markerOf_ne_nil (sequence : ℕ) : markerOf sequence ≠ [] := List.cons_ne_nil _ _

theorem marks_markerOf {sequence : ℕ} {printed : Bytes}
    (h : ¬markerOf sequence <:+: printed) : Marks (markerOf sequence) printed := by
  apply marks_of_not_infix _ h
  rw [List.mem_append, List.mem_append, List.mem_singleton]
  rintro ((hname | hdigit) | hend)
  · exact absurd hname (by decide)
  · exact absurd (Decimal.isDigit_digits sequence 30 hdigit) (by decide)
  · exact absurd hend (by decide)

-- A command that is executed on an empty pipe is answered with what was shown for it, and what is left
-- in the pipe lies behind the last read.
theorem execute_spec {sequence : ℕ} {a : Attempt} {output : Bytes} {s : Session}
    (hshown : ¬markerOf (u64 (sequence + 1)) <:+: a.shown)
    (h : execute noOutput outputTruncated ⟨sequence, []⟩ a = (some output, s)) :
    output = reply noOutput outputTruncated a.shown ∧ s.sequence = u64 (sequence + 1) ∧
      ∃ k, a.shown.length + (markerOf (u64 (sequence + 1))).length ≤
          ((pollSizes a.polls).take k).sum ∧
        s.pipe = (a.shown ++ markerLine (u64 (sequence + 1))).drop
          ((pollSizes a.polls).take k).sum := by
  have hstream : [] ++ ([] ++ a.shown ++ markerLine (u64 (sequence + 1))) =
      a.shown ++ markerOf (u64 (sequence + 1)) ++ [10] := by
    rw [List.nil_append, List.nil_append, markerLine, List.append_assoc]
  have hlt : ([] : Bytes).length <
      a.shown.length + (markerOf (u64 (sequence + 1))).length := by
    have := List.length_pos_iff.mpr (markerOf_ne_nil (u64 (sequence + 1)))
    rw [List.length_nil]
    omega
  rw [execute] at h
  split at h
  · cases h
  · split at h
    · cases h
    · rcases hread : readUntilMarker (markerOf (u64 (sequence + 1))) outputTruncated a.polls
        ([] ++ a.shown ++ markerLine (u64 (sequence + 1))) with ⟨read, pipe⟩
      simp only [hread] at h
      cases read with
      | none => cases h
      | some text =>
        cases h
        rw [readUntilMarker, ← seen_nil (markerOf (u64 (sequence + 1)))] at hread
        obtain ⟨rfl, k, hwhole, hrest⟩ :=
          pollLoop_spec (marks_markerOf hshown) (markerOf_ne_nil _) a.polls hstream hlt hread
        rw [List.length_nil, Nat.zero_add] at hwhole hrest
        refine ⟨?_, rfl, k, hwhole, ?_⟩
        · rw [reply]
          dsimp only
          by_cases hnone : a.shown = []
          · rw [if_pos (shortened_eq_nil.mpr hnone), if_pos hnone]
          · rw [if_neg (mt shortened_eq_nil.mp hnone), if_neg hnone]
        · rw [hrest, markerLine, List.append_assoc]

-- The condition on a run from a sequence number: nobody prints the marker before its time, and no
-- read but those of the last command ends between a marker and the newline behind it.
def Settled (sequence : ℕ) : List Attempt → Prop
  | [] => True
  | a :: rest =>
    ¬markerOf (u64 (sequence + 1)) <:+: a.shown ∧
      (rest ≠ [] → ∀ k, ((pollSizes a.polls).take k).sum ≠
        a.shown.length + (markerOf (u64 (sequence + 1))).length) ∧
      Settled (u64 (sequence + 1)) rest

theorem executeAll_of_settled (attempts : List Attempt) (sequence : ℕ)
    (hok : none ∉ executeAll noOutput outputTruncated ⟨sequence, []⟩ attempts)
    (hsettled : Settled sequence attempts) :
    executeAll noOutput outputTruncated ⟨sequence, []⟩ attempts =
      attempts.map fun a => some (reply noOutput outputTruncated a.shown) := by
  induction attempts generalizing sequence with
  | nil => rfl
  | cons a rest ih =>
    obtain ⟨hshown, hcut, hrest⟩ := hsettled
    rw [executeAll, List.mem_cons, not_or] at hok
    rw [executeAll, List.map_cons]
    rcases hexecute : execute noOutput outputTruncated ⟨sequence, []⟩ a with ⟨output, s⟩
    rw [hexecute] at hok
    obtain ⟨text, rfl⟩ := Option.ne_none_iff_exists'.mp (Ne.symm hok.1)
    obtain ⟨hreply, hsequence, k, hwhole, hpipe⟩ := execute_spec hshown hexecute
    rw [hreply]
    congr 1
    by_cases hlast : rest = []
    · subst hlast
      rfl
    · have hempty : s = ⟨u64 (sequence + 1), []⟩ := by
        have hne := hcut hlast k
        have hdrained : s.pipe = [] := by
          rw [hpipe]
          apply List.drop_eq_nil_of_le
          rw [markerLine, List.length_append, List.length_append, List.length_singleton]
          omega
        obtain ⟨number, left⟩ := s
        rw [Session.mk.injEq]
        exact ⟨hsequence, hdrained⟩
      rw [hempty] at hok
      rw [hempty]
      exact ih _ hok.2 hrest

-- In a session whose commands all succeed, each one for which the shell writes nothing of its own
-- is answered with what it printed.
theorem replies_exact (noOutput outputTruncated : Bytes) (attempts : List Attempt)
    (hok : none ∉ executeAll noOutput outputTruncated .started attempts)
    (hsettled : Settled 0 attempts) (i : ℕ) (hi : i < attempts.length)
    (hquiet : attempts[i].Quiet) :
    (executeAll noOutput outputTruncated .started attempts)[i]? =
      some (some (reply noOutput outputTruncated attempts[i].printed)) := by
  rw [Session.started, executeAll_of_settled attempts 0 hok hsettled, List.getElem?_map,
    List.getElem?_eq_getElem hi, Option.map_some, Attempt.shown_of_quiet hquiet]

-- What `bash -i` writes by itself when no terminal is there, up to the end of its first line. With
-- this line it stops to echo its input.
def noticed : Bytes :=
  Bytes.ascii "bash: cannot set terminal process group (-1): Inappropriate ioctl for device\n" ++
    Bytes.ascii "bash: no job control in this shell\nset +o emacs +o vi\n"

-- Three commands, of which the second is read in one piece of the given size.
def echoes (second : ℕ+) : List Attempt :=
  [⟨Bytes.ascii "set +o emacs +o vi", true, true, [(noticed, [])],
      [.ready false [.bytes 4096 false]]⟩,
    ⟨Bytes.ascii "echo a", true, true, [([], Bytes.ascii "a\n")],
      [.ready false [.bytes second false]]⟩,
    ⟨Bytes.ascii "echo b", true, true, [([], Bytes.ascii "b\n")],
      [.ready false [.bytes 4096 false]]⟩]

theorem replies_exact_echoes :
    (executeAll (Bytes.ascii "(no output)") (Bytes.ascii "(truncated)") .started
      (echoes 4096))[2]? = some (some (Bytes.ascii "b\n")) := by
  have hcut : ∀ n, 0 ≠ n → 4096 ≠ n → ∀ k,
      ((pollSizes [.ready false [.bytes 4096 false]]).take k).sum ≠ n := by
    intro n hzero hread k
    cases k with
    | zero => exact hzero
    | succ k =>
      have hsizes : pollSizes [.ready false [.bytes 4096 false]] = [4096] := rfl
      rw [hsizes, List.take_succ_cons, List.take_nil]
      exact hread
  have hsettled : Settled 0 (echoes 4096) :=
    ⟨by decide +kernel, fun _ => hcut _ (by decide +kernel) (by decide +kernel), by decide +kernel,
      fun _ => hcut _ (by decide +kernel) (by decide +kernel), by decide +kernel,
      fun hne => absurd rfl hne, trivial⟩
  exact replies_exact _ _ (echoes 4096) (by decide +kernel) hsettled 2 (by decide)
    (List.forall_mem_singleton.mpr rfl)

theorem replies_newline_left :
    executeAll (Bytes.ascii "(no output)") (Bytes.ascii "(truncated)") .started (echoes 18) =
        [some noticed, some (Bytes.ascii "a\n"), some (Bytes.ascii "\nb\n")] ∧
      ¬∀ (noOutput outputTruncated : Bytes) (attempts : List Attempt),
        none ∉ executeAll noOutput outputTruncated .started attempts →
          ∀ (i : ℕ) (hi : i < attempts.length), attempts[i].Quiet →
            (executeAll noOutput outputTruncated .started attempts)[i]? =
              some (some (reply noOutput outputTruncated attempts[i].printed)) := by
  have hreplies : executeAll (Bytes.ascii "(no output)") (Bytes.ascii "(truncated)") .started
      (echoes 18) = [some noticed, some (Bytes.ascii "a\n"), some (Bytes.ascii "\nb\n")] := by
    decide +kernel
  refine ⟨hreplies, fun h => ?_⟩
  have hoff := h _ _ (echoes 18) (by rw [hreplies]; decide +kernel) 2 (by decide)
    (List.forall_mem_singleton.mpr rfl)
  rw [hreplies] at hoff
  exact absurd hoff (by decide +kernel)

end Execute

end Glider.Ibash

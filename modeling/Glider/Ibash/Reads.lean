import Glider.Ibash.Session

namespace Glider.Ibash

open Lib

-- A turn that neither a stop, the end of the session, the deadline nor an error cuts short.
def Read.Quiet : Read → Prop
  | .bytes _ halts => halts = false
  | .interrupted => True
  | .halted | .failed => False

-- Where the other end hangs up, there is something to read.
def Poll.Quiet : Poll → Prop
  | .ready hangup reads => (∀ read ∈ reads, read.Quiet) ∧ (hangup = true → sizes reads ≠ [])
  | .timeout => True
  | .halted | .failed => False

section Quiet

variable {marker outputTruncated : Bytes} {reads : List Read}

theorem readLoop_ne_none (hquiet : ∀ read ∈ reads, read.Quiet) (r : Reading) (readAny : Bool)
    (pipe rest : Bytes) :
    readLoop marker outputTruncated r readAny reads pipe ≠ (.returned none, rest) := by
  induction reads generalizing r readAny pipe with
  | nil => exact fun he => by cases he
  | cons read reads ih =>
    obtain ⟨hread, hrest⟩ := List.forall_mem_cons.mp hquiet
    cases read with
    | halted | failed => exact hread.elim
    | interrupted => exact ih hrest r readAny pipe
    | bytes size halts =>
      obtain rfl : halts = false := hread
      rw [readLoop]
      split
      · exact fun he => by cases he
      · cases hfind : find marker (r.carry ++ pipe.take (min size kReadBufferSize)) with
        | some markerPos =>
          simp only [hfind, Bool.false_eq_true, if_false]
          exact fun he => by cases he
        | none =>
          simp only [hfind]
          exact ih hrest _ _ _

-- A turn that has read nothing had nothing to read.
theorem readLoop_readAny {r r' : Reading} {readAny : Bool} {pipe rest : Bytes}
    (h : readLoop marker outputTruncated r readAny reads pipe = (.again r' false, rest)) :
    readAny = false ∧ (sizes reads = [] ∨ pipe = []) := by
  induction reads generalizing r readAny pipe with
  | nil =>
    cases h
    exact ⟨rfl, .inl rfl⟩
  | cons read reads ih =>
    cases read with
    | halted | failed => cases h
    | interrupted => exact ih h
    | bytes size halts =>
      rw [readLoop] at h
      split at h
      · next hdata =>
        cases h
        refine ⟨rfl, .inr ?_⟩
        have hpos : 0 < min (size : ℕ) kReadBufferSize := Nat.lt_min.mpr ⟨size.pos, by decide⟩
        exact (List.take_eq_nil_iff.mp hdata).resolve_left (Nat.ne_of_gt hpos)
      · cases hfind : find marker (r.carry ++ pipe.take (min size kReadBufferSize)) with
        | some markerPos =>
          simp only [hfind] at h
          cases halts <;> cases h
        | none =>
          simp only [hfind] at h
          cases (ih h).1

end Quiet

section Delivered

variable {marker outputTruncated body tail : Bytes}

theorem pollLoop_delivered (hmarks : Marks marker body) (hmarker : marker ≠ []) (polls : List Poll)
    (hquiet : ∀ poll ∈ polls, poll.Quiet) {text pipe : Bytes}
    (hstream : text ++ pipe = body ++ marker ++ tail)
    (hlt : text.length < body.length + marker.length)
    (hwhole : body.length + marker.length ≤ text.length + (pollSizes polls).sum) :
    (pollLoop marker outputTruncated (seen marker text) polls pipe).1 =
      some (shortened outputTruncated body) := by
  induction polls generalizing text pipe with
  | nil => exact absurd hwhole (Nat.not_le.mpr hlt)
  | cons poll polls ih =>
    obtain ⟨hpoll, hrest⟩ := List.forall_mem_cons.mp hquiet
    cases poll with
    | halted | failed => exact hpoll.elim
    | timeout => exact ih hrest hstream hlt hwhole
    | ready hangup reads =>
      obtain ⟨hreads, hhangup⟩ := hpoll
      have hinner : ReadTo marker outputTruncated body tail text.length reads _ :=
        readLoop_spec hmarks hmarker reads false hstream hlt
      rw [pollLoop]
      split
      · next returned rest hread =>
        rw [hread] at hinner
        cases returned with
        | none => exact absurd hread (readLoop_ne_none hreads _ _ _ _)
        | some output => exact congrArg some hinner.1
      · next r' readAny rest hread =>
        rw [hread] at hinner
        obtain ⟨text', rfl, hstream', hlt', hlen⟩ := hinner
        rw [if_neg]
        · apply ih hrest hstream' hlt'
          have hsum : (pollSizes (.ready hangup reads :: polls)).sum =
              (sizes reads).sum + (pollSizes polls).sum := by
            rw [pollSizes, List.flatMap_cons, List.sum_append]
            rfl
          rw [hsum] at hwhole
          omega
        · intro hgone
          obtain ⟨hnone, hup⟩ := Bool.and_eq_true_iff.mp hgone
          obtain rfl := (Bool.not_eq_true' _).mp hnone
          rcases (readLoop_readAny hread).2 with hsizes | rfl
          · exact hhangup hup hsizes
          · have htotal := congrArg List.length hstream
            simp only [List.length_append, List.length_nil] at htotal
            omega

-- The first place of the marker in a stream is the first one whatever stands behind it.
theorem marks_of_first {stream : Bytes} {p : ℕ} (hbefore : ∀ q < p, ¬marker <+: stream.drop q)
    (hstream : body ++ marker ++ tail = stream) (hp : body.length = p) : Marks marker body := by
  intro q hq tail' hat
  apply hbefore q (hp ▸ hq)
  have hinside : q ≤ (body ++ marker).length := by
    rw [List.length_append]
    omega
  rw [List.drop_append_of_le_length hinside] at hat
  have hshort : marker <+: (body ++ marker).drop q :=
    List.prefix_of_prefix_length_le hat (List.prefix_append _ _)
      (by rw [List.length_drop, List.length_append]; omega)
  rw [← hstream, List.drop_append_of_le_length hinside]
  exact hshort.trans (List.prefix_append _ _)

-- However a stream comes in: what is returned is the text in front of the first marker in it.
theorem readUntilMarker_exact (marker outputTruncated stream : Bytes) (p : ℕ) (polls : List Poll)
    (hmarker : marker ≠ []) (hat : marker <+: stream.drop p)
    (hbefore : ∀ q < p, ¬marker <+: stream.drop q)
    (hsuffix : (10 :: outputTruncated).length < kMaxOutputSize)
    (hquiet : ∀ poll ∈ polls, poll.Quiet)
    (hdelivered : p + marker.length ≤ (pollSizes polls).sum) :
    (readUntilMarker marker outputTruncated polls stream).1 =
      some (if p ≤ kMaxOutputSize then stream.take p
        else stream.take (kMaxOutputSize - (10 :: outputTruncated).length) ++
          10 :: outputTruncated) := by
  obtain ⟨tail, htail⟩ := hat
  have hpos := List.length_pos_iff.mpr hmarker
  have hp : (stream.take p).length = p := by
    have hlen := congrArg List.length htail
    rw [List.length_append, List.length_drop] at hlen
    rw [List.length_take]
    omega
  have hstream : stream.take p ++ marker ++ tail = stream := by
    rw [List.append_assoc, htail, List.take_append_drop]
  have hstart : (stream.take p).length + marker.length ≤
      ([] : Bytes).length + (pollSizes polls).sum := by
    rw [List.length_nil, hp]
    omega
  have hread := @pollLoop_delivered marker outputTruncated (stream.take p) tail
    (marks_of_first hbefore hstream hp) hmarker polls hquiet [] stream hstream.symm
    (by rw [List.length_nil]; omega) hstart
  rw [readUntilMarker, ← seen_nil marker, hread, shortened, hp]
  congr 1
  split
  · rfl
  · next hlong =>
    have hcut : (stream.take p).take (kMaxOutputSize - (10 :: outputTruncated).length) =
        stream.take (kMaxOutputSize - (10 :: outputTruncated).length) := by
      rw [List.take_take, Nat.min_eq_left (by omega)]
    dsimp only
    rw [hcut]
    apply List.take_of_length_le
    rw [List.length_append, List.length_take]
    omega

-- The marker straddles the two reads.
theorem readUntilMarker_exact_straddling :
    (readUntilMarker [7, 8] [46] [.timeout, .ready false [.bytes 3 false, .interrupted, .bytes 2 false]]
      [97, 98, 7, 8, 10]).1 = some [97, 98] := by
  refine readUntilMarker_exact [7, 8] [46] [97, 98, 7, 8, 10] 2 _ (by decide) (by decide) ?_
    (by decide) ?_ (by decide)
  · decide
  · simp [Poll.Quiet, Read.Quiet]

end Delivered

end Glider.Ibash

import Glider.Api.MarkdownV2
import Glider.Lib.Utf8
import Glider.Lib.Word

namespace Glider.Llm.TelegramOutput

open Lib
open Bytes (ascii)

def kTelegramTextLimit : ℕ := 4096

def kRawMarkdownChunkBytes : ℕ := 2000

def kPlainChunkBytes : ℕ := 4000

def kMaxTelegramChunks : ℕ := 4

def kTruncatedMarker : Bytes := ascii "\n[response truncated]"

-- The bytes of a `std::string_view`: no object has more than `PTRDIFF_MAX`.
structure StringView where
  bytes : Bytes
  size_lt : bytes.length < 2 ^ 63

def isUtf8Continuation (ch : UInt8) : Bool := ch &&& 0xC0 = 0x80

section Split

variable (text : Bytes)

-- The loop that moves a cut back over continuation bytes, down to `start` at most.
def backUp (start : ℕ) : ℕ → ℕ
  | 0 => 0
  | cut + 1 =>
    if start < cut + 1 ∧ text[cut + 1]?.any isUtf8Continuation = true then backUp start cut
    else cut + 1

variable (maxBytes : ℕ)

-- Where the chunk ends that begins at `start`.
def chunkEnd (start : ℕ) : ℕ :=
  let full := min (u64 (start + maxBytes)) text.length
  let cut := if full < text.length then backUp text start full else full
  if cut = start then full else cut

-- The loop over the chunks; `none` when the fuel does not last.
def chunksFrom : ℕ → ℕ → Option (List Bytes)
  | 0, _ => none
  | fuel + 1, start =>
    if start < text.length then
      let cut := chunkEnd text maxBytes start
      (chunksFrom fuel cut).map ((text.drop start).take (u64Sub cut start) :: ·)
    else some []

def splitUtf8 (maxBytes : UInt64) : Option (List Bytes) :=
  if text = [] then some []
  else chunksFrom text (max maxBytes.toNat 4) (text.length + 1) 0

-- The text that is split: a long one is cut off and marked.
def bounded (chunkBytes : ℕ) : Bytes :=
  let maxBytes := chunkBytes * kMaxTelegramChunks
  if text.length ≤ maxBytes then text
  else text.take (backUp text 0 (maxBytes - kTruncatedMarker.length)) ++ kTruncatedMarker

def splitBounded (chunkBytes : ℕ) : Option (List Bytes) :=
  splitUtf8 (bounded text chunkBytes) (.ofNat chunkBytes)

def splitForMarkdown : Option (List Bytes) := splitBounded text kRawMarkdownChunkBytes

def splitPlain : Option (List Bytes) := splitBounded text kPlainChunkBytes

end Split

section BackUp

variable {text : Bytes} {start cut : ℕ}

-- The cut stands in front of a byte that starts a character, or nothing but continuation bytes
-- has been passed over.
theorem backUp_spec (h : start ≤ cut) :
    start ≤ backUp text start cut ∧ backUp text start cut ≤ cut ∧
      (∀ i, backUp text start cut < i → i ≤ cut → text[i]?.any isUtf8Continuation = true) ∧
      (backUp text start cut = start ∨
        text[backUp text start cut]?.any isUtf8Continuation = false) := by
  induction cut with
  | zero =>
    obtain rfl := Nat.le_zero.mp h
    exact ⟨Nat.le_refl 0, Nat.le_refl 0, fun i h0 hi => absurd h0 (Nat.not_lt.mpr hi), .inl rfl⟩
  | succ cut ih =>
    rw [backUp]
    split
    · next hgoes =>
      obtain ⟨hlo, hhi, hpassed, hstops⟩ := ih (Nat.le_of_lt_succ hgoes.1)
      refine ⟨hlo, hhi.trans (Nat.le_succ _), fun i hi hle => ?_, hstops⟩
      rcases Nat.lt_or_eq_of_le hle with hlt | rfl
      · exact hpassed i hi (Nat.le_of_lt_succ hlt)
      · exact hgoes.2
    · next hstops =>
      refine ⟨h, Nat.le_refl _, fun i hi hle => absurd hi (Nat.not_lt.mpr hle), ?_⟩
      rw [← Bool.not_eq_true, or_iff_not_imp_right, not_not]
      intro hcontinues
      exact Nat.le_antisymm (Nat.le_of_not_lt fun hlt => hstops ⟨hlt, hcontinues⟩) h

-- In valid text the cut moves back to the nearest place between two characters.
theorem backUp_greatest (hvalid : Utf8.Valid text) (hcut : cut ≤ text.length)
    (hstart : start = 0 ∨ start + 3 < cut) :
    Utf8.Boundary text (backUp text start cut) ∧
      ∀ n, Utf8.Boundary text n → n ≤ cut → n ≤ backUp text start cut := by
  obtain ⟨-, hhi, hpassed, hstops⟩ := @backUp_spec text start cut (by omega)
  have hgreatest : ∀ n, Utf8.Boundary text n → n ≤ cut → n ≤ backUp text start cut := by
    intro n hn hle
    by_contra hlt
    obtain ⟨b, hb, hcontinues⟩ := (Option.any_eq_true _ _).mp (hpassed n (Nat.lt_of_not_le hlt) hle)
    have hnot : Utf8.isContinuation b = false := ((Utf8.boundary_iff hvalid).mp hn).2 b hb
    exact absurd hcontinues (Bool.eq_false_iff.mp hnot)
  refine ⟨?_, hgreatest⟩
  rcases hstops with heq | hstop
  · obtain ⟨m, hm, hle, hnear⟩ := Utf8.exists_boundary_near hvalid hcut
    have hm' := hgreatest m hm hle
    obtain rfl : start = 0 := by omega
    rw [heq]
    exact Utf8.boundary_zero hvalid
  · refine (Utf8.boundary_iff hvalid).mpr ⟨hhi.trans hcut, fun b hb => ?_⟩
    rw [hb] at hstop
    exact hstop

end BackUp

section ChunkEnd

variable {text : Bytes} {maxBytes start : ℕ}

theorem chunkEnd_of_le (hfits : start + maxBytes < 2 ^ 64) (hlast : text.length ≤ start + maxBytes) :
    chunkEnd text maxBytes start = text.length := by
  rw [chunkEnd, u64_of_lt hfits, Nat.min_eq_right hlast]
  simp only [Nat.lt_irrefl, if_false]
  split <;> rfl

theorem chunkEnd_of_lt (hfits : start + maxBytes < 2 ^ 64) (hmore : start + maxBytes < text.length) :
    chunkEnd text maxBytes start =
      if backUp text start (start + maxBytes) = start then start + maxBytes
      else backUp text start (start + maxBytes) := by
  rw [chunkEnd, u64_of_lt hfits, Nat.min_eq_left (Nat.le_of_lt hmore)]
  simp only [hmore, if_true]

theorem chunkEnd_bounds (hpos : 0 < maxBytes) (hfits : start + maxBytes < 2 ^ 64)
    (hstart : start < text.length) :
    start < chunkEnd text maxBytes start ∧ chunkEnd text maxBytes start ≤ start + maxBytes ∧
      chunkEnd text maxBytes start ≤ text.length := by
  rcases Nat.lt_or_ge (start + maxBytes) text.length with hmore | hlast
  · obtain ⟨hlo, hhi, -⟩ := @backUp_spec text start (start + maxBytes) (Nat.le_add_right _ _)
    rw [chunkEnd_of_lt hfits hmore]
    split <;> omega
  · rw [chunkEnd_of_le hfits hlast]
    omega

-- The sum of a later chunk cannot wrap: there is one only if the text is longer than a chunk.
theorem lt_of_chunkEnd_lt (hfits : start + maxBytes < 2 ^ 64)
    (hnext : chunkEnd text maxBytes start < text.length) : start + maxBytes < text.length := by
  by_contra hlast
  rw [chunkEnd_of_le hfits (Nat.le_of_not_lt hlast)] at hnext
  exact Nat.lt_irrefl _ hnext

-- In valid text a chunk goes as far as it can.
theorem chunkEnd_greatest (hvalid : Utf8.Valid text) (hmax : 4 ≤ maxBytes)
    (hfits : start + maxBytes < 2 ^ 64) :
    Utf8.Boundary text (chunkEnd text maxBytes start) ∧
      ∀ n, Utf8.Boundary text n → n ≤ start + maxBytes → n ≤ chunkEnd text maxBytes start := by
  rcases Nat.lt_or_ge (start + maxBytes) text.length with hmore | hlast
  · have hcut := Nat.le_of_lt hmore
    have hbefore : start + 3 < start + maxBytes := by omega
    obtain ⟨m, hm, hle, hnear⟩ := Utf8.exists_boundary_near hvalid hcut
    have hgreatest := backUp_greatest hvalid hcut (.inr hbefore)
    have hstart := hgreatest.2 m hm hle
    rw [chunkEnd_of_lt hfits hmore, if_neg (by omega)]
    exact hgreatest
  · rw [chunkEnd_of_le hfits hlast]
    exact ⟨Utf8.boundary_length hvalid, fun n hn _ => hn.1⟩

end ChunkEnd

section Chunks

variable {text : Bytes} {maxBytes start : ℕ}

-- What the loop puts out for the text from `start` on.
structure Chunks (text : Bytes) (maxBytes start : ℕ) (chunks : List Bytes) : Prop where
  flatten : chunks.flatten = text.drop start
  nonempty : ∀ chunk ∈ chunks, chunk ≠ []
  size : ∀ chunk ∈ chunks, chunk.length ≤ maxBytes
  valid : Utf8.Valid text → Utf8.Boundary text start → ∀ chunk ∈ chunks, Utf8.Valid chunk

theorem chunks_nil (h : text.length ≤ start) : Chunks text maxBytes start [] where
  flatten := (List.drop_eq_nil_of_le h).symm
  nonempty := nofun
  size := nofun
  valid := nofun

theorem Chunks.cons {chunks : List Bytes} {cut : ℕ} (h : Chunks text maxBytes cut chunks)
    (hlo : start < cut) (hhi : cut ≤ start + maxBytes) (hin : cut ≤ text.length)
    (hcut : Utf8.Valid text → Utf8.Boundary text cut) :
    Chunks text maxBytes start ((text.drop start).take (cut - start) :: chunks) where
  flatten := by
    have hdrop : text.drop cut = (text.drop start).drop (cut - start) := by
      rw [List.drop_drop, Nat.add_sub_cancel' (Nat.le_of_lt hlo)]
    rw [List.flatten_cons, h.flatten, hdrop, List.take_append_drop]
  nonempty := by
    refine List.forall_mem_cons.mpr ⟨?_, h.nonempty⟩
    rw [← List.length_pos_iff, List.length_take, List.length_drop]
    omega
  size := by
    refine List.forall_mem_cons.mpr ⟨?_, h.size⟩
    rw [List.length_take]
    omega
  valid hvalid hstart := by
    refine List.forall_mem_cons.mpr ⟨?_, h.valid hvalid (hcut hvalid)⟩
    exact hstart.valid_between (hcut hvalid) (Nat.le_of_lt hlo)

theorem chunksFrom_of_lt (hstart : start < text.length) (fuel : ℕ) :
    chunksFrom text maxBytes (fuel + 1) start =
      (chunksFrom text maxBytes fuel (chunkEnd text maxBytes start)).map
        ((text.drop start).take (u64Sub (chunkEnd text maxBytes start) start) :: ·) :=
  if_pos hstart

-- The loop ends: each turn takes at least one byte off the text.
theorem chunksFrom_total (hsize : text.length < 2 ^ 63) (hmax : 4 ≤ maxBytes)
    (hfits : start + maxBytes < 2 ^ 64) :
    ∃ chunks, (∀ fuel, text.length - start < fuel →
      chunksFrom text maxBytes fuel start = some chunks) ∧ Chunks text maxBytes start chunks := by
  obtain ⟨left, hleft⟩ : ∃ left, left = text.length - start := ⟨_, rfl⟩
  induction left using Nat.strongRecOn generalizing start with
  | ind left ih =>
    by_cases hstart : start < text.length
    · obtain ⟨hlo, hhi, hin⟩ := chunkEnd_bounds (by omega) hfits hstart
      obtain ⟨rest, hrest, hchunks⟩ : ∃ rest, (∀ fuel, text.length - chunkEnd text maxBytes start <
          fuel → chunksFrom text maxBytes fuel (chunkEnd text maxBytes start) = some rest) ∧
          Chunks text maxBytes (chunkEnd text maxBytes start) rest := by
        by_cases hnext : chunkEnd text maxBytes start < text.length
        · have hmore := lt_of_chunkEnd_lt hfits hnext
          exact ih _ (by omega) (by omega) rfl
        · refine ⟨[], fun fuel hfuel => ?_, chunks_nil (Nat.le_of_not_lt hnext)⟩
          obtain ⟨fuel, rfl⟩ := Nat.exists_eq_succ_of_ne_zero (Nat.ne_zero_of_lt hfuel)
          exact if_neg hnext
      refine ⟨_, fun fuel hfuel => ?_, hchunks.cons hlo hhi hin fun hvalid =>
        (chunkEnd_greatest hvalid hmax hfits).1⟩
      obtain ⟨fuel, rfl⟩ := Nat.exists_eq_succ_of_ne_zero (Nat.ne_zero_of_lt hfuel)
      rw [chunksFrom_of_lt hstart, hrest fuel (by omega), Option.map_some,
        u64Sub_of_le (by omega) (Nat.le_of_lt hlo)]
    · refine ⟨[], fun fuel hfuel => ?_, chunks_nil (Nat.le_of_not_lt hstart)⟩
      obtain ⟨fuel, rfl⟩ := Nat.exists_eq_succ_of_ne_zero (Nat.ne_zero_of_lt hfuel)
      exact if_neg hstart

theorem splitUtf8_total (hsize : text.length < 2 ^ 63) (maxBytes : UInt64) :
    ∃ chunks, splitUtf8 text maxBytes = some chunks ∧
      (∀ fuel, text.length < fuel →
        chunksFrom text (max maxBytes.toNat 4) fuel 0 = some chunks) ∧
      Chunks text (max maxBytes.toNat 4) 0 chunks := by
  have hbound := maxBytes.toNat_lt
  obtain ⟨chunks, hchunks, hspec⟩ :=
    @chunksFrom_total text (max maxBytes.toNat 4) 0 hsize (Nat.le_max_right _ _) (by omega)
  refine ⟨chunks, ?_, fun fuel hfuel => hchunks fuel (by omega), hspec⟩
  rw [splitUtf8]
  split
  · next hnil =>
    have hnone := hchunks 1 (by rw [hnil]; decide)
    rw [hnil] at hnone
    exact hnone
  · exact hchunks _ (by omega)

end Chunks

section Bounded

variable {text : Bytes} {chunkBytes : ℕ}

theorem bounded_of_le (h : text.length ≤ chunkBytes * kMaxTelegramChunks) :
    bounded text chunkBytes = text := if_pos h

theorem length_bounded_le (h : kTruncatedMarker.length ≤ chunkBytes * kMaxTelegramChunks) :
    (bounded text chunkBytes).length ≤ chunkBytes * kMaxTelegramChunks := by
  rw [bounded]
  split
  · assumption
  · obtain ⟨-, hcut, -⟩ := @backUp_spec text 0
      (chunkBytes * kMaxTelegramChunks - kTruncatedMarker.length) (Nat.zero_le _)
    rw [List.length_append, List.length_take]
    omega

-- A long text is cut off where the marker still fits, in front of a character.
theorem bounded_of_lt (hvalid : Utf8.Valid text)
    (h : chunkBytes * kMaxTelegramChunks < text.length) :
    ∃ cut, bounded text chunkBytes = text.take cut ++ kTruncatedMarker ∧
      Utf8.Boundary text cut ∧ cut ≤ chunkBytes * kMaxTelegramChunks - kTruncatedMarker.length ∧
      ∀ n, Utf8.Boundary text n →
        n ≤ chunkBytes * kMaxTelegramChunks - kTruncatedMarker.length → n ≤ cut := by
  obtain ⟨hcut, hgreatest⟩ := @backUp_greatest text 0
    (chunkBytes * kMaxTelegramChunks - kTruncatedMarker.length) hvalid (by omega) (.inl rfl)
  exact ⟨_, if_neg (Nat.not_le.mpr h), hcut, (backUp_spec (Nat.zero_le _)).2.1, hgreatest⟩

theorem splitForMarkdown_total (text : Bytes) :
    ∃ chunks, splitForMarkdown text = some chunks ∧
      Chunks (bounded text kRawMarkdownChunkBytes) kRawMarkdownChunkBytes 0 chunks := by
  have hlen : (bounded text kRawMarkdownChunkBytes).length ≤
      kRawMarkdownChunkBytes * kMaxTelegramChunks := length_bounded_le (by decide)
  have hsmall : kRawMarkdownChunkBytes * kMaxTelegramChunks < 2 ^ 63 := by decide
  obtain ⟨chunks, hchunks, -, hspec⟩ := splitUtf8_total (Nat.lt_of_le_of_lt hlen hsmall)
    (.ofNat kRawMarkdownChunkBytes)
  exact ⟨chunks, hchunks, hspec⟩

end Bounded

section Exact

open Api.MarkdownV2 (escape length_escape_le)

variable {absl : Absl}

-- The chunks of a text are the text, cut into valid pieces that are neither empty nor too long;
-- those of an answer fit into a message when they are escaped.
theorem chunks_exact (h : absl.Documented) :
    (∀ (text : StringView) (maxBytes : UInt64), ∃ chunks,
      splitUtf8 text.bytes maxBytes = some chunks ∧
        (∀ chunk ∈ chunks, chunk ≠ [] ∧ chunk.length ≤ max maxBytes.toNat 4) ∧
        chunks.flatten = text.bytes ∧
        (Utf8.Valid text.bytes → ∀ chunk ∈ chunks, Utf8.Valid chunk)) ∧
      (∀ text : StringView, text.bytes.length ≤ 8000 → ∃ chunks,
        splitForMarkdown text.bytes = some chunks ∧
          (∀ chunk ∈ chunks, (escape absl chunk).length ≤ kTelegramTextLimit) ∧
          chunks.flatten = text.bytes) ∧
      ∀ text : StringView, 8000 < text.bytes.length → Utf8.Valid text.bytes → ∃ chunks front,
        splitForMarkdown text.bytes = some chunks ∧ Utf8.Valid front ∧ front <+: text.bytes ∧
          chunks.flatten = front ++ kTruncatedMarker ∧ chunks.flatten.length ≤ 8000 := by
  refine ⟨fun text maxBytes => ?_, fun text hlen => ?_, fun text hlen hvalid => ?_⟩
  · obtain ⟨chunks, hchunks, -, hspec⟩ := splitUtf8_total text.size_lt maxBytes
    refine ⟨chunks, hchunks, fun chunk hchunk => ?_, hspec.flatten, fun hvalid => ?_⟩
    · exact ⟨hspec.nonempty chunk hchunk, hspec.size chunk hchunk⟩
    · exact hspec.valid hvalid (Utf8.boundary_zero hvalid)
  · obtain ⟨chunks, hchunks, hspec⟩ := splitForMarkdown_total text.bytes
    rw [bounded_of_le hlen] at hspec
    refine ⟨chunks, hchunks, fun chunk hchunk => ?_, hspec.flatten⟩
    have hescaped := length_escape_le h chunk
    have hsize : chunk.length ≤ 2000 := hspec.size chunk hchunk
    exact hescaped.trans ((Nat.mul_le_mul_left 2 hsize).trans (by decide))
  · obtain ⟨chunks, hchunks, hspec⟩ := splitForMarkdown_total text.bytes
    obtain ⟨cut, hbounded, hcut, -, -⟩ :=
      @bounded_of_lt text.bytes kRawMarkdownChunkBytes hvalid hlen
    have hflatten := hspec.flatten
    rw [List.drop_zero] at hflatten
    refine ⟨chunks, text.bytes.take cut, hchunks, hcut.2.1, List.take_prefix _ _, ?_, ?_⟩
    · rw [hflatten, hbounded]
    · rw [hflatten]
      exact @length_bounded_le text.bytes kRawMarkdownChunkBytes (by decide)

theorem chunks_exact_stars :
    splitForMarkdown (ascii "*a*") = some [ascii "*a*"] ∧
      escape Absl.reference (ascii "*a*") = ascii "\\*a\\*" ∧
      ∃ chunks, splitForMarkdown (ascii "*a*") = some chunks ∧
        (∀ chunk ∈ chunks, (escape Absl.reference chunk).length ≤ kTelegramTextLimit) ∧
        chunks.flatten = ascii "*a*" :=
  ⟨by decide, by decide,
    (chunks_exact Absl.reference_documented).2.1 ⟨ascii "*a*", by decide⟩ (by decide)⟩

end Exact

section Count

variable {text : Bytes} {maxBytes start : ℕ}

-- The place that the loop has come to after one more turn.
def advance (text : Bytes) (maxBytes start : ℕ) : ℕ :=
  if start < text.length then chunkEnd text maxBytes start else start

theorem length_chunksFrom {fuel n : ℕ} {chunks : List Bytes}
    (h : chunksFrom text maxBytes fuel start = some chunks) :
    chunks.length ≤ n ↔ text.length ≤ (advance text maxBytes)^[n] start := by
  induction fuel generalizing n start chunks with
  | zero => cases h
  | succ fuel ih =>
    by_cases hstart : start < text.length
    · rw [chunksFrom_of_lt hstart, Option.map_eq_some_iff] at h
      obtain ⟨rest, hrest, rfl⟩ := h
      cases n with
      | zero => exact iff_of_false (Nat.not_succ_le_zero _) (Nat.not_le.mpr hstart)
      | succ n =>
        have hnext : advance text maxBytes start = chunkEnd text maxBytes start := if_pos hstart
        rw [List.length_cons, Nat.succ_le_succ_iff, Function.iterate_succ_apply, hnext]
        exact ih hrest
    · have hsame : advance text maxBytes start = start := if_neg hstart
      have hfixed : (advance text maxBytes)^[n] start = start := Function.iterate_fixed hsame n
      obtain rfl := Option.some.inj ((if_neg hstart).symm.trans h)
      rw [hfixed]
      exact iff_of_true (Nat.zero_le n) (Nat.le_of_not_lt hstart)

-- A place between characters that can be come to from the start of the text in so many parts of
-- at most `limit` bytes.
def Stops (text : Bytes) (limit : ℕ) : ℕ → ℕ → Prop
  | 0, place => place = 0
  | n + 1, place =>
    Utf8.Boundary text place ∧ ∃ before, Stops text limit n before ∧ place ≤ before + limit

theorem Stops.le_mul {n place : ℕ} {limit : ℕ} (h : Stops text limit n place) :
    place ≤ n * limit := by
  induction n generalizing place with
  | zero => exact Nat.le_of_eq (h.trans (Nat.zero_mul _).symm)
  | succ n ih =>
    obtain ⟨-, before, hbefore, hle⟩ := h
    have hn := ih hbefore
    rw [Nat.succ_mul]
    omega

-- The loop goes as far as any way of cutting the text between characters.
theorem stops_advance (hvalid : Utf8.Valid text) (hsize : text.length < 2 ^ 63) (hmax : 4 ≤ maxBytes)
    (hbound : maxBytes < 2 ^ 63) (n : ℕ) :
    Stops text maxBytes n ((advance text maxBytes)^[n] 0) ∧
      (advance text maxBytes)^[n] 0 ≤ text.length ∧
      ∀ place, Stops text maxBytes n place → place ≤ (advance text maxBytes)^[n] 0 := by
  induction n with
  | zero => exact ⟨rfl, Nat.zero_le _, fun place h => Nat.le_of_eq h⟩
  | succ n ih =>
    obtain ⟨hstops, hin, hgreatest⟩ := ih
    rw [Function.iterate_succ_apply']
    obtain ⟨place, hplace⟩ : ∃ place, place = (advance text maxBytes)^[n] 0 := ⟨_, rfl⟩
    rw [← hplace] at hstops hin hgreatest ⊢
    have hfits : place + maxBytes < 2 ^ 64 := by omega
    by_cases hlt : place < text.length
    · obtain ⟨hlo, hhi, hle⟩ := chunkEnd_bounds (by omega) hfits hlt
      obtain ⟨hcut, hfar⟩ := chunkEnd_greatest hvalid hmax hfits
      rw [advance, if_pos hlt]
      refine ⟨⟨hcut, place, hstops, hhi⟩, hle, fun other hother => ?_⟩
      obtain ⟨hboundary, before, hbefore, hother⟩ := hother
      have := hgreatest before hbefore
      exact hfar other hboundary (by omega)
    · have hend : place = text.length := by omega
      rw [advance, if_neg hlt]
      refine ⟨⟨?_, place, hstops, Nat.le_add_right _ _⟩, hin, fun other hother => ?_⟩
      · rw [hend]
        exact Utf8.boundary_length hvalid
      · rw [hend]
        exact hother.1.1

-- How many chunks there are.
theorem length_le_iff (hvalid : Utf8.Valid text) (hsize : text.length < 2 ^ 63) (hmax : 4 ≤ maxBytes)
    (hbound : maxBytes < 2 ^ 63) {fuel n : ℕ} {chunks : List Bytes}
    (h : chunksFrom text maxBytes fuel 0 = some chunks) :
    chunks.length ≤ n + 1 ↔ ∃ place, Stops text maxBytes n place ∧ text.length ≤ place + maxBytes := by
  obtain ⟨hstops, hin, hgreatest⟩ := stops_advance hvalid hsize hmax hbound n
  rw [length_chunksFrom h, Function.iterate_succ_apply']
  obtain ⟨place, hplace⟩ : ∃ place, place = (advance text maxBytes)^[n] 0 := ⟨_, rfl⟩
  rw [← hplace] at hstops hin hgreatest ⊢
  have hfits : place + maxBytes < 2 ^ 64 := by omega
  constructor
  · intro hle
    refine ⟨place, hstops, ?_⟩
    by_cases hlt : place < text.length
    · rw [advance, if_pos hlt] at hle
      exact hle.trans (chunkEnd_bounds (by omega) hfits hlt).2.1
    · omega
  · rintro ⟨other, hother, hle⟩
    have hfar := hgreatest other hother
    rw [advance]
    split
    · rw [chunkEnd_of_le hfits (by omega)]
    · omega

end Count

section Fanout

variable {text : Bytes} {limit : ℕ}

-- The condition on a text: one chunk behind the third of three places between characters, none
-- farther than a chunk behind the one before, comes to its end; where the text is too long, to all
-- of it that is kept, with the marker.
def Fits (limit : ℕ) (text : Bytes) : Prop :=
  ∃ place, Stops text limit (kMaxTelegramChunks - 1) place ∧
    if text.length ≤ limit * kMaxTelegramChunks then text.length ≤ place + limit
    else ∀ cut, Utf8.Boundary text cut →
      cut + kTruncatedMarker.length ≤ limit * kMaxTelegramChunks →
        cut + kTruncatedMarker.length ≤ place + limit

theorem valid_kTruncatedMarker : Utf8.Valid kTruncatedMarker :=
  ⟨"\n[response truncated]".toList, by decide⟩

-- What is put behind a cut changes nothing for the places before it.
theorem stops_take_append {cut n place : ℕ} {rest : Bytes} (hcut : Utf8.Boundary text cut)
    (hrest : Utf8.Valid rest) (hn : n * limit ≤ cut) :
    Stops (text.take cut ++ rest) limit n place ↔ Stops text limit n place := by
  induction n generalizing place with
  | zero => exact Iff.rfl
  | succ n ih =>
    rw [Nat.succ_mul] at hn
    constructor
    · intro h
      have hplace := h.le_mul
      rw [Nat.succ_mul] at hplace
      obtain ⟨hboundary, before, hbefore, hle⟩ := h
      exact ⟨(Utf8.boundary_take_append hcut hrest (by omega)).mp hboundary, before,
        (ih (by omega)).mp hbefore, hle⟩
    · intro h
      have hplace := h.le_mul
      rw [Nat.succ_mul] at hplace
      obtain ⟨hboundary, before, hbefore, hle⟩ := h
      exact ⟨(Utf8.boundary_take_append hcut hrest (by omega)).mpr hboundary, before,
        (ih (by omega)).mpr hbefore, hle⟩

theorem valid_bounded (hvalid : Utf8.Valid text) : Utf8.Valid (bounded text limit) := by
  rcases Nat.lt_or_ge (limit * kMaxTelegramChunks) text.length with hlong | hshort
  · obtain ⟨cut, hbounded, hcut, -, -⟩ := bounded_of_lt hvalid hlong
    rw [hbounded]
    exact hcut.2.1.append valid_kTruncatedMarker
  · rw [bounded_of_le hshort]
    exact hvalid

theorem fits_iff (hvalid : Utf8.Valid text) (hlimit : 24 ≤ limit) :
    Fits limit text ↔ ∃ place, Stops (bounded text limit) limit (kMaxTelegramChunks - 1) place ∧
      (bounded text limit).length ≤ place + limit := by
  have hmarker : kTruncatedMarker.length = 21 := by decide
  have hall : limit * kMaxTelegramChunks = limit * 4 := rfl
  have hthree : (kMaxTelegramChunks - 1) * limit = 3 * limit := rfl
  rw [Fits]
  rcases Nat.lt_or_ge (limit * kMaxTelegramChunks) text.length with hlong | hshort
  · obtain ⟨cut, hbounded, hcut, hle, hgreatest⟩ := bounded_of_lt hvalid hlong
    obtain ⟨near, hnear, hbefore, hclose⟩ := Utf8.exists_boundary_near hvalid
      (n := limit * kMaxTelegramChunks - kTruncatedMarker.length) (by omega)
    have hfar := hgreatest near hnear hbefore
    have hlen : (bounded text limit).length = cut + kTruncatedMarker.length := by
      rw [hbounded, List.length_append, List.length_take_of_le hcut.1]
    refine exists_congr fun place => and_congr ?_ ?_
    · rw [hbounded]
      exact (stops_take_append hcut valid_kTruncatedMarker (by omega)).symm
    · rw [if_neg (Nat.not_le.mpr hlong), hlen]
      constructor
      · exact fun h => h cut hcut (by omega)
      · intro h n hn hfits
        have := hgreatest n hn (by omega)
        omega
  · rw [bounded_of_le hshort]
    simp only [if_pos hshort]

theorem length_splitBounded_le (hvalid : Utf8.Valid text) (hlimit : 24 ≤ limit)
    (hsmall : limit * kMaxTelegramChunks < 2 ^ 63) :
    ∃ chunks, splitBounded text limit = some chunks ∧ ∀ n, chunks.length ≤ n + 1 ↔
      ∃ place, Stops (bounded text limit) limit n place ∧
        (bounded text limit).length ≤ place + limit := by
  have hmarker : kTruncatedMarker.length = 21 := by decide
  have hchunks : limit * kMaxTelegramChunks = limit * 4 := rfl
  have hlen : (bounded text limit).length ≤ limit * kMaxTelegramChunks :=
    length_bounded_le (by omega)
  have hmax : max (UInt64.ofNat limit).toNat 4 = limit := by
    rw [UInt64.toNat_ofNat_of_lt' (by rw [UInt64.size]; omega)]
    omega
  obtain ⟨chunks, hsplit, hfuel, -⟩ := splitUtf8_total (Nat.lt_of_le_of_lt hlen hsmall)
    (.ofNat limit)
  rw [hmax] at hfuel
  exact ⟨chunks, hsplit, fun n => length_le_iff (valid_bounded hvalid)
    (Nat.lt_of_le_of_lt hlen hsmall) (by omega) (by omega) (hfuel _ (Nat.lt_succ_self _))⟩

theorem splitBounded_capped (hvalid : Utf8.Valid text) (hlimit : 24 ≤ limit)
    (hsmall : limit * kMaxTelegramChunks < 2 ^ 63) :
    ∃ chunks, splitBounded text limit = some chunks ∧
      (chunks.length ≤ kMaxTelegramChunks ↔ Fits limit text) := by
  obtain ⟨chunks, hsplit, hcount⟩ := length_splitBounded_le hvalid hlimit hsmall
  exact ⟨chunks, hsplit, (hcount _).trans (fits_iff hvalid hlimit).symm⟩

-- The Hangul syllable has three bytes.
def hangul (n : ℕ) : Bytes := Utf16.encode (List.replicate n '한')

theorem hangul_succ (n : ℕ) : hangul (n + 1) = 237 :: 149 :: 156 :: hangul n := rfl

theorem length_hangul (n : ℕ) : (hangul n).length = 3 * n := by
  induction n with
  | zero => rfl
  | succ n ih =>
    rw [hangul_succ]
    simp only [List.length_cons, ih]
    omega

theorem valid_hangul (n : ℕ) : Utf8.Valid (hangul n) := ⟨_, rfl⟩

theorem boundary_hangul {n place : ℕ} :
    Utf8.Boundary (hangul n) place ↔ place ≤ 3 * n ∧ 3 ∣ place := by
  rw [Utf8.boundary_iff (valid_hangul n), length_hangul]
  refine and_congr_right fun hle => ?_
  induction n generalizing place with
  | zero =>
    obtain rfl := Nat.le_zero.mp hle
    exact iff_of_true (by simp [hangul, Utf16.encode]) (dvd_zero 3)
  | succ n ih =>
    rw [hangul_succ]
    match place with
    | 0 => exact iff_of_true (by simp; decide) (dvd_zero 3)
    | 1 => exact iff_of_false (by simp; decide) (by decide)
    | 2 => exact iff_of_false (by simp; decide) (by decide)
    | place + 3 =>
      simp only [List.getElem?_cons_succ]
      rw [ih (by omega), Nat.dvd_add_self_right]

-- The places are the ends of whole syllables.
theorem exists_stops_hangul_iff {n k : ℕ} :
    (∃ place, Stops (hangul n) limit k place ∧ 3 * n ≤ place + limit) ↔
      n ≤ (k + 1) * (limit / 3) := by
  have hstops : ∀ k place, Stops (hangul n) limit k place →
      3 ∣ place ∧ place ≤ 3 * (k * (limit / 3)) := by
    intro k
    induction k with
    | zero =>
      rintro place rfl
      exact ⟨dvd_zero 3, Nat.zero_le _⟩
    | succ k ih =>
      rintro place ⟨hboundary, before, hbefore, hle⟩
      obtain ⟨hwhole, hbound⟩ := ih before hbefore
      have hplace := (boundary_hangul.mp hboundary).2
      rw [Nat.succ_mul k]
      exact ⟨hplace, by omega⟩
  have hfar : ∀ k, Stops (hangul n) limit k (3 * min n (k * (limit / 3))) := by
    intro k
    induction k with
    | zero => rw [Nat.zero_mul, Nat.min_zero]; rfl
    | succ k ih =>
      refine ⟨boundary_hangul.mpr ⟨by omega, dvd_mul_right 3 _⟩, _, ih, ?_⟩
      rw [Nat.succ_mul k]
      omega
  rw [Nat.succ_mul k]
  constructor
  · rintro ⟨place, hplace, hle⟩
    obtain ⟨hwhole, hbound⟩ := hstops k place hplace
    omega
  · intro hle
    exact ⟨_, hfar k, by omega⟩

theorem splitBounded_hangul {n : ℕ} (hshort : 3 * n ≤ limit * kMaxTelegramChunks)
    (hlimit : 24 ≤ limit) (hsmall : limit * kMaxTelegramChunks < 2 ^ 63) :
    ∃ chunks, splitBounded (hangul n) limit = some chunks ∧
      ∀ k, chunks.length ≤ k + 1 ↔ n ≤ (k + 1) * (limit / 3) := by
  obtain ⟨chunks, hsplit, hcount⟩ := length_splitBounded_le (valid_hangul n) hlimit hsmall
  refine ⟨chunks, hsplit, fun k => (hcount k).trans ?_⟩
  rw [bounded_of_le (by rwa [length_hangul]), length_hangul]
  exact exists_stops_hangul_iff

-- When a text makes no more messages than it should.
theorem fanout_capped (text : StringView) (hvalid : Utf8.Valid text.bytes) :
    (∃ chunks, splitForMarkdown text.bytes = some chunks ∧
      (chunks.length ≤ kMaxTelegramChunks ↔ Fits kRawMarkdownChunkBytes text.bytes)) ∧
      ∃ chunks, splitPlain text.bytes = some chunks ∧
        (chunks.length ≤ kMaxTelegramChunks ↔ Fits kPlainChunkBytes text.bytes) :=
  ⟨splitBounded_capped hvalid (by decide) (by decide),
    splitBounded_capped hvalid (by decide) (by decide)⟩

-- Three messages with markdown, two without.
theorem fanout_capped_hangul :
    (splitForMarkdown (hangul 1500)).map List.length = some 3 ∧
      Fits kRawMarkdownChunkBytes (hangul 1500) ∧
      (splitPlain (hangul 1500)).map List.length = some 2 ∧
      Fits kPlainChunkBytes (hangul 1500) := by
  have hsize : (hangul 1500).length < 2 ^ 63 := by
    rw [length_hangul]
    decide
  obtain ⟨⟨raw, hraw, hrawFits⟩, plain, hplain, hplainFits⟩ :=
    fanout_capped ⟨hangul 1500, hsize⟩ (valid_hangul 1500)
  obtain ⟨raw', hraw', hrawCount⟩ := @splitBounded_hangul kRawMarkdownChunkBytes 1500
    (by decide) (by decide) (by decide)
  obtain ⟨plain', hplain', hplainCount⟩ := @splitBounded_hangul kPlainChunkBytes 1500
    (by decide) (by decide) (by decide)
  obtain rfl := Option.some.inj (hraw'.symm.trans hraw)
  obtain rfl := Option.some.inj (hplain'.symm.trans hplain)
  have hthree : raw'.length ≤ 3 ∧ ¬ raw'.length ≤ 2 :=
    ⟨(hrawCount 2).mpr (by decide), mt (hrawCount 1).mp (by decide)⟩
  have htwo : plain'.length ≤ 2 ∧ ¬ plain'.length ≤ 1 :=
    ⟨(hplainCount 1).mpr (by decide), mt (hplainCount 0).mp (by decide)⟩
  have hcap : kMaxTelegramChunks = 4 := rfl
  refine ⟨?_, hrawFits.mp (by omega), ?_, hplainFits.mp (by omega)⟩
  · rw [hraw, Option.map_some, Option.some.injEq]
    omega
  · rw [hplain, Option.map_some, Option.some.injEq]
    omega

-- Only 666 syllables go into a chunk.
theorem fanout_five_messages :
    ¬∀ text : StringView, Utf8.Valid text.bytes →
      (∃ chunks, splitForMarkdown text.bytes = some chunks ∧ chunks.length ≤ kMaxTelegramChunks) ∧
        ∃ chunks, splitPlain text.bytes = some chunks ∧ chunks.length ≤ kMaxTelegramChunks := by
  intro h
  have hsize : (hangul 2666).length < 2 ^ 63 := by
    rw [length_hangul]
    decide
  obtain ⟨⟨chunks, hchunks, hlen⟩, -⟩ := h ⟨hangul 2666, hsize⟩ (valid_hangul 2666)
  obtain ⟨chunks', hsplit, hcount⟩ := @splitBounded_hangul kRawMarkdownChunkBytes 2666
    (by decide) (by decide) (by decide)
  obtain rfl := Option.some.inj (hsplit.symm.trans hchunks)
  exact absurd ((hcount 3).mp hlen) (by decide)

end Fanout

end Glider.Llm.TelegramOutput

import Glider.Lib.Ranges
import Glider.Lib.Word
import Mathlib.Data.List.TakeWhile

namespace Glider.Transfer

open Glider.Lib

def kChunkSize : ℕ := 64 * 1024

def kMaxTransferSize : ℕ := 5 * 1024 * 1024 * 1024 / 2

-- `ranges` is the `std::map` from the begin of a received range to its end, in key order.
structure UploadCoverage where
  totalSize : ℕ
  coveredBytes : ℕ
  ranges : List (ℕ × ℕ)
  deriving DecidableEq

namespace UploadCoverage

def new (totalSize : ℕ) : UploadCoverage := ⟨totalSize, 0, []⟩

-- `lower_bound(begin)`, moved back by one when the range before it reaches `begin`. The result is
-- the part of the map before the iterator and the part from it on.
def seek (ranges : List (ℕ × ℕ)) (start : ℕ) : List (ℕ × ℕ) × List (ℕ × ℕ) :=
  let before := ranges.takeWhile fun r => r.1 < start
  let it := ranges.dropWhile fun r => r.1 < start
  match before.getLast? with
  | some previous =>
    if start ≤ previous.2 then (before.dropLast, previous :: it) else (before, it)
  | none => (before, it)

structure Merge where
  start : ℕ
  finish : ℕ
  coveredBytes : ℕ
  rest : List (ℕ × ℕ)

-- The loop of `add`: every range that begins by the end of the new one is erased into it.
def absorb (start finish coveredBytes : ℕ) : List (ℕ × ℕ) → Merge
  | [] => ⟨start, finish, coveredBytes, []⟩
  | r :: rest =>
    if r.1 ≤ finish then
      absorb (min start r.1) (max finish r.2) (u64Sub coveredBytes (u64Sub r.2 r.1)) rest
    else ⟨start, finish, coveredBytes, r :: rest⟩

def add (c : UploadCoverage) (offset length : ℕ) : UploadCoverage :=
  if length = 0 then c
  else
    let it := seek c.ranges offset
    let m := absorb offset (u64 (offset + length)) c.coveredBytes it.2
    { c with
      ranges := Ranges.assign (it.1 ++ m.rest) m.start m.finish
      coveredBytes := u64 (m.coveredBytes + u64Sub m.finish m.start) }

def complete (c : UploadCoverage) : Bool := c.coveredBytes == c.totalSize

end UploadCoverage

def chunkCount (size : ℕ) : ℤ := toInt32 (u64 (size + kChunkSize - 1) / kChunkSize : ℕ)

def sizeWithinCap (size : ℕ) : Bool := size ≤ kMaxTransferSize

def uploadChunkInRange (offset : ℤ) (dataSize totalSize : ℕ) : Bool :=
  if offset < 0 then false
  else if offset.toNat > totalSize then false
  else dataSize ≤ totalSize - offset.toNat

def downloadChunkValid (chunkIdx chunkCount : ℤ) : Bool := 0 ≤ chunkIdx ∧ chunkIdx < chunkCount

def chunkOffset (chunkIdx : ℤ) : ℕ := u64 ((chunkIdx % 2 ^ 64).toNat * kChunkSize)

theorem uploadChunkInRange_iff (offset : ℤ) (dataSize totalSize : ℕ) :
    uploadChunkInRange offset dataSize totalSize = true ↔
      0 ≤ offset ∧ offset.toNat + dataSize ≤ totalSize := by
  unfold uploadChunkInRange
  split
  · simp only [Bool.false_eq_true, false_iff]
    omega
  · split
    · simp only [Bool.false_eq_true, false_iff]
      omega
    · simp only [decide_eq_true_eq]
      omega

-- A valid index is below the true number of chunks, also where the conversion to `int` wrapped.
theorem chunkIdx_lt_of_valid {size : ℕ} {chunkIdx : ℤ}
    (hv : downloadChunkValid chunkIdx (chunkCount size) = true) :
    0 ≤ chunkIdx ∧ chunkIdx < 2 ^ 31 ∧ chunkIdx.toNat * kChunkSize < size := by
  simp only [downloadChunkValid, decide_eq_true_eq] at hv
  obtain ⟨hlo, hhi⟩ := hv
  simp only [chunkCount, toInt32, u64, kChunkSize, Int.bmod] at hhi ⊢
  omega

theorem chunkOffset_of_range {chunkIdx : ℤ} (hlo : 0 ≤ chunkIdx) (hhi : chunkIdx < 2 ^ 31) :
    chunkOffset chunkIdx = chunkIdx.toNat * kChunkSize := by
  simp only [chunkOffset, u64, kChunkSize]
  omega

end Glider.Transfer

namespace Glider.Transfer.UploadCoverage

open Glider.Lib Glider.Lib.Ranges

-- What every in-range `add` keeps: the map holds separated ranges inside the declared size, and
-- the counter is their length.
structure WellFormed (c : UploadCoverage) : Prop where
  separated : Separated c.ranges
  inside : ∀ r ∈ c.ranges, r.2 ≤ c.totalSize
  counted : c.coveredBytes = total c.ranges
  bounded : c.totalSize < 2 ^ 64

theorem wellFormed_new {totalSize : ℕ} (h : totalSize < 2 ^ 64) : (new totalSize).WellFormed where
  separated := ⟨List.Pairwise.nil, by simp [new]⟩
  inside := by simp [new]
  counted := rfl
  bounded := h

theorem seek_append (ranges : List (ℕ × ℕ)) (start : ℕ) :
    (seek ranges start).1 ++ (seek ranges start).2 = ranges := by
  have ht : ranges.takeWhile (fun r => r.1 < start) ++ ranges.dropWhile (fun r => r.1 < start) =
      ranges := List.takeWhile_append_dropWhile
  unfold seek
  dsimp only
  split
  · rename_i previous hp
    obtain ⟨front, hf⟩ := List.getLast?_eq_some_iff.mp hp
    split
    · rw [hf, List.append_assoc] at ht
      rw [hf, List.dropLast_concat]
      exact ht
    · exact ht
  · exact ht

theorem le_of_mem_dropWhile {ranges : List (ℕ × ℕ)} (hsep : Separated ranges) (start : ℕ)
    (r : ℕ × ℕ) (hr : r ∈ ranges.dropWhile fun r => r.1 < start) : start ≤ r.1 := by
  induction ranges with
  | nil => simp at hr
  | cons s rest ih =>
    obtain ⟨hs, hgap, hrest⟩ := separated_cons.mp hsep
    rw [List.dropWhile_cons] at hr
    split at hr
    · exact ih hrest hr
    · rename_i hn
      simp only [decide_eq_true_eq] at hn
      rcases List.mem_cons.mp hr with rfl | hr
      · omega
      · have hg := hgap r hr
        omega

-- The iterator stands between the ranges that end before the new one and those that do not.
theorem seek_spec {ranges : List (ℕ × ℕ)} (hsep : Separated ranges) (start : ℕ) :
    (∀ r ∈ (seek ranges start).1, r.2 < start) ∧ (∀ r ∈ (seek ranges start).2, start ≤ r.2) := by
  have hkeys : ∀ r ∈ ranges.takeWhile (fun r => decide (r.1 < start)), r.1 < start := by
    intro r hr
    simpa using List.mem_takeWhile_imp hr
  have hlater : ∀ r ∈ ranges.dropWhile (fun r => decide (r.1 < start)), start ≤ r.2 := by
    intro r hr
    have hr1 := le_of_mem_dropWhile hsep start r hr
    have hr2 := hsep.2 r (List.dropWhile_sublist _ |>.subset hr)
    omega
  have hbefore : Separated (ranges.takeWhile fun r => decide (r.1 < start)) :=
    ⟨hsep.1.sublist (List.takeWhile_sublist _),
      fun r hr => hsep.2 r (List.takeWhile_sublist _ |>.subset hr)⟩
  unfold seek
  dsimp only
  split
  · rename_i previous hp
    obtain ⟨front, hf⟩ := List.getLast?_eq_some_iff.mp hp
    rw [hf] at hbefore hkeys
    obtain ⟨-, -, hgap⟩ := separated_append.mp hbefore
    have hprev := hkeys previous (by simp)
    have hfront : ∀ r ∈ front, r.2 < start := by
      intro r hr
      have hg := hgap r hr previous (by simp)
      omega
    split
    · rename_i hle
      rw [hf, List.dropLast_concat]
      exact ⟨hfront, List.forall_mem_cons.mpr ⟨hle, hlater⟩⟩
    · rename_i hlt
      rw [hf]
      refine ⟨List.forall_mem_append.mpr ⟨hfront, ?_⟩, hlater⟩
      intro r hr
      rw [List.mem_singleton.mp hr]
      omega
  · rename_i hp
    rw [List.getLast?_eq_none_iff.mp hp]
    exact ⟨by simp, hlater⟩

-- What the loop leaves: it has taken a front part of the map into the new range, which now ends
-- before everything that is left.
structure Merged (start finish coveredBytes : ℕ) (it : List (ℕ × ℕ)) (m : Merge)
    (taken : List (ℕ × ℕ)) : Prop where
  split : it = taken ++ m.rest
  start_eq : m.start = start ∨ ∃ r ∈ taken, m.start = r.1
  nonempty : m.start < m.finish
  finish_eq : m.finish = finish ∨ ∃ r ∈ taken, m.finish = r.2
  beyond : ∀ r ∈ m.rest, m.finish < r.1
  covers : ∀ i, (m.start ≤ i ∧ i < m.finish) ↔ (start ≤ i ∧ i < finish) ∨ Covers taken i
  counted : m.coveredBytes = coveredBytes - total taken

theorem absorb_spec {start finish coveredBytes : ℕ} {it : List (ℕ × ℕ)}
    (hne : start < finish) (hsep : Separated it) (htouch : ∀ r ∈ it, start ≤ r.2)
    (hcount : total it ≤ coveredBytes) (hbound : coveredBytes < 2 ^ 64)
    (hends : ∀ r ∈ it, r.2 < 2 ^ 64) :
    ∃ taken, Merged start finish coveredBytes it (absorb start finish coveredBytes it) taken := by
  induction it generalizing start finish coveredBytes with
  | nil =>
    refine ⟨[], ?_⟩
    constructor <;> simp [absorb, hne]
  | cons r rest ih =>
    obtain ⟨hr, hgap, hrest⟩ := separated_cons.mp hsep
    have hstart := htouch r (by simp)
    have hend := hends r (by simp)
    simp only [total_cons] at hcount
    simp only [absorb]
    split
    · rename_i hle
      have hlen : u64Sub r.2 r.1 = r.2 - r.1 := u64Sub_of_le hend (Nat.le_of_lt hr)
      have hcov : u64Sub coveredBytes (r.2 - r.1) = coveredBytes - (r.2 - r.1) :=
        u64Sub_of_le hbound (by omega)
      rw [hlen, hcov]
      obtain ⟨taken, hm⟩ := @ih (min start r.1) (max finish r.2) (coveredBytes - (r.2 - r.1))
        (by omega) hrest
        (fun s hs => by have := hgap s hs; have := hrest.2 s hs; omega)
        (by omega) (by omega) (fun s hs => hends s (List.mem_cons_of_mem _ hs))
      refine ⟨r :: taken, ?_⟩
      constructor
      · rw [List.cons_append, ← hm.split]
      · rcases hm.start_eq with he | ⟨s, hs, he⟩
        · rcases Nat.le_total start r.1 with hsr | hsr
          · exact Or.inl (by omega)
          · exact Or.inr ⟨r, by simp, by omega⟩
        · exact Or.inr ⟨s, List.mem_cons_of_mem _ hs, he⟩
      · exact hm.nonempty
      · rcases hm.finish_eq with he | ⟨s, hs, he⟩
        · rcases Nat.le_total r.2 finish with hrf | hrf
          · exact Or.inl (by omega)
          · exact Or.inr ⟨r, by simp, by omega⟩
        · exact Or.inr ⟨s, List.mem_cons_of_mem _ hs, he⟩
      · exact hm.beyond
      · intro i
        rw [hm.covers i, covers_cons]
        constructor
        · rintro (hi | hi)
          · by_cases hir : r.1 ≤ i ∧ i < r.2
            · exact Or.inr (Or.inl hir)
            · exact Or.inl (by omega)
          · exact Or.inr (Or.inr hi)
        · rintro (hi | hi | hi)
          · exact Or.inl (by omega)
          · exact Or.inl (by omega)
          · exact Or.inr hi
      · rw [hm.counted, total_cons]
        omega
    · rename_i hgt
      refine ⟨[], ?_⟩
      constructor <;> simp only [List.nil_append, List.not_mem_nil, false_and, exists_false,
        or_false, covers_nil, total_nil, Nat.sub_zero, implies_true]
      · exact hne
      · intro s hs
        rcases List.mem_cons.mp hs with rfl | hs
        · omega
        · have hg := hgap s hs
          omega

-- The loop at the place `seek` finds, with the sizes that an in-range chunk guarantees.
theorem add_merged {c : UploadCoverage} (hc : c.WellFormed) {offset length : ℕ}
    (hlen : length ≠ 0) (hin : offset + length ≤ c.totalSize) :
    ∃ taken, Merged offset (offset + length) c.coveredBytes (seek c.ranges offset).2
      (absorb offset (u64 (offset + length)) c.coveredBytes (seek c.ranges offset).2) taken := by
  have hb := hc.bounded
  have happ := seek_append c.ranges offset
  have hsep := hc.separated
  have hcnt := hc.counted
  rw [← happ] at hsep hcnt
  rw [total_append] at hcnt
  have hle := @total_le _ 0 _ hc.separated (by simp) hc.inside
  rw [← happ, total_append] at hle
  have hmem : ∀ r ∈ (seek c.ranges offset).2, r ∈ c.ranges := by
    intro r hr
    rw [← happ]
    exact List.mem_append_right _ hr
  rw [u64_of_lt (by omega)]
  apply absorb_spec (by omega) (separated_append.mp hsep).2.1 (seek_spec hc.separated offset).2
    (by omega) (by omega)
  intro r hr
  have hr2 := hc.inside r (hmem r hr)
  omega

@[simp] theorem totalSize_add (c : UploadCoverage) (offset length : ℕ) :
    (c.add offset length).totalSize = c.totalSize := by
  unfold add
  split <;> rfl

theorem add_of_ne_zero (c : UploadCoverage) (offset : ℕ) {length : ℕ} (hlen : length ≠ 0) :
    c.add offset length =
      let m := absorb offset (u64 (offset + length)) c.coveredBytes (seek c.ranges offset).2
      { c with
        ranges := assign ((seek c.ranges offset).1 ++ m.rest) m.start m.finish
        coveredBytes := u64 (m.coveredBytes + u64Sub m.finish m.start) } := if_neg hlen

-- What `absorb` leaves at the place `seek` finds: the ranges in front of the iterator, the merged
-- range and what was left are separated and inside the declared size.
theorem absorb_ranges {c : UploadCoverage} (hc : c.WellFormed) {offset length : ℕ}
    (hlen : length ≠ 0) (hin : offset + length ≤ c.totalSize) {m : Merge}
    (hm : absorb offset (u64 (offset + length)) c.coveredBytes (seek c.ranges offset).2 = m) :
    ∃ taken, c.ranges = (seek c.ranges offset).1 ++ taken ++ m.rest ∧
      m.coveredBytes = total (seek c.ranges offset).1 + total m.rest ∧
      total (seek c.ranges offset).1 + (m.finish - m.start) + total m.rest ≤ c.totalSize ∧
      (∀ r ∈ (seek c.ranges offset).1, r.2 < m.start) ∧ m.start < m.finish ∧
      m.finish ≤ c.totalSize ∧ (∀ r ∈ m.rest, m.finish < r.1) ∧
      ∀ i, (m.start ≤ i ∧ i < m.finish) ↔
        (offset ≤ i ∧ i < offset + length) ∨ Covers taken i := by
  obtain ⟨taken, hmerged⟩ := add_merged hc hlen hin
  rw [hm] at hmerged
  have happ := seek_append c.ranges offset
  have hfront := (seek_spec hc.separated offset).1
  generalize seek c.ranges offset = it at hmerged happ hfront ⊢
  have hranges : c.ranges = it.1 ++ taken ++ m.rest := by
    rw [List.append_assoc, ← hmerged.split, happ]
  have hsep := hc.separated
  rw [hranges, List.append_assoc, separated_append] at hsep
  obtain ⟨hsf, hsi, hgap⟩ := hsep
  have hinside := hc.inside
  rw [hranges] at hinside
  have hstart : ∀ r ∈ it.1, r.2 < m.start := by
    intro r hr
    rcases hmerged.start_eq with he | ⟨s, hs, he⟩
    · have := hfront r hr
      omega
    · have := hgap r hr s (List.mem_append_left _ hs)
      omega
  have hfinish : m.finish ≤ c.totalSize := by
    rcases hmerged.finish_eq with he | ⟨s, hs, he⟩
    · omega
    · have := hinside s (by simp [hs])
      omega
  have hne := hmerged.nonempty
  have hnew : total (it.1 ++ (m.start, m.finish) :: m.rest) ≤ c.totalSize - 0 := by
    apply total_le
    · rw [separated_append, separated_cons]
      refine ⟨hsf, ⟨hne, hmerged.beyond, (separated_append.mp hsi).2.1⟩, ?_⟩
      intro r hr s hs
      have h1 := hstart r hr
      rcases List.mem_cons.mp hs with rfl | hs
      · exact h1
      · have h2 := hmerged.beyond s hs
        omega
    · simp
    · intro r hr
      rcases List.mem_append.mp hr with hr | hr
      · exact hinside r (by simp [hr])
      rcases List.mem_cons.mp hr with rfl | hr
      · exact hfinish
      · exact hinside r (by simp [hr])
  have hcnt := hc.counted
  rw [hranges, List.append_assoc, total_append, total_append] at hcnt
  rw [total_append, total_cons] at hnew
  dsimp only at hnew
  have hcovered := hmerged.counted
  exact ⟨taken, hranges, by omega, by omega, hstart, hne, hfinish, hmerged.beyond, hmerged.covers⟩

-- The map after `add`: the ranges in front of the iterator, the merged range, what was left.
theorem add_ranges {c : UploadCoverage} (hc : c.WellFormed) {offset length : ℕ}
    (hlen : length ≠ 0) (hin : offset + length ≤ c.totalSize) :
    ∃ front taken rest start finish,
      c.ranges = front ++ taken ++ rest ∧
      (c.add offset length).ranges = front ++ (start, finish) :: rest ∧
      (c.add offset length).coveredBytes = total front + (finish - start) + total rest ∧
      (∀ r ∈ front, r.2 < start) ∧ start < finish ∧ finish ≤ c.totalSize ∧
      (∀ r ∈ rest, finish < r.1) ∧
      (∀ i, (start ≤ i ∧ i < finish) ↔ (offset ≤ i ∧ i < offset + length) ∨ Covers taken i) := by
  rw [add_of_ne_zero c offset hlen]
  obtain ⟨m, hm⟩ : ∃ m, absorb offset (u64 (offset + length)) c.coveredBytes
      (seek c.ranges offset).2 = m := ⟨_, rfl⟩
  obtain ⟨taken, hranges, hcovered, hfits, hstart, hne, hfinish, hbeyond, hcovers⟩ :=
    absorb_ranges hc hlen hin hm
  have hb := hc.bounded
  have hends := hc.separated.2
  rw [hranges] at hends
  refine ⟨(seek c.ranges offset).1, taken, m.rest, m.start, m.finish, hranges, ?_, ?_, hstart, hne,
    hfinish, hbeyond, hcovers⟩
  · rw [hm]
    apply assign_append
    · intro r hr
      have h1 := hstart r hr
      have h2 := hends r (by simp [hr])
      omega
    · intro r hr
      have h1 := hbeyond r hr
      omega
  · dsimp only
    rw [hm, hcovered, u64Sub_of_le (by omega) (Nat.le_of_lt hne), u64_of_lt (by omega)]
    omega

theorem wellFormed_add {c : UploadCoverage} (hc : c.WellFormed) {offset length : ℕ}
    (hin : offset + length ≤ c.totalSize) : (c.add offset length).WellFormed := by
  by_cases hlen : length = 0
  · simpa [add, hlen] using hc
  obtain ⟨front, taken, rest, start, finish, hold, hnew, hcnt, hstart, hne, hfinish, hrest, -⟩ :=
    add_ranges hc hlen hin
  have hsep := hc.separated
  have hinside := hc.inside
  rw [hold] at hsep hinside
  obtain ⟨hsep, hsr, hgap⟩ := separated_append.mp hsep
  constructor
  · rw [hnew, separated_append, separated_cons]
    refine ⟨(separated_append.mp hsep).1, ⟨hne, hrest, hsr⟩, ?_⟩
    intro r hr s hs
    rcases List.mem_cons.mp hs with rfl | hs
    · exact hstart r hr
    · exact hgap r (List.mem_append_left _ hr) s hs
  · rw [hnew, totalSize_add]
    intro r hr
    rcases List.mem_append.mp hr with hr | hr
    · exact hinside r (by simp [hr])
    rcases List.mem_cons.mp hr with rfl | hr
    · exact hfinish
    · exact hinside r (by simp [hr])
  · rw [hnew, hcnt, total_append, total_cons]
    omega
  · rw [totalSize_add]
    exact hc.bounded

theorem covers_add {c : UploadCoverage} (hc : c.WellFormed) {offset length : ℕ}
    (hin : offset + length ≤ c.totalSize) (i : ℕ) :
    Covers (c.add offset length).ranges i ↔
      Covers c.ranges i ∨ (offset ≤ i ∧ i < offset + length) := by
  by_cases hlen : length = 0
  · simp only [add, hlen, if_true, Nat.add_zero]
    constructor
    · exact Or.inl
    · rintro (h | h)
      · exact h
      · omega
  obtain ⟨front, taken, rest, start, finish, hold, hnew, -, -, -, -, -, hcov⟩ :=
    add_ranges hc hlen hin
  rw [hold, hnew]
  simp only [covers_append, covers_cons, hcov]
  constructor
  · rintro (h | (h | h) | h)
    · exact Or.inl (Or.inl (Or.inl h))
    · exact Or.inr h
    · exact Or.inl (Or.inl (Or.inr h))
    · exact Or.inl (Or.inr h)
  · rintro (((h | h) | h) | h)
    · exact Or.inl h
    · exact Or.inr (Or.inl (Or.inr h))
    · exact Or.inr (Or.inr h)
    · exact Or.inr (Or.inl (Or.inl h))

-- A complete upload has no hole.
theorem covers_of_complete {c : UploadCoverage} (hc : c.WellFormed) (hcomplete : c.complete = true)
    (i : ℕ) (hi : i < c.totalSize) : Covers c.ranges i := by
  simp only [complete, beq_iff_eq] at hcomplete
  have ht : total c.ranges = c.totalSize - 0 := by rw [← hc.counted, hcomplete, Nat.sub_zero]
  exact covers_of_total_eq hc.separated (by simp) hc.inside ht i (Nat.zero_le i) hi

end Glider.Transfer.UploadCoverage

import Glider.Transfer.Validation

namespace Glider.Transfer

open Lib Lib.Ranges

namespace UploadCoverage

section Checked

def checkedAdd (a b : ℕ) : Option ℕ := if a + b < 2 ^ 64 then some (a + b) else none

def checkedSub (a b : ℕ) : Option ℕ := if b ≤ a then some (a - b) else none

-- `absorb` and `add` where a sum or a difference that wraps ends the call.
def absorbChecked (start finish coveredBytes : ℕ) : List (ℕ × ℕ) → Option Merge
  | [] => some ⟨start, finish, coveredBytes, []⟩
  | r :: rest =>
    if r.1 ≤ finish then do
      let length ← checkedSub r.2 r.1
      let coveredBytes ← checkedSub coveredBytes length
      absorbChecked (min start r.1) (max finish r.2) coveredBytes rest
    else some ⟨start, finish, coveredBytes, r :: rest⟩

def addChecked (c : UploadCoverage) (offset length : ℕ) : Option UploadCoverage :=
  if length = 0 then some c
  else do
    let finish ← checkedAdd offset length
    let it := seek c.ranges offset
    let m ← absorbChecked offset finish c.coveredBytes it.2
    let size ← checkedSub m.finish m.start
    let coveredBytes ← checkedAdd m.coveredBytes size
    some { c with
      ranges := Ranges.assign (it.1 ++ m.rest) m.start m.finish
      coveredBytes }

theorem checkedAdd_of_lt {a b : ℕ} (h : a + b < 2 ^ 64) : checkedAdd a b = some (u64 (a + b)) := by
  rw [checkedAdd, if_pos h, u64_of_lt h]

theorem checkedSub_of_le {a b : ℕ} (ha : a < 2 ^ 64) (hb : b ≤ a) :
    checkedSub a b = some (u64Sub a b) := by
  rw [checkedSub, if_pos hb, u64Sub_of_le ha hb]

theorem absorbChecked_eq {start finish coveredBytes : ℕ} {it : List (ℕ × ℕ)} (hsep : Separated it)
    (hcount : total it ≤ coveredBytes) (hbound : coveredBytes < 2 ^ 64)
    (hends : ∀ r ∈ it, r.2 < 2 ^ 64) :
    absorbChecked start finish coveredBytes it = some (absorb start finish coveredBytes it) := by
  induction it generalizing start finish coveredBytes with
  | nil => rfl
  | cons r rest ih =>
    obtain ⟨hr, -, hrest⟩ := separated_cons.mp hsep
    obtain ⟨hend, hends⟩ := List.forall_mem_cons.mp hends
    rw [total_cons] at hcount
    have hlength : u64Sub r.2 r.1 = r.2 - r.1 := u64Sub_of_le hend (Nat.le_of_lt hr)
    have hleft : u64Sub coveredBytes (r.2 - r.1) = coveredBytes - (r.2 - r.1) :=
      u64Sub_of_le hbound (by omega)
    rw [absorbChecked, absorb]
    split
    · rw [checkedSub_of_le hend (Nat.le_of_lt hr), Option.bind_eq_bind, Option.bind_some, hlength,
        checkedSub_of_le hbound (by omega), Option.bind_some, hleft]
      exact ih hrest (by omega) (by omega) hends
    · rfl

theorem addChecked_eq {c : UploadCoverage} (hc : c.WellFormed) {offset length : ℕ}
    (hin : offset + length ≤ c.totalSize) :
    c.addChecked offset length = some (c.add offset length) := by
  by_cases hlen : length = 0
  · rw [addChecked, if_pos hlen, add, if_pos hlen]
  obtain ⟨m, hm⟩ : ∃ m, absorb offset (u64 (offset + length)) c.coveredBytes
      (seek c.ranges offset).2 = m := ⟨_, rfl⟩
  obtain ⟨taken, hranges, hcovered, hfits, -, hne, hfinish, -⟩ := absorb_ranges hc hlen hin hm
  have hb := hc.bounded
  have hcount := hc.counted
  have hsplit := seek_append c.ranges offset
  have hsep := hc.separated
  rw [← hsplit, total_append] at hcount
  rw [← hsplit] at hsep
  have hsize : c.coveredBytes ≤ c.totalSize := by
    have := @total_le _ 0 _ hc.separated (fun _ _ => Nat.zero_le _) hc.inside
    rw [hc.counted]
    exact this
  have habsorb : absorbChecked offset (u64 (offset + length)) c.coveredBytes
      (seek c.ranges offset).2 = some m := by
    rw [← hm]
    apply absorbChecked_eq (separated_append.mp hsep).2.1 (by omega) (by omega)
    intro r hr
    have := hc.inside r (hsplit ▸ List.mem_append_right _ hr)
    omega
  rw [addChecked, if_neg hlen, checkedAdd_of_lt (by omega), Option.bind_eq_bind, Option.bind_some,
    add_of_ne_zero c offset hlen, hm]
  have hnew : m.coveredBytes + u64Sub m.finish m.start < 2 ^ 64 := by
    rw [u64Sub_of_le (by omega) (Nat.le_of_lt hne)]
    omega
  dsimp only
  rw [habsorb, Option.bind_eq_bind, Option.bind_some,
    checkedSub_of_le (by omega) (Nat.le_of_lt hne), Option.bind_some, checkedAdd_of_lt hnew,
    Option.bind_some]

end Checked

section Received

-- The coverage after the chunks of an upload, each an offset and the number of its bytes.
def received (totalSize : ℕ) (chunks : List (ℤ × ℕ)) : UploadCoverage :=
  chunks.foldl (fun c chunk => c.add chunk.1.toNat chunk.2) (new totalSize)

def receivedChecked (totalSize : ℕ) (chunks : List (ℤ × ℕ)) : Option UploadCoverage :=
  chunks.foldlM (fun c chunk => c.addChecked chunk.1.toNat chunk.2) (new totalSize)

def Added (chunks : List (ℤ × ℕ)) (i : ℕ) : Prop :=
  ∃ chunk ∈ chunks, chunk.1.toNat ≤ i ∧ i < chunk.1.toNat + chunk.2

def InRange (totalSize : ℕ) (chunks : List (ℤ × ℕ)) : Prop :=
  ∀ chunk ∈ chunks, uploadChunkInRange chunk.1 chunk.2 totalSize = true

variable {totalSize : ℕ} {chunks chunks' : List (ℤ × ℕ)}

theorem foldl_add_spec {c : UploadCoverage} (hc : c.WellFormed) (h : InRange c.totalSize chunks) :
    (chunks.foldl (fun c chunk => c.add chunk.1.toNat chunk.2) c).WellFormed ∧
      (chunks.foldl (fun c chunk => c.add chunk.1.toNat chunk.2) c).totalSize = c.totalSize ∧
      (∀ i, Covers (chunks.foldl (fun c chunk => c.add chunk.1.toNat chunk.2) c).ranges i ↔
        Covers c.ranges i ∨ Added chunks i) ∧
      chunks.foldlM (fun c chunk => c.addChecked chunk.1.toNat chunk.2) c =
        some (chunks.foldl (fun c chunk => c.add chunk.1.toNat chunk.2) c) := by
  induction chunks generalizing c with
  | nil => exact ⟨hc, rfl, fun i => (or_iff_left fun ⟨_, hmem, _⟩ => nomatch hmem).symm, rfl⟩
  | cons chunk chunks ih =>
    obtain ⟨hchunk, hrest⟩ := List.forall_mem_cons.mp h
    have hin := ((uploadChunkInRange_iff ..).mp hchunk).2
    have hrange : InRange (c.add chunk.1.toNat chunk.2).totalSize chunks := by
      rw [totalSize_add]
      exact hrest
    obtain ⟨hwell, hsize, hcovers, hchecked⟩ := ih (wellFormed_add hc hin) hrange
    refine ⟨hwell, hsize.trans (totalSize_add ..), fun i => ?_, ?_⟩
    · rw [List.foldl_cons, hcovers, covers_add hc hin, or_assoc]
      refine or_congr_right ?_
      rw [Added, Added, List.exists_mem_cons_iff]
    · rw [List.foldlM_cons, addChecked_eq hc hin, Option.bind_eq_bind, Option.bind_some]
      exact hchecked

-- The counter says nothing that the ranges do not say.
theorem WellFormed.ext {c c' : UploadCoverage} (h : c.WellFormed) (h' : c'.WellFormed)
    (hsize : c.totalSize = c'.totalSize) (hranges : c.ranges = c'.ranges) : c = c' := by
  have hcount : c.coveredBytes = c'.coveredBytes := by
    rw [h.counted, h'.counted, hranges]
  cases c
  cases c'
  rw [UploadCoverage.mk.injEq]
  exact ⟨hsize, hcount, hranges⟩

theorem received_spec (htotal : totalSize < 2 ^ 64) (h : InRange totalSize chunks) :
    (received totalSize chunks).WellFormed ∧
      (received totalSize chunks).totalSize = totalSize ∧
      (∀ i, Covers (received totalSize chunks).ranges i ↔ Added chunks i) ∧
      receivedChecked totalSize chunks = some (received totalSize chunks) := by
  obtain ⟨hwell, hsize, hcovers, hchecked⟩ := foldl_add_spec (wellFormed_new htotal) h
  exact ⟨hwell, hsize, fun i => (hcovers i).trans (or_iff_right (covers_nil i)), hchecked⟩

-- Whatever the order of the chunks: the state is that of the set of bytes they bring.
theorem coverage_exact (totalSize : ℕ) (htotal : totalSize < 2 ^ 64) (chunks : List (ℤ × ℕ))
    (h : InRange totalSize chunks) :
    Separated (received totalSize chunks).ranges ∧
      (∀ i, Covers (received totalSize chunks).ranges i ↔ Added chunks i) ∧
      (received totalSize chunks).coveredBytes = {i | Added chunks i}.ncard ∧
      receivedChecked totalSize chunks = some (received totalSize chunks) ∧
      (∀ chunks', InRange totalSize chunks' → (∀ i, Added chunks' i ↔ Added chunks i) →
        received totalSize chunks' = received totalSize chunks) ∧
      ((received totalSize chunks).complete = true ↔ ∀ i < totalSize, Added chunks i) := by
  obtain ⟨hwell, hsize, hcovers, hchecked⟩ := received_spec htotal h
  obtain ⟨-, hcount⟩ := ncard_covers hwell.separated
  have hset : {i | Covers (received totalSize chunks).ranges i} = {i | Added chunks i} :=
    Set.ext hcovers
  rw [hset] at hcount
  refine ⟨hwell.separated, hcovers, hwell.counted.trans hcount.symm, hchecked, ?_, ?_⟩
  · intro chunks' h' hsame
    obtain ⟨hwell', hsize', hcovers', -⟩ := received_spec htotal h'
    refine hwell'.ext hwell (hsize'.trans hsize.symm)
      (separated_ext hwell'.separated hwell.separated ?_)
    intro i
    rw [hcovers', hcovers, hsame]
  · constructor
    · intro hcomplete i hi
      exact (hcovers i).mp (covers_of_complete hwell hcomplete i (by rwa [hsize]))
    · intro hall
      have hinside : {i | Added chunks i} = Finset.range totalSize := by
        ext i
        rw [Finset.coe_range, Set.mem_Iio]
        refine ⟨fun hi => ?_, hall i⟩
        obtain ⟨r, hr, -, hlt⟩ := (hcovers i).mpr hi
        have := hwell.inside r hr
        omega
      rw [hinside, Set.ncard_coe_finset, Finset.card_range] at hcount
      rw [complete, beq_iff_eq, hwell.counted, hsize]
      exact hcount.symm

theorem coverage_exact_swapped :
    received 6 [(4, 2), (0, 3), (2, 3)] = ⟨6, 6, [(0, 6)]⟩ ∧
      received 6 [(0, 4), (3, 3)] = received 6 [(4, 2), (0, 3), (2, 3)] := by
  refine ⟨by decide, ?_⟩
  refine (coverage_exact 6 (by decide) [(4, 2), (0, 3), (2, 3)] ?_).2.2.2.2.1 _ ?_ fun i => ?_
  · exact List.all_eq_true.mp (by decide)
  · exact List.all_eq_true.mp (by decide)
  · simp only [Added, List.mem_cons, List.not_mem_nil, or_false, exists_eq_or_imp, exists_eq_left]
    omega

end Received

end UploadCoverage

end Glider.Transfer

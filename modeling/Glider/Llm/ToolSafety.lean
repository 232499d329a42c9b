import Mathlib.Data.List.Nodup
import Glider.Lib.Utf8
import Mathlib.Order.Bounds.Basic

namespace Glider.Llm

open Glider.Lib
open Bytes (ascii)

def kMaxToolCallsPerResponse : ℕ := 4

def kMaxToolCallsPerTurn : ℕ := 8

def kMaxToolResultBytes : ℕ := 16 * 1024

structure ToolCallBudget where
  acceptedCalls : ℕ
  seenCallIds : List Bytes

namespace ToolCallBudget

def empty : ToolCallBudget := ⟨0, []⟩

-- The loop over the ids of a batch; `batchIds` are those already passed.
def checkIds (seenCallIds : List Bytes) : List Bytes → List Bytes → Option Bytes
  | _, [] => none
  | batchIds, id :: rest =>
    if id = [] then some (ascii "a tool call had an empty id")
    else if id ∈ seenCallIds ∨ id ∈ batchIds then
      some (ascii "the model repeated tool call id " ++ id)
    else checkIds seenCallIds (batchIds ++ [id]) rest

-- The reason of a refusal, and the budget after the batch.
def acceptBatch (b : ToolCallBudget) (callIds : List Bytes) : Option Bytes × ToolCallBudget :=
  if callIds.length > kMaxToolCallsPerResponse then
    (some (ascii "the model requested more than 4 tools in one response"), b)
  else if b.acceptedCalls + callIds.length > kMaxToolCallsPerTurn then
    (some (ascii "the model requested more than 8 tools in one turn"), b)
  else
    match checkIds b.seenCallIds [] callIds with
    | some reason => (some reason, b)
    | none => (none, ⟨b.acceptedCalls + callIds.length, b.seenCallIds ++ callIds⟩)

theorem checkIds_eq_none {seenCallIds batchIds callIds : List Bytes} (hbatch : batchIds.Nodup) :
    checkIds seenCallIds batchIds callIds = none ↔
      (batchIds ++ callIds).Nodup ∧ (∀ id ∈ callIds, id ≠ [] ∧ id ∉ seenCallIds) := by
  induction callIds generalizing batchIds with
  | nil => simp [checkIds, hbatch]
  | cons id rest ih =>
    unfold checkIds
    split_ifs with hempty hseen
    · refine iff_of_false (by simp) ?_
      rintro ⟨-, h⟩
      exact (h id List.mem_cons_self).1 hempty
    · refine iff_of_false (by simp) ?_
      rintro ⟨hnodup, h⟩
      rcases hseen with hseen | hseen
      · exact (h id List.mem_cons_self).2 hseen
      · exact List.disjoint_of_nodup_append hnodup hseen List.mem_cons_self
    · rw [not_or] at hseen
      have hnext : (batchIds ++ [id]).Nodup := by
        rw [List.nodup_append']
        exact ⟨hbatch, List.nodup_singleton id, List.disjoint_singleton.mpr hseen.2⟩
      rw [ih hnext, List.append_assoc, List.singleton_append, List.forall_mem_cons]
      exact and_congr_right fun _ => (and_iff_right ⟨hempty, hseen.1⟩).symm

-- A batch is accepted as a whole, and then it fits.
theorem acceptBatch_eq_none {b : ToolCallBudget} {callIds : List Bytes} :
    (b.acceptBatch callIds).1 = none ↔
      callIds.length ≤ kMaxToolCallsPerResponse ∧
        b.acceptedCalls + callIds.length ≤ kMaxToolCallsPerTurn ∧ callIds.Nodup ∧
        ∀ id ∈ callIds, id ≠ [] ∧ id ∉ b.seenCallIds := by
  unfold acceptBatch
  split_ifs with hresponse hturn
  · exact iff_of_false (by simp) fun h => absurd h.1 (Nat.not_le.mpr hresponse)
  · exact iff_of_false (by simp) fun h => absurd h.2.1 (Nat.not_le.mpr hturn)
  · rw [and_iff_right (Nat.not_lt.mp hresponse), and_iff_right (Nat.not_lt.mp hturn)]
    have hids := @checkIds_eq_none b.seenCallIds [] callIds List.nodup_nil
    rw [List.nil_append] at hids
    rw [← hids]
    cases checkIds b.seenCallIds [] callIds <;> simp

theorem acceptBatch_snd {b : ToolCallBudget} {callIds : List Bytes}
    (h : (b.acceptBatch callIds).1 = none) :
    (b.acceptBatch callIds).2 = ⟨b.acceptedCalls + callIds.length, b.seenCallIds ++ callIds⟩ := by
  unfold acceptBatch at h ⊢
  split_ifs at h ⊢
  cases hids : checkIds b.seenCallIds [] callIds with
  | none => rfl
  | some reason => simp [hids] at h

end ToolCallBudget

def truncationMarker : Bytes := ascii "\n[tool result truncated]"

-- Back to the start of a character.
def characterStart (result : Bytes) : ℕ → ℕ
  | 0 => 0
  | n + 1 => if result.getD (n + 1) 0 &&& 0xC0 = 0x80 then characterStart result n else n + 1

def boundedToolResult (result : Bytes) : Bytes :=
  if result.length ≤ kMaxToolResultBytes then result
  else
    result.take (characterStart result (kMaxToolResultBytes - truncationMarker.length)) ++
      truncationMarker

theorem characterStart_le (result : Bytes) (n : ℕ) : characterStart result n ≤ n := by
  induction n with
  | zero => exact Nat.le_refl 0
  | succ n ih =>
    unfold characterStart
    split_ifs
    · omega
    · exact Nat.le_refl _

theorem length_boundedToolResult (result : Bytes) :
    (boundedToolResult result).length ≤ kMaxToolResultBytes := by
  unfold boundedToolResult
  split_ifs with h
  · exact h
  · have hmarker : truncationMarker.length = 24 := by decide
    have hstart := characterStart_le result (kMaxToolResultBytes - truncationMarker.length)
    have hlimit : kMaxToolResultBytes = 16384 := rfl
    rw [List.length_append, List.length_take]
    omega

open Utf8 (Valid Boundary boundary_iff boundary_zero isContinuation)

variable {result : Bytes} {n : ℕ}

theorem valid_truncationMarker : Valid truncationMarker :=
  ⟨"\n[tool result truncated]".toList, by decide +kernel⟩

-- The loop looks at the byte behind the cut: a character starts there or the text is over.
theorem boundary_iff_getD (hvalid : Valid result) (hn : n < result.length) :
    Boundary result n ↔ ¬ result.getD n 0 &&& 0xC0 = 0x80 := by
  rw [boundary_iff hvalid, List.getD_eq_getElem?_getD, List.getElem?_eq_getElem hn]
  simp [isContinuation, Nat.le_of_lt hn]

theorem boundary_characterStart (hvalid : Valid result) (hn : n < result.length) :
    Boundary result (characterStart result n) := by
  induction n with
  | zero => exact boundary_zero hvalid
  | succ n ih =>
    unfold characterStart
    split_ifs with hinside
    · exact ih (Nat.lt_of_succ_lt hn)
    · exact (boundary_iff_getD hvalid hn).mpr hinside

-- No boundary is passed on the way back.
theorem le_characterStart (hvalid : Valid result) (hn : n < result.length) {m : ℕ}
    (hm : Boundary result m) (hle : m ≤ n) : m ≤ characterStart result n := by
  induction n with
  | zero => exact hle
  | succ n ih =>
    unfold characterStart
    split_ifs with hinside
    · have hne : m ≠ n + 1 := by
        rintro rfl
        exact (boundary_iff_getD hvalid hn).mp hm hinside
      exact ih (Nat.lt_of_succ_lt hn) (by omega)
    · exact hle

theorem boundedToolResult_of_le (h : result.length ≤ kMaxToolResultBytes) :
    boundedToolResult result = result := if_pos h

theorem boundedToolResult_of_gt (h : kMaxToolResultBytes < result.length) :
    boundedToolResult result =
      result.take (characterStart result (kMaxToolResultBytes - truncationMarker.length)) ++
        truncationMarker := if_neg (Nat.not_le.mpr h)

-- The cuts between two characters that leave room for the marker.
def cuts (result : Bytes) : Set ℕ :=
  {n | Boundary result n ∧ n + truncationMarker.length ≤ kMaxToolResultBytes}

theorem isGreatest_cuts (hvalid : Valid result) (h : kMaxToolResultBytes < result.length) :
    IsGreatest (cuts result)
      (characterStart result (kMaxToolResultBytes - truncationMarker.length)) := by
  have hroom : truncationMarker.length ≤ kMaxToolResultBytes := by decide
  have hinside : kMaxToolResultBytes - truncationMarker.length < result.length := by omega
  have hback := characterStart_le result (kMaxToolResultBytes - truncationMarker.length)
  refine ⟨⟨boundary_characterStart hvalid hinside, by omega⟩, ?_⟩
  rintro m ⟨hm, hfits⟩
  exact le_characterStart hvalid hinside hm (by omega)

theorem valid_boundedToolResult (hvalid : Valid result) : Valid (boundedToolResult result) := by
  rcases Nat.lt_or_ge kMaxToolResultBytes result.length with h | h
  · rw [boundedToolResult_of_gt h]
    exact (isGreatest_cuts hvalid h).1.1.2.1.append valid_truncationMarker
  · rwa [boundedToolResult_of_le h]

theorem toolResult_bounded (result : Bytes) :
    (boundedToolResult result).length ≤ kMaxToolResultBytes ∧
      (result.length ≤ kMaxToolResultBytes → boundedToolResult result = result) ∧
      (kMaxToolResultBytes < result.length →
        ∃ n, boundedToolResult result = result.take n ++ truncationMarker ∧
          (Valid result → IsGreatest (cuts result) n)) ∧
      (Valid result → Valid (boundedToolResult result)) :=
  ⟨length_boundedToolResult result, boundedToolResult_of_le,
    fun h => ⟨_, boundedToolResult_of_gt h, fun hvalid => isGreatest_cuts hvalid h⟩,
    valid_boundedToolResult⟩

end Glider.Llm

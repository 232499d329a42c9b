import Mathlib.Data.List.Basic

namespace Glider.Lib

variable {β : Type*}

-- A write at an offset. A gap between the old end and the offset reads as `pad`; an empty write
-- changes nothing, not even the length.
def overwrite (pad : β) (data : List β) (offset : ℕ) : List β → List β
  | [] => data
  | chunk@(_ :: _) =>
    data.take offset ++ List.replicate (offset - data.length) pad ++ chunk ++
      data.drop (offset + chunk.length)

-- The file left by a log of writes, newest first, on an empty file.
def replay (pad : β) : List (ℕ × List β) → List β
  | [] => []
  | (offset, chunk) :: older => overwrite pad (replay pad older) offset chunk

-- The byte that the newest write over position `i` put there.
def lastWrite : List (ℕ × List β) → ℕ → Option β
  | [], _ => none
  | (offset, chunk) :: older, i =>
    if offset ≤ i ∧ i < offset + chunk.length then chunk[i - offset]? else lastWrite older i

@[simp] theorem overwrite_nil (pad : β) (data : List β) (offset : ℕ) :
    overwrite pad data offset [] = data := rfl

theorem overwrite_of_ne_nil (pad : β) (data : List β) (offset : ℕ) {chunk : List β}
    (hc : chunk ≠ []) :
    overwrite pad data offset chunk =
      data.take offset ++ List.replicate (offset - data.length) pad ++ chunk ++
        data.drop (offset + chunk.length) := by
  cases chunk with
  | nil => exact absurd rfl hc
  | cons b rest => rfl

theorem length_overwrite (pad : β) (data : List β) (offset : ℕ) {chunk : List β}
    (hc : chunk ≠ []) :
    (overwrite pad data offset chunk).length = max data.length (offset + chunk.length) := by
  rw [overwrite_of_ne_nil pad data offset hc]
  simp only [List.length_append, List.length_take, List.length_replicate, List.length_drop]
  omega

theorem length_overwrite_le (pad : β) (data : List β) (offset : ℕ) (chunk : List β) :
    (overwrite pad data offset chunk).length ≤ max data.length (offset + chunk.length) := by
  by_cases hc : chunk = []
  · subst hc
    exact Nat.le_max_left _ _
  · exact Nat.le_of_eq (length_overwrite pad data offset hc)

theorem getElem?_overwrite_inside (pad : β) (data : List β) (offset : ℕ) (chunk : List β) (i : ℕ)
    (hlo : offset ≤ i) (hhi : i < offset + chunk.length) :
    (overwrite pad data offset chunk)[i]? = chunk[i - offset]? := by
  have hc : chunk ≠ [] := by rintro rfl; simp at hhi; omega
  have hfront : (data.take offset ++ List.replicate (offset - data.length) pad).length = offset := by
    simp only [List.length_append, List.length_take, List.length_replicate]
    omega
  rw [overwrite_of_ne_nil pad data offset hc,
    List.getElem?_append_left (by simp only [List.length_append] at hfront ⊢; omega),
    List.getElem?_append_right (by omega), hfront]

-- A position that the old file had and the write does not reach keeps its byte.
theorem getElem?_overwrite_outside (pad : β) (data : List β) (offset : ℕ) (chunk : List β) (i : ℕ)
    (hi : i < data.length) (hout : ¬(offset ≤ i ∧ i < offset + chunk.length)) :
    (overwrite pad data offset chunk)[i]? = data[i]? := by
  by_cases hc : chunk = []
  · subst hc
    rfl
  rw [overwrite_of_ne_nil pad data offset hc]
  by_cases hlo : i < offset
  · have ht : i < (data.take offset).length := by simp only [List.length_take]; omega
    rw [List.append_assoc, List.append_assoc, List.getElem?_append_left ht,
      List.getElem?_take_of_lt hlo]
  · have hfront : (data.take offset ++ List.replicate (offset - data.length) pad ++ chunk).length =
        offset + chunk.length := by
      simp only [List.length_append, List.length_take, List.length_replicate]
      omega
    rw [List.getElem?_append_right (by omega), hfront, List.getElem?_drop]
    congr 1
    omega

theorem length_replay_le (pad : β) (log : List (ℕ × List β)) (n : ℕ)
    (hlog : ∀ w ∈ log, w.1 + w.2.length ≤ n) : (replay pad log).length ≤ n := by
  induction log with
  | nil => exact Nat.zero_le n
  | cons w older ih =>
    have hw := hlog w (by simp)
    have ho := ih (fun v hv => hlog v (List.mem_cons_of_mem _ hv))
    have hl := length_overwrite_le pad (replay pad older) w.1 w.2
    simp only [replay]
    omega

-- Every position ever written holds the byte of the newest write over it.
theorem getElem?_replay (pad : β) (log : List (ℕ × List β)) (i : ℕ) (b : β)
    (hb : lastWrite log i = some b) : (replay pad log)[i]? = some b := by
  induction log with
  | nil => simp [lastWrite] at hb
  | cons w older ih =>
    simp only [lastWrite] at hb
    simp only [replay]
    split at hb
    · rename_i hin
      rw [getElem?_overwrite_inside pad _ _ _ _ hin.1 hin.2, hb]
    · rename_i hout
      have ho := ih hb
      have hi : i < (replay pad older).length := (List.getElem?_eq_some_iff.mp ho).1
      rw [getElem?_overwrite_outside pad _ _ _ _ hi hout, ho]

theorem lastWrite_isSome_of_mem (log : List (ℕ × List β)) (i : ℕ) (w : ℕ × List β) (hw : w ∈ log)
    (hlo : w.1 ≤ i) (hhi : i < w.1 + w.2.length) : (lastWrite log i).isSome := by
  induction log with
  | nil => simp at hw
  | cons v older ih =>
    simp only [lastWrite]
    split
    · rename_i hin
      rw [List.getElem?_eq_getElem (by omega)]
      rfl
    · rename_i hout
      rcases List.mem_cons.mp hw with rfl | hw
      · exact absurd ⟨hlo, hhi⟩ hout
      · exact ih hw

-- A file of `n` bytes whose positions are all written is determined by the log.
theorem length_replay (pad : β) (log : List (ℕ × List β)) (n : ℕ)
    (hlog : ∀ w ∈ log, w.1 + w.2.length ≤ n)
    (hfull : ∀ i < n, (lastWrite log i).isSome) : (replay pad log).length = n := by
  apply Nat.le_antisymm (length_replay_le pad log n hlog)
  by_contra hlt
  obtain ⟨b, hb⟩ := Option.isSome_iff_exists.mp (hfull (replay pad log).length (by omega))
  have hi := (List.getElem?_eq_some_iff.mp (getElem?_replay pad log _ b hb)).1
  omega

end Glider.Lib

import Mathlib.Data.List.Basic

namespace Glider.Lib

-- A file that is written through a buffer. `bad` stays set after a failure, and is not heeded by
-- whoever does not look.
structure OutputFile (β : Type*) where
  stored : List β
  pending : List β
  bad : Bool

-- How many elements of the buffer reach the file. A failure leaves at least one of them behind.
inductive Flush where
  | passes (count : ℕ)
  | fails (count : ℕ)

def Flush.IsPass : Flush → Prop
  | .passes _ => True
  | .fails _ => False

namespace OutputFile

variable {β : Type*}

def empty : OutputFile β := ⟨[], [], false⟩

-- What a failed flush of these elements stores.
def kept (count : ℕ) (elements : List β) : List β := elements.take (min count (elements.length - 1))

def write (file : OutputFile β) (data : List β) (flush : Flush) : OutputFile β :=
  if file.bad || data.isEmpty then file
  else
    match flush with
    | .passes count =>
      ⟨file.stored ++ (file.pending ++ data).take count, (file.pending ++ data).drop count, false⟩
    | .fails count => ⟨file.stored ++ kept count (file.pending ++ data), [], true⟩

-- What is in the file once it is closed.
def close (file : OutputFile β) (flush : Flush) : List β :=
  if file.bad then file.stored
  else
    match flush with
    | .passes _ => file.stored ++ file.pending
    | .fails count => file.stored ++ kept count file.pending

-- Writes in turn; the outcomes are those of the writes with these numbers.
def writeAll (flush : ℕ → Flush) : ℕ → List (List β) → OutputFile β → OutputFile β
  | _, [], file => file
  | n, data :: rest, file => writeAll flush (n + 1) rest (file.write data (flush n))

-- No write with something to write has failed.
def Passes (flush : ℕ → Flush) : ℕ → List (List β) → Prop
  | _, [] => True
  | n, data :: rest => (data ≠ [] → Flush.IsPass (flush n)) ∧ Passes flush (n + 1) rest

-- The file stands for what was written to it, or something of that is lost.
structure Tracks (file : OutputFile β) (data : List β) : Prop where
  whole : file.bad = false → file.stored ++ file.pending = data
  lost : file.bad = true → file.stored.length < data.length

variable {file : OutputFile β} {data : List β} {flush : ℕ → Flush}

theorem length_kept_lt {elements : List β} (h : elements ≠ []) (count : ℕ) :
    (kept count elements).length < elements.length := by
  have hpos : 0 < elements.length := List.length_pos_iff.mpr h
  rw [kept, List.length_take]
  omega

theorem Tracks.empty : Tracks (OutputFile.empty : OutputFile β) [] := ⟨fun _ => rfl, nofun⟩

theorem Tracks.write (h : Tracks file data) (more : List β) (flush : Flush) :
    Tracks (file.write more flush) (data ++ more) := by
  unfold OutputFile.write
  split
  · next hskip =>
    obtain hbad | hempty := Bool.or_eq_true_iff.mp hskip
    · refine ⟨fun hgood => ?_, fun _ => ?_⟩
      · rw [hbad] at hgood
        cases hgood
      · have hlost := h.lost hbad
        rw [List.length_append]
        omega
    · rw [List.isEmpty_iff.mp hempty, List.append_nil]
      exact h
  · next hwrites =>
    obtain ⟨hgood, hmore⟩ := Bool.or_eq_false_iff.mp (Bool.eq_false_iff.mpr hwrites)
    have hwhole := h.whole hgood
    cases flush with
    | passes count =>
      refine ⟨fun _ => ?_, nofun⟩
      rw [List.append_assoc, List.take_append_drop, ← List.append_assoc, hwhole]
    | fails count =>
      refine ⟨nofun, fun _ => ?_⟩
      have hne : file.pending ++ more ≠ [] := by
        intro hnil
        rw [(List.append_eq_nil_iff.mp hnil).2] at hmore
        cases hmore
      have hkept := length_kept_lt hne count
      rw [← hwhole, List.length_append]
      simp only [List.length_append] at hkept ⊢
      omega

theorem Tracks.writeAll (h : Tracks file data) (n : ℕ) (chunks : List (List β)) :
    Tracks (writeAll flush n chunks file) (data ++ chunks.flatten) := by
  induction chunks generalizing n file data with
  | nil =>
    rw [List.flatten_nil, List.append_nil]
    exact h
  | cons chunk rest ih =>
    rw [List.flatten_cons, ← List.append_assoc]
    exact ih (h.write chunk (flush n)) (n + 1)

theorem bad_writeAll_of_bad (h : file.bad = true) (n : ℕ) (chunks : List (List β)) :
    (OutputFile.writeAll flush n chunks file).bad = true := by
  induction chunks generalizing n with
  | nil => exact h
  | cons chunk rest ih =>
    have hsame : file.write chunk (flush n) = file := by simp [OutputFile.write, h]
    rw [OutputFile.writeAll, hsame]
    exact ih (n + 1)

-- Without a failure the file is good, and with one it is not.
theorem bad_writeAll_iff (h : file.bad = false) (n : ℕ) (chunks : List (List β)) :
    (OutputFile.writeAll flush n chunks file).bad = false ↔ Passes flush n chunks := by
  induction chunks generalizing n file with
  | nil => exact iff_of_true h trivial
  | cons chunk rest ih =>
    rw [OutputFile.writeAll, Passes, OutputFile.write.eq_def, h, Bool.false_or]
    cases chunk with
    | nil => simpa using ih h (n + 1)
    | cons b chunk =>
      cases hflush : flush n with
      | passes count => simpa [Flush.IsPass] using ih rfl (n + 1)
      | fails count =>
        have hbad : (OutputFile.writeAll flush (n + 1) rest
            ⟨file.stored ++ kept count (file.pending ++ b :: chunk), [], true⟩).bad = true :=
          bad_writeAll_of_bad rfl ..
        simp [Flush.IsPass, hbad]

-- The closed file holds all that was written just when nothing was lost on the way.
theorem close_eq_iff (h : Tracks file data) (flush : Flush) :
    file.close flush = data ↔
      file.bad = false ∧ (file.pending ≠ [] → Flush.IsPass flush) := by
  unfold OutputFile.close
  split
  · next hbad =>
    have hlost := h.lost hbad
    simp only [hbad, Bool.true_eq_false, false_and, iff_false]
    rintro rfl
    omega
  · next hgood =>
    have hgood := Bool.eq_false_iff.mpr hgood
    have hwhole := h.whole hgood
    simp only [hgood, true_and]
    cases flush with
    | passes count => exact iff_of_true hwhole fun _ => trivial
    | fails count =>
      simp only [Flush.IsPass, imp_false, not_not]
      constructor
      · intro hsame
        by_contra hpending
        have hkept := length_kept_lt hpending count
        rw [← hwhole, List.append_cancel_left_eq] at hsame
        rw [hsame] at hkept
        omega
      · intro hpending
        have hkept : kept count ([] : List β) = [] := List.take_nil
        rw [hpending] at hwhole ⊢
        rw [← hwhole, hkept]

end OutputFile

end Glider.Lib

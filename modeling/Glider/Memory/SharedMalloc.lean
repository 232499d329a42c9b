import Glider.Lib.Overwrite
import Mathlib.Data.Int.Notation
import Mathlib.Data.Nat.Notation
import Mathlib.Algebra.Order.Ring.Nat

namespace Glider.Memory

open Glider.Lib (overwrite length_overwrite length_overwrite_le getElem?_overwrite_inside
  getElem?_overwrite_outside)

-- How an operation ends without a result. Signed overflow is undefined and an unsigned result
-- would wrap: either counts as `overflow`. An access beyond the end of a buffer is an `overrun`.
inductive Fault where
  | outOfRange (what : String)
  | overflow
  | overrun
  deriving DecidableEq

-- A result held against `std::ptrdiff_t`, and one held against `std::size_t`.
def offsetType (z : ℤ) : Except Fault ℤ :=
  if -2 ^ 63 ≤ z ∧ z < 2 ^ 63 then .ok z else .error .overflow

def sizeType (z : ℤ) : Except Fault ℕ :=
  if 0 ≤ z ∧ z < 2 ^ 64 then .ok z.toNat else .error .overflow

theorem offsetType_of_range {z : ℤ} (hlo : -2 ^ 63 ≤ z) (hhi : z < 2 ^ 63) :
    offsetType z = .ok z := if_pos ⟨hlo, hhi⟩

theorem sizeType_of_range {n : ℕ} (h : n < 2 ^ 64) : sizeType n = .ok n :=
  if_pos ⟨Int.natCast_nonneg n, by omega⟩

structure SharedMalloc where
  data : List UInt8
  size_lt : data.length < 2 ^ 64

namespace SharedMalloc

def size (m : SharedMalloc) : ℕ := m.data.length

-- Fresh memory is zeroed.
def ofSize (size : UInt64) : SharedMalloc :=
  ⟨List.replicate size.toNat 0, by rw [List.length_replicate]; exact size.toNat_lt⟩

-- Negating the least offset would overflow, so one is added first.
def normalize (m : SharedMalloc) (offset : Int64) : Except Fault ℕ :=
  if offset < 0 then do
    let next ← offsetType (offset.toInt + 1)
    let opposite ← offsetType (-next)
    let magnitude ← sizeType (opposite + 1)
    if magnitude > m.size then
      .error (.outOfRange "Negative offset exceeds allocated memory bounds")
    else sizeType (m.size - magnitude)
  else sizeType offset.toInt

-- The room is a difference, so that no sum can wrap.
def validateRange (m : SharedMalloc) (offset : Int64) (length : UInt64) : Except Fault ℕ := do
  let normalized ← m.normalize offset
  if normalized > m.size then
    .error (.outOfRange "Operation range exceeds allocated memory bounds")
  else do
    let room ← sizeType (m.size - normalized)
    if length.toNat > room then
      .error (.outOfRange "Operation range exceeds allocated memory bounds")
    else .ok normalized

-- The bytes that `memcpy` and `memmove` read and write of the allocation.
def readBytes (m : SharedMalloc) (normalized size : ℕ) : Except Fault (List UInt8) :=
  if normalized + size ≤ m.size then .ok ((m.data.drop normalized).take size) else .error .overrun

def write (m : SharedMalloc) (normalized : ℕ) (chunk : List UInt8)
    (h : normalized + chunk.length ≤ m.size) : SharedMalloc :=
  ⟨overwrite 0 m.data normalized chunk, by
    have hle := length_overwrite_le 0 m.data normalized chunk
    have hlt := m.size_lt
    unfold size at h
    omega⟩

def writeBytes (m : SharedMalloc) (normalized : ℕ) (chunk : List UInt8) :
    Except Fault SharedMalloc :=
  if h : normalized + chunk.length ≤ m.size then .ok (m.write normalized chunk h)
  else .error .overrun

def assignTo (m : SharedMalloc) (size : UInt64) (offset : Int64) : Except Fault (List UInt8) := do
  let normalized ← m.validateRange offset size
  m.readBytes normalized size.toNat

-- `ref` is what the pointer leads to; no more than that can be copied.
def assignFrom (m : SharedMalloc) (ref : List UInt8) (size : UInt64) (offset : Int64) :
    Except Fault SharedMalloc := do
  let normalized ← m.validateRange offset size
  if ref.length < size.toNat then .error .overrun
  else m.writeBytes normalized (ref.take size.toNat)

-- `memmove` reads the whole source before it writes.
def move (m : SharedMalloc) (startOffset destOffset : Int64) (size : UInt64) :
    Except Fault SharedMalloc := do
  let source ← m.validateRange startOffset size
  let destination ← m.validateRange destOffset size
  let bytes ← m.readBytes source size.toNat
  m.writeBytes destination bytes

variable (m : SharedMalloc) (offset : Int64) (length : UInt64) {n : ℕ}

-- Where an offset points: negative ones count from the end.
def place : ℤ := if offset < 0 then m.size + offset.toInt else offset.toInt

-- The range of `length` bytes from `n` is the one that the offset means, and inside the memory.
structure InRange (n : ℕ) : Prop where
  place : (n : ℤ) = m.place offset
  fits : n + length.toNat ≤ m.size

variable {m offset length}

theorem InRange.unique {k : ℕ} (hn : m.InRange offset length n) (hk : m.InRange offset length k) :
    n = k := by
  have := hn.place.trans hk.place.symm
  omega

theorem lt_zero_iff : offset < 0 ↔ offset.toInt < 0 := Int64.lt_iff_toInt_lt

-- Below zero the magnitude is computed without leaving either type, also at the least offset.
theorem normalize_of_neg (h : offset < 0) {k : ℕ} (hk : -offset.toInt = k) :
    m.normalize offset =
      if m.size < k then .error (.outOfRange "Negative offset exceeds allocated memory bounds")
      else .ok (m.size - k) := by
  have hneg := lt_zero_iff.mp h
  have hlo := offset.le_toInt
  have hsize : m.size < 2 ^ 64 := m.size_lt
  have hnext : offsetType (offset.toInt + 1) = .ok (offset.toInt + 1) :=
    offsetType_of_range (by omega) (by omega)
  have hopposite : offsetType (-(offset.toInt + 1)) = .ok (k - 1 : ℤ) := by
    rw [offsetType_of_range (by omega) (by omega)]
    exact congrArg Except.ok (by omega)
  have hmagnitude : sizeType (k - 1 + 1 : ℤ) = .ok k := by
    rw [Int.sub_add_cancel]
    exact sizeType_of_range (by omega)
  simp only [normalize, if_pos h, hnext, hopposite, hmagnitude, bind, Except.bind]
  split_ifs with hover
  · rfl
  · rw [← Int.natCast_sub (Nat.not_lt.mp hover)]
    exact sizeType_of_range (by omega)

theorem normalize_of_nonneg (h : ¬ offset < 0) {k : ℕ} (hk : offset.toInt = k) :
    m.normalize offset = .ok k := by
  have hhi := offset.toInt_lt
  rw [normalize, if_neg h, hk]
  exact sizeType_of_range (by omega)

theorem validateRange_of_normalize (hn : n < 2 ^ 64) (h : m.normalize offset = .ok n) :
    m.validateRange offset length =
      if n + length.toNat ≤ m.size then .ok n
      else .error (.outOfRange "Operation range exceeds allocated memory bounds") := by
  have hsize : m.size < 2 ^ 64 := m.size_lt
  simp only [validateRange, h, bind, Except.bind]
  by_cases hle : n ≤ m.size
  · have hroom : sizeType (m.size - n) = .ok (m.size - n) := by
      rw [← Int.natCast_sub hle]
      exact sizeType_of_range (by omega)
    simp only [if_neg (Nat.not_lt.mpr hle), hroom]
    by_cases hfits : n + length.toNat ≤ m.size
    · rw [if_neg (by omega), if_pos hfits]
    · rw [if_pos (by omega), if_neg hfits]
  · rw [if_pos (Nat.not_le.mp hle), if_neg (by omega)]

theorem validateRange_of_error {fault : Fault} (h : m.normalize offset = .error fault) :
    m.validateRange offset length = .error fault := by
  simp only [validateRange, h, bind, Except.bind]

-- The two ways of `validateRange`: inside, or an exception; no value leaves its type.
theorem validateRange_cases (m : SharedMalloc) (offset : Int64) (length : UInt64) :
    (∃ n, m.validateRange offset length = .ok n ∧ m.InRange offset length n) ∨
      (∃ what, m.validateRange offset length = .error (.outOfRange what)) ∧
        ∀ n, ¬ m.InRange offset length n := by
  by_cases h : offset < 0
  · have hneg := lt_zero_iff.mp h
    obtain ⟨k, hk⟩ : ∃ k : ℕ, -offset.toInt = k := ⟨_, (Int.toNat_of_nonneg (by omega)).symm⟩
    have hplace : m.place offset = m.size - k := by
      rw [place, if_pos h]
      omega
    have hnormalize := normalize_of_neg (m := m) h hk
    have hsize : m.size < 2 ^ 64 := m.size_lt
    split_ifs at hnormalize with hover
    · rw [validateRange_of_error hnormalize]
      refine .inr ⟨⟨_, rfl⟩, fun n hn => ?_⟩
      have := hn.place
      omega
    · rw [validateRange_of_normalize (by omega) hnormalize]
      split_ifs with hfits
      · exact .inl ⟨_, rfl, by omega, hfits⟩
      · refine .inr ⟨⟨_, rfl⟩, fun n hn => hfits ?_⟩
        have := hn.place
        have := hn.fits
        omega
  · obtain ⟨k, hk⟩ : ∃ k : ℕ, offset.toInt = k :=
      ⟨_, (Int.toNat_of_nonneg (Int.not_lt.mp (mt lt_zero_iff.mpr h))).symm⟩
    have hplace : m.place offset = k := by rw [place, if_neg h, hk]
    have hhi := offset.toInt_lt
    rw [validateRange_of_normalize (by omega) (normalize_of_nonneg h hk)]
    split_ifs with hfits
    · exact .inl ⟨k, rfl, hplace.symm, hfits⟩
    · refine .inr ⟨⟨_, rfl⟩, fun n hn => hfits ?_⟩
      have := hn.place
      have := hn.fits
      omega

theorem validateRange_eq_ok_iff :
    m.validateRange offset length = .ok n ↔ m.InRange offset length n := by
  rcases m.validateRange_cases offset length with ⟨k, hk, hin⟩ | ⟨⟨what, hwhat⟩, hnone⟩
  · rw [hk, Except.ok.injEq]
    exact ⟨fun h => h ▸ hin, fun hn => hin.unique hn⟩
  · rw [hwhat]
    exact iff_of_false (by simp) (hnone n)

theorem validateRange_throws_iff :
    (∃ what, m.validateRange offset length = .error (.outOfRange what)) ↔
      ∀ n, ¬ m.InRange offset length n := by
  rcases m.validateRange_cases offset length with ⟨k, hk, hin⟩ | ⟨hwhat, hnone⟩
  · exact iff_of_false (by simp [hk]) fun hnone => hnone k hin
  · exact iff_of_true hwhat hnone

theorem validateRange_ne_overflow : m.validateRange offset length ≠ .error .overflow := by
  rcases m.validateRange_cases offset length with ⟨k, hk, -⟩ | ⟨⟨what, hwhat⟩, -⟩
  · simp [hk]
  · simp [hwhat]

-- The least offset, whose negation is no `std::ptrdiff_t`.
example : (ofSize 8).validateRange Int64.minValue 0 =
    .error (.outOfRange "Negative offset exceeds allocated memory bounds") := by decide

-- Nothing but the bytes from `n` to `n + length` has changed.
structure SameOutside (m m' : SharedMalloc) (n length : ℕ) : Prop where
  size : m'.size = m.size
  outside : ∀ i, i < n ∨ n + length ≤ i → m'.data[i]? = m.data[i]?

variable {chunk : List UInt8} {h : n + chunk.length ≤ m.size}

theorem getElem?_write {i : ℕ} (hi : i < chunk.length) :
    (m.write n chunk h).data[n + i]? = chunk[i]? := by
  have hinside := getElem?_overwrite_inside 0 m.data n chunk (n + i) (by omega) (by omega)
  rwa [Nat.add_sub_cancel_left] at hinside

theorem sameOutside_write : SameOutside m (m.write n chunk h) n chunk.length := by
  have hsize : (m.write n chunk h).size = m.size := by
    by_cases hc : chunk = []
    · subst hc
      rfl
    · have hlength := length_overwrite 0 m.data n hc
      unfold size at h
      exact hlength.trans (Nat.max_eq_left h)
  refine ⟨hsize, fun i hi => ?_⟩
  by_cases hlt : i < m.data.length
  · exact getElem?_overwrite_outside 0 m.data n chunk i hlt (by omega)
  · unfold size at hsize
    rw [List.getElem?_eq_none (by omega), List.getElem?_eq_none (by omega)]

theorem readBytes_write : (m.write n chunk h).readBytes n chunk.length = .ok chunk := by
  have hsize : (m.write n chunk h).size = m.size := sameOutside_write.size
  rw [readBytes, if_pos (by omega)]
  congr 1
  refine List.ext_getElem? fun i => ?_
  by_cases hi : i < chunk.length
  · rw [List.getElem?_take_of_lt hi, List.getElem?_drop, getElem?_write hi]
  · rw [List.getElem?_eq_none (by rw [List.length_take]; omega),
      List.getElem?_eq_none (Nat.not_lt.mp hi)]

-- The place of an offset depends on the size alone.
theorem InRange.of_size (m' : SharedMalloc) (hn : m.InRange offset length n)
    (hsize : m'.size = m.size) : m'.InRange offset length n := by
  refine ⟨?_, by rw [hsize]; exact hn.fits⟩
  rw [hn.place, SharedMalloc.place, SharedMalloc.place, hsize]

theorem assignFrom_of_inRange (hn : m.InRange offset length n)
    (hchunk : chunk.length = length.toNat) :
    ∃ m', m.assignFrom chunk length offset = .ok m' ∧ m'.assignTo length offset = .ok chunk ∧
      SameOutside m m' n length.toNat := by
  have hfits : n + chunk.length ≤ m.size := by rw [hchunk]; exact hn.fits
  refine ⟨m.write n chunk hfits, ?_, ?_, hchunk ▸ sameOutside_write⟩
  · simp only [assignFrom, validateRange_eq_ok_iff.mpr hn, bind, Except.bind]
    rw [if_neg (by omega), ← hchunk, List.take_length, writeBytes, dif_pos hfits]
  · have hafter := hn.of_size (m.write n chunk hfits) sameOutside_write.size
    simp only [assignTo, validateRange_eq_ok_iff.mpr hafter, bind, Except.bind]
    rw [← hchunk]
    exact readBytes_write

-- The bytes that arrive are those of the source before the call, however the ranges overlap.
theorem move_of_inRange {destOffset : Int64} {source destination : ℕ}
    (hsource : m.InRange offset length source)
    (hdestination : m.InRange destOffset length destination) :
    ∃ m', m.move offset destOffset length = .ok m' ∧
      (∀ i < length.toNat, m'.data[destination + i]? = m.data[source + i]?) ∧
      SameOutside m m' destination length.toNat := by
  let bytes := (m.data.drop source).take length.toNat
  have hbytes : bytes.length = length.toNat := by
    have hfits : source + length.toNat ≤ m.data.length := hsource.fits
    rw [List.length_take, List.length_drop]
    omega
  have hfits : destination + bytes.length ≤ m.size := by rw [hbytes]; exact hdestination.fits
  refine ⟨m.write destination bytes hfits, ?_, fun i hi => ?_, hbytes ▸ sameOutside_write⟩
  · simp only [move, validateRange_eq_ok_iff.mpr hsource, validateRange_eq_ok_iff.mpr hdestination,
      bind, Except.bind, readBytes, if_pos hsource.fits]
    rw [writeBytes, dif_pos hfits]
  · rw [getElem?_write (hbytes ▸ hi), List.getElem?_take_of_lt hi, List.getElem?_drop]

theorem move_throws {destOffset : Int64}
    (h : (∀ n, ¬ m.InRange offset length n) ∨ ∀ n, ¬ m.InRange destOffset length n) :
    ∃ what, m.move offset destOffset length = .error (.outOfRange what) := by
  rcases m.validateRange_cases offset length with ⟨source, hok, hin⟩ | ⟨⟨what, hwhat⟩, -⟩
  · have hdest := h.resolve_left fun hnone => hnone source hin
    obtain ⟨what, hwhat⟩ := validateRange_throws_iff.mpr hdest
    exact ⟨what, by simp only [move, hok, hwhat, bind, Except.bind]⟩
  · exact ⟨what, by simp only [move, hwhat, bind, Except.bind]⟩

theorem transfers_in_range (m : SharedMalloc) (offset : Int64) (length : UInt64) :
    (∀ n, m.validateRange offset length = .ok n ↔ m.InRange offset length n) ∧
      ((∃ what, m.validateRange offset length = .error (.outOfRange what)) ↔
        ∀ n, ¬ m.InRange offset length n) ∧
      m.validateRange offset length ≠ .error .overflow ∧
      (∀ n ref, m.InRange offset length n → ref.length = length.toNat →
        ∃ m', m.assignFrom ref length offset = .ok m' ∧ m'.assignTo length offset = .ok ref ∧
          SameOutside m m' n length.toNat) ∧
      ∀ destOffset,
        (∀ source destination, m.InRange offset length source →
          m.InRange destOffset length destination →
          ∃ m', m.move offset destOffset length = .ok m' ∧
            (∀ i < length.toNat, m'.data[destination + i]? = m.data[source + i]?) ∧
            SameOutside m m' destination length.toNat) ∧
        ((∀ n, ¬ m.InRange offset length n) ∨ (∀ n, ¬ m.InRange destOffset length n) →
          ∃ what, m.move offset destOffset length = .error (.outOfRange what)) :=
  ⟨fun _ => validateRange_eq_ok_iff, validateRange_throws_iff, validateRange_ne_overflow,
    fun _ _ => assignFrom_of_inRange,
    fun _ => ⟨fun _ _ => move_of_inRange, move_throws⟩⟩

end SharedMalloc

end Glider.Memory

import Glider.Imagep.Buffer
import Glider.Lib.Word
import Mathlib.Data.Int.Cast.Lemmas

namespace Glider.Imagep

open Glider.Lib
open Turn (Size Cell area)

def kAngleMin : ℕ := 0

def kAngle90 : ℕ := 90

def kAngle180 : ℕ := 180

def kAngle270 : ℕ := 270

def Turn.angle : Turn → ℕ
  | quarter => kAngle90
  | half => kAngle180
  | threeQuarters => kAngle270

-- How `rotate` ends without a turned picture. `undefined` is an overflow or an access outside of
-- the memory.
inductive RotateError where
  | noImageData
  | cannotHandleAngle
  | undefined
  deriving DecidableEq

-- The cases of the angle, which the three functions share.
def switchAngle {α : Type} (angle : ℕ) (same : α) (turned : Turn → Option α) :
    Except RotateError α :=
  let result (t : Turn) : Except RotateError α :=
    match turned t with
    | some img => .ok img
    | none => .error .undefined
  if angle = kAngle90 then result .quarter
  else if angle = kAngle180 then result .half
  else if angle = kAngle270 then result .threeQuarters
  else if angle = kAngleMin then .ok same
  else .error .cannotHandleAngle

theorem switchAngle_angle {α : Type} {same img : α} {turned : Turn → Option α} {t : Turn}
    (h : turned t = some img) : switchAngle t.angle same turned = .ok img := by
  cases t <;> simp [switchAngle, Turn.angle, kAngle90, kAngle180, kAngle270, h]

-- The angles that are handled are those of the turns, and none.
theorem switchAngle_ok {α : Type} {same img : α} {turned : Turn → Option α} {angle : ℕ}
    (h : switchAngle angle same turned = .ok img) :
    img = same ∨ ∃ t : Turn, angle = t.angle ∧ turned t = some img := by
  have hresult : ∀ t, (match turned t with
      | some img => Except.ok img
      | none => .error .undefined : Except RotateError α) = .ok img → turned t = some img := by
    intro t ht
    cases hturned : turned t with
    | none => rw [hturned] at ht; cases ht
    | some img' => rw [hturned] at ht; exact congrArg some (Except.ok.inj ht)
  simp only [switchAngle] at h
  split_ifs at h with hquarter hhalf hthree hnone
  · exact .inr ⟨.quarter, hquarter, hresult _ h⟩
  · exact .inr ⟨.half, hhalf, hresult _ h⟩
  · exact .inr ⟨.threeQuarters, hthree, hresult _ h⟩
  · exact .inl (Except.ok.inj h).symm

-- A value of type `int`; an overflow is undefined.
def int (z : ℤ) : Option ℤ := if -2 ^ 31 ≤ z ∧ z < 2 ^ 31 then some z else none

theorem int_eq {z : ℤ} {n : ℕ} (hz : z = n) (hn : n < 2 ^ 31) : int z = some (n : ℤ) := by
  subst hz
  exact if_pos ⟨by omega, by omega⟩

-- A negative index is outside of every array.
def subscript (z : ℤ) : Option ℕ := if 0 ≤ z then some z.toNat else none

theorem subscript_natCast (n : ℕ) : subscript n = some n := if_pos (Int.natCast_nonneg n)

structure WebPImage where
  width_ : ℕ
  height_ : ℕ
  data_ : Option (List UInt8)

namespace WebPImage

def sourceIndex (width_ y x : ℤ) : Option ℤ := do
  let row ← int (y * width_)
  let cell ← int (row + x)
  int (cell * 4)

def destIndex (width_ height_ rotated_width y x : ℤ) : Turn → Option ℤ
  | .quarter => do
      let row ← int (x * rotated_width)
      let last ← int (height_ - 1)
      let column ← int (last - y)
      let cell ← int (row + column)
      int (cell * 4)
  | .half => do
      let last ← int (height_ - 1)
      let line ← int (last - y)
      let row ← int (line * width_)
      let right ← int (width_ - 1)
      let column ← int (right - x)
      let cell ← int (row + column)
      int (cell * 4)
  | .threeQuarters => do
      let right ← int (width_ - 1)
      let line ← int (right - x)
      let row ← int (line * rotated_width)
      let cell ← int (row + y)
      int (cell * 4)

def byteIndex (index : Option ℤ) (k : ℕ) : Option ℕ := do
  let start ← index
  let place ← int (start + k)
  subscript place

def turned (img : WebPImage) (data : List UInt8) (t : Turn) : Option WebPImage :=
  let s' := t.size (img.width_, img.height_)
  let out := (flat UInt8).copyTo
    (fun i => (byteIndex (sourceIndex img.width_ i.1 i.2.1) i.2.2).bind fun j => data[j]?)
    (fun i => byteIndex (destIndex img.width_ img.height_ s'.1 i.1 i.2.1 t) i.2.2)
    (loop (img.width_, img.height_) 4) (List.replicate (s'.1 * s'.2 * 4) 0)
  out.map fun rotated_data => ⟨s'.1, s'.2, some rotated_data⟩

def rotate (img : WebPImage) (angle : ℕ) : Except RotateError WebPImage :=
  match img.data_ with
  | none => .error .noImageData
  | some data => switchAngle angle img (img.turned data)

-- A picture of a size, as the reader leaves it.
structure Holds (img : WebPImage) (s : Size) : Prop where
  width : img.width_ = s.1
  height : img.height_ = s.2
  data : ∃ data, img.data_ = some data ∧ data.length = s.1 * s.2 * 4

def byte (img : WebPImage) (p : Cell) (k : ℕ) : Option UInt8 :=
  img.data_.bind fun data => data[byteAt img.width_ 4 p k]?

variable {s : Size} {x y k : ℕ}

theorem byteIndex_eq {index : Option ℤ} {c : ℕ} (hindex : index = int ((c : ℤ) * 4))
    (hc : c * 4 + k < 2 ^ 31) : byteIndex index k = some (c * 4 + k) := by
  have hstart : int ((c : ℤ) * 4) = some ((c * 4 : ℕ) : ℤ) := int_eq (by omega) (by omega)
  have hplace : int (((c * 4 : ℕ) : ℤ) + k) = some ((c * 4 + k : ℕ) : ℤ) :=
    int_eq (by omega) hc
  rw [hindex, byteIndex, hstart, Option.bind_eq_bind, Option.bind_some, hplace, Option.bind_some]
  exact subscript_natCast _

theorem byteIndex_sourceIndex (hs : Admitted s) (hp : (x, y) ∈ area s) (hk : k < 4) :
    byteIndex (sourceIndex s.1 y x) k = some (byteAt s.1 4 (x, y) k) := by
  obtain ⟨-, -, hpixels⟩ := admitted_iff.mp hs
  have hcell : y * s.1 + x < s.1 * s.2 := cell_lt hp
  have hmax : limits.kMaxImagePixels = 2 ^ 24 := rfl
  have hrow : int ((y : ℤ) * s.1) = some ((y * s.1 : ℕ) : ℤ) :=
    int_eq (Nat.cast_mul y s.1).symm (by omega)
  have hsum : int (((y * s.1 : ℕ) : ℤ) + x) = some ((y * s.1 + x : ℕ) : ℤ) :=
    int_eq (by omega) (by omega)
  refine byteIndex_eq (c := y * s.1 + x) ?_ (by omega)
  rw [sourceIndex, hrow, Option.bind_eq_bind, Option.bind_some, hsum, Option.bind_some]

theorem byteIndex_destIndex (hs : Admitted s) (t : Turn) (hp : (x, y) ∈ area s) (hk : k < 4) :
    byteIndex (destIndex s.1 s.2 (t.size s).1 y x t) k =
      some (byteAt (t.size s).1 4 (t.place s (x, y)) k) := by
  obtain ⟨-, -, hpixels⟩ := admitted_iff.mp hs
  obtain ⟨hwidth, hheight⟩ := hs.sides
  have hcell := cell_lt (t.mapsTo_place hp)
  rw [t.size_prod] at hcell
  have hmax : limits.kMaxImagePixels = 2 ^ 24 := rfl
  obtain ⟨hx, hy⟩ := hp
  simp only at hx hy
  refine byteIndex_eq (c := (t.place s (x, y)).2 * (t.size s).1 + (t.place s (x, y)).1) ?_
    (by omega)
  cases t with
  | quarter =>
    simp only [Turn.place, Turn.size] at hcell ⊢
    have hrow : int ((x : ℤ) * s.2) = some ((x * s.2 : ℕ) : ℤ) :=
      int_eq (Nat.cast_mul x s.2).symm (by omega)
    have hlast : int ((s.2 : ℤ) - 1) = some ((s.2 - 1 : ℕ) : ℤ) := int_eq (by omega) (by omega)
    have hcolumn : int (((s.2 - 1 : ℕ) : ℤ) - y) = some ((s.2 - 1 - y : ℕ) : ℤ) :=
      int_eq (by omega) (by omega)
    have hsum : int (((x * s.2 : ℕ) : ℤ) + (s.2 - 1 - y : ℕ)) =
        some ((x * s.2 + (s.2 - 1 - y) : ℕ) : ℤ) := int_eq (Nat.cast_add _ _).symm (by omega)
    rw [destIndex, hrow, Option.bind_eq_bind, Option.bind_some, hlast, Option.bind_some, hcolumn,
      Option.bind_some, hsum, Option.bind_some]
  | half =>
    simp only [Turn.place, Turn.size] at hcell ⊢
    have hlast : int ((s.2 : ℤ) - 1) = some ((s.2 - 1 : ℕ) : ℤ) := int_eq (by omega) (by omega)
    have hline : int (((s.2 - 1 : ℕ) : ℤ) - y) = some ((s.2 - 1 - y : ℕ) : ℤ) :=
      int_eq (by omega) (by omega)
    have hrow : int (((s.2 - 1 - y : ℕ) : ℤ) * s.1) = some (((s.2 - 1 - y) * s.1 : ℕ) : ℤ) :=
      int_eq (Nat.cast_mul _ _).symm (by omega)
    have hright : int ((s.1 : ℤ) - 1) = some ((s.1 - 1 : ℕ) : ℤ) := int_eq (by omega) (by omega)
    have hcolumn : int (((s.1 - 1 : ℕ) : ℤ) - x) = some ((s.1 - 1 - x : ℕ) : ℤ) :=
      int_eq (by omega) (by omega)
    have hsum : int ((((s.2 - 1 - y) * s.1 : ℕ) : ℤ) + (s.1 - 1 - x : ℕ)) =
        some (((s.2 - 1 - y) * s.1 + (s.1 - 1 - x) : ℕ) : ℤ) :=
      int_eq (Nat.cast_add _ _).symm (by omega)
    rw [destIndex, hlast, Option.bind_eq_bind, Option.bind_some, hline, Option.bind_some, hrow,
      Option.bind_some, hright, Option.bind_some, hcolumn, Option.bind_some, hsum,
      Option.bind_some]
  | threeQuarters =>
    simp only [Turn.place, Turn.size] at hcell ⊢
    have hright : int ((s.1 : ℤ) - 1) = some ((s.1 - 1 : ℕ) : ℤ) := int_eq (by omega) (by omega)
    have hline : int (((s.1 - 1 : ℕ) : ℤ) - x) = some ((s.1 - 1 - x : ℕ) : ℤ) :=
      int_eq (by omega) (by omega)
    have hrow : int (((s.1 - 1 - x : ℕ) : ℤ) * s.2) = some (((s.1 - 1 - x) * s.2 : ℕ) : ℤ) :=
      int_eq (Nat.cast_mul _ _).symm (by omega)
    have hsum : int ((((s.1 - 1 - x) * s.2 : ℕ) : ℤ) + y) =
        some (((s.1 - 1 - x) * s.2 + y : ℕ) : ℤ) := int_eq (Nat.cast_add _ _).symm (by omega)
    rw [destIndex, hright, Option.bind_eq_bind, Option.bind_some, hline, Option.bind_some, hrow,
      Option.bind_some, hsum, Option.bind_some]

theorem rotate_turns (hs : Admitted s) (t : Turn) {img : WebPImage} (h : img.Holds s) :
    ∃ img', img.rotate t.angle = .ok img' ∧ img'.Holds (t.size s) ∧
      ∀ p ∈ area s, ∀ k < 4, img'.byte (t.place s p) k = img.byte p k := by
  obtain ⟨width_, height_, data_⟩ := img
  obtain ⟨rfl, rfl, data, rfl, hdata⟩ := h
  obtain ⟨out, hrun, hlength, hturned⟩ := turn_flat t hdata
    (fun i => byteIndex (sourceIndex s.1 i.1 i.2.1) i.2.2)
    (fun i => byteIndex (destIndex s.1 s.2 (t.size s).1 i.1 i.2.1 t) i.2.2)
    (fun y x k hp hk => byteIndex_sourceIndex hs hp hk)
    (fun y x k hp hk => byteIndex_destIndex hs t hp hk)
  have hresult : turned ⟨s.1, s.2, some data⟩ data t =
      some ⟨(t.size s).1, (t.size s).2, some out⟩ := by
    rw [turned]
    exact congrArg _ hrun
  exact ⟨_, switchAngle_angle hresult, ⟨rfl, rfl, out, rfl, hlength⟩, hturned⟩

end WebPImage

structure JPEGImage where
  width : ℕ
  height : ℕ
  num_channels : ℕ
  image_data : List UInt8

namespace JPEGImage

-- `(cell * num_channels) + c` in `size_t`.
def byteIndex (cell num_channels c : ℕ) : ℕ := u64 (u64 (cell * num_channels) + c)

def sourceIndex (width y x : ℕ) : ℕ := u64 (u64 (y * width) + x)

def destIndex (new_width new_height y x : ℕ) : Turn → ℕ
  | .quarter => u64 (u64 (x * new_width) + u64Sub (u64Sub new_width y) 1)
  | .half =>
    u64 (u64 (u64Sub (u64Sub new_height y) 1 * new_width) + u64Sub (u64Sub new_width x) 1)
  | .threeQuarters => u64 (u64 (u64Sub (u64Sub new_height x) 1 * new_width) + y)

def turned (img : JPEGImage) (t : Turn) : Option JPEGImage :=
  let s' := t.size (img.width, img.height)
  let out := (flat UInt8).copyTo
    (fun i =>
      (some (byteIndex (sourceIndex img.width i.1 i.2.1) img.num_channels i.2.2)).bind fun j =>
        img.image_data[j]?)
    (fun i => some (byteIndex (destIndex s'.1 s'.2 i.1 i.2.1 t) img.num_channels i.2.2))
    (loop (img.width, img.height) img.num_channels)
    (List.replicate (s'.1 * s'.2 * img.num_channels) 0)
  out.map fun new_image_data => ⟨s'.1, s'.2, img.num_channels, new_image_data⟩

def rotate (img : JPEGImage) (angle : ℕ) : Except RotateError JPEGImage :=
  switchAngle angle img img.turned

structure Holds (img : JPEGImage) (s : Size) : Prop where
  width : img.width = s.1
  height : img.height = s.2
  channels : img.num_channels ≤ 4
  data : img.image_data.length = s.1 * s.2 * img.num_channels

def byte (img : JPEGImage) (p : Cell) (k : ℕ) : Option UInt8 :=
  img.image_data[byteAt img.width img.num_channels p k]?

variable {s : Size} {x y k n : ℕ}

-- Sixteen million pixels of four bytes are far from the end of `size_t`.
theorem byteIndex_eq {p : Cell} (hs : Admitted s) (hp : p ∈ area s) (hk : k < n) (hn : n ≤ 4) :
    byteIndex (p.2 * s.1 + p.1) n k = byteAt s.1 n p k := by
  obtain ⟨-, -, hpixels⟩ := admitted_iff.mp hs
  have hlt := byteAt_lt hp hk
  have hbytes : s.1 * s.2 * n ≤ 2 ^ 24 * 4 := Nat.mul_le_mul hpixels hn
  rw [byteAt] at hlt ⊢
  rw [byteIndex, u64_of_lt (n := (p.2 * s.1 + p.1) * n) (by omega), u64_of_lt (by omega)]

theorem sourceIndex_eq (hs : Admitted s) (hp : (x, y) ∈ area s) :
    sourceIndex s.1 y x = y * s.1 + x := by
  obtain ⟨-, -, hpixels⟩ := admitted_iff.mp hs
  have hcell : y * s.1 + x < s.1 * s.2 := cell_lt hp
  have hmax : limits.kMaxImagePixels = 2 ^ 24 := rfl
  rw [sourceIndex, u64_of_lt (n := y * s.1) (by omega), u64_of_lt (by omega)]

theorem u64Sub_one {a b : ℕ} (ha : a < 2 ^ 64) (hb : b < a) :
    u64Sub (u64Sub a b) 1 = a - 1 - b := by
  rw [u64Sub_of_le ha (by omega), u64Sub_of_le (by omega) (by omega)]
  omega

theorem destIndex_eq (hs : Admitted s) (t : Turn) (hp : (x, y) ∈ area s) :
    destIndex (t.size s).1 (t.size s).2 y x t =
      (t.place s (x, y)).2 * (t.size s).1 + (t.place s (x, y)).1 := by
  obtain ⟨-, -, hpixels⟩ := admitted_iff.mp hs
  obtain ⟨hwidth, hheight⟩ := hs.sides
  have hcell := cell_lt (t.mapsTo_place hp)
  rw [t.size_prod] at hcell
  have hmax : limits.kMaxImagePixels = 2 ^ 24 := rfl
  obtain ⟨hx, hy⟩ := hp
  simp only at hx hy
  cases t with
  | quarter =>
    simp only [Turn.place, Turn.size] at hcell ⊢
    rw [destIndex, u64Sub_one (by omega) hy, u64_of_lt (n := x * s.2) (by omega),
      u64_of_lt (by omega)]
  | half =>
    simp only [Turn.place, Turn.size] at hcell ⊢
    rw [destIndex, u64Sub_one (by omega) hy, u64Sub_one (by omega) hx,
      u64_of_lt (n := (s.2 - 1 - y) * s.1) (by omega), u64_of_lt (by omega)]
  | threeQuarters =>
    simp only [Turn.place, Turn.size] at hcell ⊢
    rw [destIndex, u64Sub_one (by omega) hx, u64_of_lt (n := (s.1 - 1 - x) * s.2) (by omega),
      u64_of_lt (by omega)]

theorem rotate_turns (hs : Admitted s) (t : Turn) {img : JPEGImage} (h : img.Holds s) :
    ∃ img', img.rotate t.angle = .ok img' ∧ img'.Holds (t.size s) ∧
      img'.num_channels = img.num_channels ∧
      ∀ p ∈ area s, ∀ k < img.num_channels, img'.byte (t.place s p) k = img.byte p k := by
  obtain ⟨width, height, n, data⟩ := img
  obtain ⟨rfl, rfl, hn, hdata⟩ := h
  simp only at hn hdata
  obtain ⟨out, hrun, hlength, hturned⟩ := turn_flat t hdata
    (fun i => some (byteIndex (sourceIndex s.1 i.1 i.2.1) n i.2.2))
    (fun i => some (byteIndex (destIndex (t.size s).1 (t.size s).2 i.1 i.2.1 t) n i.2.2))
    (fun y x k hp hk => by
      simp only
      rw [sourceIndex_eq hs hp]
      exact congrArg some (byteIndex_eq hs hp hk hn))
    (fun y x k hp hk => by
      simp only
      rw [destIndex_eq hs t hp]
      exact congrArg some (byteIndex_eq (hs.size t) (t.mapsTo_place hp) hk hn))
  have hresult : turned ⟨s.1, s.2, n, data⟩ t =
      some ⟨(t.size s).1, (t.size s).2, n, out⟩ := by
    rw [turned]
    exact congrArg _ hrun
  exact ⟨_, switchAngle_angle hresult, ⟨rfl, rfl, hn, hlength⟩, rfl, hturned⟩

end JPEGImage

inductive ColorType where
  | GRAY
  | RGB
  | PALETTE
  | GRAY_ALPHA
  | RGB_ALPHA
  deriving DecidableEq

structure PngImage where
  width : ℕ
  height : ℕ
  color_type : ColorType
  bit_depth : ℕ
  contains_data : Bool
  refmem : List (List UInt8)
  deriving DecidableEq

namespace PngImage

-- `png_uint_32`: an `int` operand is converted, and the result wraps.
def u32 (z : ℤ) : ℤ := z % 2 ^ 32

def transform (src_width src_height : ℕ) (x y : ℤ) : Turn → ℤ × ℤ
  | .quarter => (u32 (u32 (src_height - 1) - y), x)
  | .half => (u32 (u32 (src_width - 1) - x), u32 (u32 (src_height - 1) - y))
  | .threeQuarters => (y, u32 (u32 (src_width - 1) - x))

-- The parameters of the function are `int`.
def destPixel (width height y x : ℕ) (t : Turn) (k : ℕ) : Option (ℕ × ℕ) :=
  let dst := transform width height (toInt32 x) (toInt32 y) t
  (subscript dst.2).bind fun row => (subscript (dst.1 * 4)).map fun column => (row, column + k)

-- `memcpy` of the four bytes of a pixel.
def rotate_image_impl (img : PngImage) (t : Turn) : Option PngImage :=
  let s' := t.size (img.width, img.height)
  let out := (rows UInt8).copyTo
    (fun i => (rows UInt8).get img.refmem (i.1, i.2.1 * 4 + i.2.2))
    (fun i => destPixel img.width img.height i.1 i.2.1 t i.2.2)
    (loop (img.width, img.height) 4) (List.replicate s'.2 (List.replicate (s'.1 * 4) 0))
  out.map fun rotated_refmem => { img with width := s'.1, height := s'.2, refmem := rotated_refmem }

def rotate (img : PngImage) (angle : ℕ) : Except RotateError PngImage :=
  if !img.contains_data then .error .noImageData
  else switchAngle angle img img.rotate_image_impl

structure Holds (img : PngImage) (s : Size) : Prop where
  width : img.width = s.1
  height : img.height = s.2
  contains_data : img.contains_data = true
  rows : img.refmem.map List.length = List.replicate s.2 (s.1 * 4)

def byte (img : PngImage) (p : Cell) (k : ℕ) : Option UInt8 :=
  (Lib.rows UInt8).get img.refmem (p.2, p.1 * 4 + k)

variable {s : Size} {x y k : ℕ}

theorem u32_sub_one {a b : ℕ} (ha : a ≤ 2 ^ 24) (hb : b < a) :
    u32 (u32 (a - 1) - b) = ((a - 1 - b : ℕ) : ℤ) := by
  simp only [u32]
  omega

theorem destPixel_eq (hs : Admitted s) (t : Turn) (hp : (x, y) ∈ area s) (k : ℕ) :
    destPixel s.1 s.2 y x t k =
      some ((t.place s (x, y)).2, (t.place s (x, y)).1 * 4 + k) := by
  obtain ⟨hwidth, hheight⟩ := hs.sides
  have hmax : limits.kMaxImagePixels = 2 ^ 24 := rfl
  obtain ⟨hx, hy⟩ := hp
  simp only at hx hy
  have hnarrow : ∀ n : ℕ, n < 2 ^ 24 → toInt32 n = n := fun n hn =>
    toInt32_of_range (by omega) (by omega)
  have hmove : transform s.1 s.2 (toInt32 x) (toInt32 y) t =
      (((t.place s (x, y)).1 : ℤ), ((t.place s (x, y)).2 : ℤ)) := by
    rw [hnarrow x (by omega), hnarrow y (by omega)]
    cases t with
    | quarter => exact Prod.ext (u32_sub_one hheight hy) rfl
    | half => exact Prod.ext (u32_sub_one hwidth hx) (u32_sub_one hheight hy)
    | threeQuarters => exact Prod.ext rfl (u32_sub_one hwidth hx)
  have hcolumn : subscript ((t.place s (x, y)).1 * 4 : ℤ) = some ((t.place s (x, y)).1 * 4) :=
    subscript_natCast ((t.place s (x, y)).1 * 4)
  rw [destPixel, hmove]
  simp only
  rw [subscript_natCast, hcolumn, Option.bind_some, Option.map_some]

theorem rotate_turns (hs : Admitted s) (t : Turn) {img : PngImage} (h : img.Holds s) :
    ∃ img', img.rotate t.angle = .ok img' ∧ img'.Holds (t.size s) ∧
      ∀ p ∈ area s, ∀ k < 4, img'.byte (t.place s p) k = img.byte p k := by
  obtain ⟨width, height, color_type, bit_depth, contains_data, refmem⟩ := img
  obtain ⟨rfl, rfl, rfl, hrows⟩ := h
  simp only at hrows
  have hblank : (List.replicate (t.size s).2 (List.replicate ((t.size s).1 * 4) (0 : UInt8))).map
      List.length = List.replicate (t.size s).2 ((t.size s).1 * 4) := by
    rw [List.map_replicate, List.length_replicate]
  have hinside : ∀ {s' : Size} {m : List (List UInt8)},
      m.map List.length = List.replicate s'.2 (s'.1 * 4) → ∀ p ∈ area s', ∀ k < 4,
        ((Lib.rows UInt8).get m (p.2, p.1 * 4 + k)).isSome := by
    intro s' m hm p hp k hk
    have hlength : m.length = s'.2 := by
      rw [← List.length_map (f := List.length), hm, List.length_replicate]
    refine isSome_rows_get (n := s'.1 * 4) (hlength ▸ hp.2) ?_ ?_
    · intro row hrow
      have hmem := List.mem_map_of_mem (f := List.length) hrow
      rw [hm] at hmem
      exact List.eq_of_mem_replicate hmem
    · have hx : p.1 < s'.1 := hp.1
      omega
  obtain ⟨out, hrun, hturned⟩ := copyTo_turn (Lib.rows UInt8) t (hinside hrows) (hinside hblank)
    (fun p hp q hq k hk l hl heq => by
      obtain ⟨hrow, hbyte⟩ := Prod.mk.inj heq
      obtain ⟨hcolumn, rfl⟩ := mul_add_inj hk hl hbyte
      exact ⟨Prod.ext hcolumn hrow, rfl⟩)
    (fun i => (Lib.rows UInt8).get refmem (i.1, i.2.1 * 4 + i.2.2))
    (fun i => destPixel s.1 s.2 i.1 i.2.1 t i.2.2)
    (fun y x k hp hk => rfl)
    (fun y x k hp hk => destPixel_eq hs t hp k)
  have hrows' := Cells.copyTo_invariant
    (fun b => b.map List.length = List.replicate (t.size s).2 ((t.size s).1 * 4))
    (fun b k a hb => (lengths_rows_set b k a).trans hb) hblank hrun
  have hresult : rotate_image_impl ⟨s.1, s.2, color_type, bit_depth, true, refmem⟩ t =
      some ⟨(t.size s).1, (t.size s).2, color_type, bit_depth, true, out⟩ := by
    rw [rotate_image_impl]
    exact congrArg _ hrun
  exact ⟨_, switchAngle_angle hresult, ⟨rfl, rfl, rfl, hrows'⟩, hturned⟩

end PngImage

theorem rotations_agree {s : Size} (hs : Admitted s) :
    (∀ t : Turn, Set.BijOn (t.place s) (area s) (area (t.size s))) ∧
      Turn.quarter.size s = (s.2, s.1) ∧ Turn.threeQuarters.size s = (s.2, s.1) ∧
      (∀ p ∈ area s,
        Turn.threeQuarters.place (Turn.quarter.size s) (Turn.quarter.place s p) = p ∧
          Turn.half.place (Turn.half.size s) (Turn.half.place s p) = p ∧
          Turn.quarter.place (Turn.quarter.size s) (Turn.quarter.place s p) =
            Turn.half.place s p) ∧
      ∀ t : Turn,
        (∀ img : PngImage, img.Holds s →
          ∃ img', img.rotate t.angle = .ok img' ∧ img'.Holds (t.size s) ∧
            ∀ p ∈ area s, ∀ k < 4, img'.byte (t.place s p) k = img.byte p k) ∧
        (∀ img : WebPImage, img.Holds s →
          ∃ img', img.rotate t.angle = .ok img' ∧ img'.Holds (t.size s) ∧
            ∀ p ∈ area s, ∀ k < 4, img'.byte (t.place s p) k = img.byte p k) ∧
        ∀ img : JPEGImage, img.Holds s →
          ∃ img', img.rotate t.angle = .ok img' ∧ img'.Holds (t.size s) ∧
            img'.num_channels = img.num_channels ∧
            ∀ p ∈ area s, ∀ k < img.num_channels, img'.byte (t.place s p) k = img.byte p k := by
  refine ⟨fun t => t.bijOn_place, rfl, rfl, fun p hp => ⟨?_, ?_, ?_⟩, fun t => ⟨?_, ?_, ?_⟩⟩
  · exact Turn.quarter.back_place hp
  · exact Turn.half.back_place hp
  · exact Turn.quarter_quarter s p
  · exact fun _ h => PngImage.rotate_turns hs t h
  · exact fun _ h => WebPImage.rotate_turns hs t h
  · exact fun _ h => JPEGImage.rotate_turns hs t h

-- Two pixels side by side come to lie one above the other.
def pair : WebPImage := ⟨2, 1, some [1, 2, 3, 4, 5, 6, 7, 8]⟩

theorem rotations_agree_pair :
    ∃ img', pair.rotate 90 = .ok img' ∧ img'.Holds (1, 2) ∧
      ∀ p ∈ area (2, 1), ∀ k < 4, img'.byte (Turn.quarter.place (2, 1) p) k = pair.byte p k :=
  ((rotations_agree (s := (2, 1)) (.inl (by decide))).2.2.2.2 .quarter).2.1 pair
    ⟨rfl, rfl, _, rfl, rfl⟩

end Glider.Imagep

import Mathlib.Data.Nat.Notation
import Mathlib.Data.Set.Function
import Glider.Lib.Scatter
import Mathlib.Data.List.ProdSigma
import Mathlib.Data.List.Nodup
import Mathlib.Algebra.Order.Ring.Nat

namespace Glider.Imagep

-- A clockwise turn of a picture.
inductive Turn where
  | quarter
  | half
  | threeQuarters

namespace Turn

-- A width and a height.
abbrev Size := ℕ × ℕ

-- A column and a row.
abbrev Cell := ℕ × ℕ

def size : Turn → Size → Size
  | half, s => s
  | _, s => (s.2, s.1)

-- Where the pixel of a cell goes.
def place : Turn → Size → Cell → Cell
  | quarter, s, p => (s.2 - 1 - p.2, p.1)
  | half, s, p => (s.1 - 1 - p.1, s.2 - 1 - p.2)
  | threeQuarters, s, p => (p.2, s.1 - 1 - p.1)

def area (s : Size) : Set Cell := {p | p.1 < s.1 ∧ p.2 < s.2}

def back : Turn → Turn
  | quarter => threeQuarters
  | half => half
  | threeQuarters => quarter

variable (t : Turn) {s : Size} {p : Cell}

@[simp] theorem back_back : t.back.back = t := by cases t <;> rfl

@[simp] theorem size_back_size : t.back.size (t.size s) = s := by cases t <;> rfl

theorem size_prod : (t.size s).1 * (t.size s).2 = s.1 * s.2 := by
  cases t with
  | half => rfl
  | quarter | threeQuarters => exact Nat.mul_comm _ _

theorem mapsTo_place : Set.MapsTo (t.place s) (area s) (area (t.size s)) := by
  rintro ⟨x, y⟩ ⟨hx, hy⟩
  simp only at hx hy
  cases t with
  | quarter => exact ⟨show s.2 - 1 - y < s.2 by omega, hx⟩
  | half => exact ⟨show s.1 - 1 - x < s.1 by omega, show s.2 - 1 - y < s.2 by omega⟩
  | threeQuarters => exact ⟨hy, show s.1 - 1 - x < s.1 by omega⟩

theorem back_place (hp : p ∈ area s) : t.back.place (t.size s) (t.place s p) = p := by
  obtain ⟨x, y⟩ := p
  obtain ⟨hx, hy⟩ := hp
  simp only at hx hy
  cases t with
  | quarter => exact Prod.ext rfl (show s.2 - 1 - (s.2 - 1 - y) = y by omega)
  | half =>
    exact Prod.ext (show s.1 - 1 - (s.1 - 1 - x) = x by omega)
      (show s.2 - 1 - (s.2 - 1 - y) = y by omega)
  | threeQuarters => exact Prod.ext (show s.1 - 1 - (s.1 - 1 - x) = x by omega) rfl

theorem bijOn_place : Set.BijOn (t.place s) (area s) (area (t.size s)) := by
  have hinv : Set.InvOn (t.back.place (t.size s)) (t.place s) (area s) (area (t.size s)) := by
    refine ⟨fun p hp => t.back_place hp, fun p hp => ?_⟩
    have hback := t.back.back_place hp
    rwa [size_back_size, back_back] at hback
  have hback := t.back.mapsTo_place (s := t.size s)
  rw [size_back_size] at hback
  exact hinv.bijOn t.mapsTo_place hback

theorem quarter_quarter (s : Size) (p : Cell) :
    quarter.place (quarter.size s) (quarter.place s p) = half.place s p := rfl

end Turn

open Glider.Lib
open Turn (Size Cell area)

namespace limits

def kMaxImagePixels : ℕ := 16 * 1024 * 1024

def kMaxDimension : ℕ := 8192

def dimensionsAllowed (width height : ℤ) (maxPixels : ℕ) : Bool :=
  if width ≤ 0 ∨ height ≤ 0 then false
  else
    width.toNat ≤ kMaxDimension ∧ height.toNat ≤ kMaxDimension ∧
      width.toNat ≤ maxPixels / height.toNat

def imageDimensionsAllowed (width height : ℤ) : Bool :=
  dimensionsAllowed width height kMaxImagePixels

end limits

-- The check of a WebP header bounds the pixels alone.
def decodedByteSize (width height : ℤ) (maximumBytes : ℕ) : Option ℕ :=
  if width ≤ 0 ∨ height ≤ 0 then none
  else if width.toNat > (2 ^ 64 - 1) / height.toNat then none
  else if width.toNat * height.toNat > maximumBytes / 4 then none
  else some (width.toNat * height.toNat * 4)

-- The sizes that a reader lets through.
def Admitted (s : Size) : Prop :=
  limits.imageDimensionsAllowed s.1 s.2 = true ∨
    (decodedByteSize s.1 s.2 (limits.kMaxImagePixels * 4)).isSome

theorem decodedByteSize_isSome {w h : ℕ} (hw : 0 < w) (hh : 0 < h)
    (hpixels : w * h ≤ limits.kMaxImagePixels) :
    (decodedByteSize w h (limits.kMaxImagePixels * 4)).isSome := by
  have hquarter : limits.kMaxImagePixels * 4 / 4 = limits.kMaxImagePixels := by decide
  have hsmall : limits.kMaxImagePixels ≤ 2 ^ 64 - 1 := by decide
  have hdiv : w ≤ (2 ^ 64 - 1) / h := (Nat.le_div_iff_mul_le hh).mpr (hpixels.trans hsmall)
  simp only [decodedByteSize, Int.toNat_natCast]
  rw [if_neg (by omega), if_neg (Nat.not_lt.mpr hdiv), if_neg (by omega)]
  rfl

-- In either way the number of pixels is what is bounded.
theorem admitted_iff {s : Size} :
    Admitted s ↔ 0 < s.1 ∧ 0 < s.2 ∧ s.1 * s.2 ≤ limits.kMaxImagePixels := by
  obtain ⟨w, h'⟩ := s
  constructor
  · rintro (h | h)
    · simp only [limits.imageDimensionsAllowed, limits.dimensionsAllowed] at h
      split_ifs at h with hpos
      rw [not_or, not_le, not_le] at hpos
      have hroom := (of_decide_eq_true h).2.2
      simp only [Int.toNat_natCast] at hroom
      exact ⟨by omega, by omega, (Nat.le_div_iff_mul_le (by omega)).mp hroom⟩
    · simp only [decodedByteSize] at h
      split_ifs at h with hpos hmax hbytes
      · exact absurd h Bool.false_ne_true
      · exact absurd h Bool.false_ne_true
      · exact absurd h Bool.false_ne_true
      rw [not_or, not_le, not_le] at hpos
      simp only [Int.toNat_natCast] at hbytes
      have hquarter : limits.kMaxImagePixels * 4 / 4 = limits.kMaxImagePixels := by decide
      exact ⟨by omega, by omega, show w * h' ≤ _ by omega⟩
  · rintro ⟨hw, hh, hpixels⟩
    exact .inr (decodedByteSize_isSome hw hh hpixels)

theorem Admitted.size {s : Size} (h : Admitted s) (t : Turn) : Admitted (t.size s) := by
  obtain ⟨hw, hh, hpixels⟩ := admitted_iff.mp h
  refine admitted_iff.mpr ⟨?_, ?_, (Nat.le_of_eq t.size_prod).trans hpixels⟩
  · cases t <;> assumption
  · cases t <;> assumption

theorem Admitted.sides {s : Size} (h : Admitted s) :
    s.1 ≤ limits.kMaxImagePixels ∧ s.2 ≤ limits.kMaxImagePixels := by
  obtain ⟨hw, hh, hpixels⟩ := admitted_iff.mp h
  exact ⟨(Nat.le_mul_of_pos_right s.1 hh).trans hpixels,
    (Nat.le_mul_of_pos_left s.2 hw).trans hpixels⟩

section Buffer

-- Byte `k` of a pixel in a row-major buffer with `n` bytes a pixel.
def byteAt (width n : ℕ) (p : Cell) (k : ℕ) : ℕ := (p.2 * width + p.1) * n + k

variable {s : Size} {p q : Cell} {n k l : ℕ}

theorem cell_lt (hp : p ∈ area s) : p.2 * s.1 + p.1 < s.1 * s.2 := by
  obtain ⟨hx, hy⟩ := hp
  calc p.2 * s.1 + p.1 < p.2 * s.1 + s.1 := Nat.add_lt_add_left hx _
    _ = (p.2 + 1) * s.1 := (Nat.succ_mul _ _).symm
    _ ≤ s.2 * s.1 := Nat.mul_le_mul_right _ hy
    _ = s.1 * s.2 := Nat.mul_comm _ _

theorem byteAt_lt (hp : p ∈ area s) (hk : k < n) : byteAt s.1 n p k < s.1 * s.2 * n := by
  have hcell := cell_lt hp
  calc byteAt s.1 n p k < (p.2 * s.1 + p.1) * n + n := Nat.add_lt_add_left hk _
    _ = (p.2 * s.1 + p.1 + 1) * n := (Nat.succ_mul _ _).symm
    _ ≤ s.1 * s.2 * n := Nat.mul_le_mul_right _ hcell

theorem mul_add_inj {a b : ℕ} (hk : k < n) (hl : l < n) (h : a * n + k = b * n + l) :
    a = b ∧ k = l := by
  have hdiv : ∀ c m, m < n → (c * n + m) / n = c := by
    intro c m hm
    rw [Nat.mul_comm, Nat.mul_add_div (by omega), Nat.div_eq_of_lt hm, Nat.add_zero]
  have hab : a = b := by rw [← hdiv a k hk, h, hdiv b l hl]
  subst hab
  exact ⟨rfl, Nat.add_left_cancel h⟩

theorem byteAt_inj (hp : p ∈ area s) (hq : q ∈ area s) (hk : k < n) (hl : l < n)
    (h : byteAt s.1 n p k = byteAt s.1 n q l) : p = q ∧ k = l := by
  obtain ⟨hcell, rfl⟩ := mul_add_inj hk hl h
  obtain ⟨hy, hx⟩ := mul_add_inj hp.1 hq.1 hcell
  exact ⟨Prod.ext hx hy, rfl⟩

-- The loops over rows, columns and the bytes of a pixel.
def loop (s : Size) (n : ℕ) : List (ℕ × ℕ × ℕ) :=
  (List.range s.2).product ((List.range s.1).product (List.range n))

theorem mem_loop {i : ℕ × ℕ × ℕ} : i ∈ loop s n ↔ (i.2.1, i.1) ∈ area s ∧ i.2.2 < n := by
  obtain ⟨y, x, k⟩ := i
  simp only [loop, List.pair_mem_product, List.mem_range]
  exact ⟨fun ⟨hy, hx, hk⟩ => ⟨⟨hx, hy⟩, hk⟩, fun ⟨⟨hx, hy⟩, hk⟩ => ⟨hy, hx, hk⟩⟩

theorem nodup_loop : (loop s n).Nodup :=
  List.nodup_range.product (List.nodup_range.product List.nodup_range)

-- A loop that takes each byte of a pixel to its place in the turned picture turns the picture.
theorem copyTo_turn {β κ : Type} (m : Cells β κ UInt8) (t : Turn) {data blank : β}
    {address address' : Cell → ℕ → κ}
    (hread : ∀ p ∈ area s, ∀ k < n, (m.get data (address p k)).isSome)
    (hroom : ∀ p ∈ area (t.size s), ∀ k < n, (m.get blank (address' p k)).isSome)
    (hinj : ∀ p ∈ area (t.size s), ∀ q ∈ area (t.size s), ∀ k < n, ∀ l < n,
      address' p k = address' q l → p = q ∧ k = l)
    (source : ℕ × ℕ × ℕ → Option UInt8) (dest : ℕ × ℕ × ℕ → Option κ)
    (hsource : ∀ y x k, (x, y) ∈ area s → k < n →
      source (y, x, k) = m.get data (address (x, y) k))
    (hdest : ∀ y x k, (x, y) ∈ area s → k < n →
      dest (y, x, k) = some (address' (t.place s (x, y)) k)) :
    ∃ out, m.copyTo source dest (loop s n) blank = some out ∧
      ∀ p ∈ area s, ∀ k < n, m.get out (address' (t.place s p) k) = m.get data (address p k) := by
  let place := fun i : ℕ × ℕ × ℕ => address' (t.place s (i.2.1, i.1)) i.2.2
  let value := fun i : ℕ × ℕ × ℕ => (m.get data (address (i.2.1, i.1) i.2.2)).getD 0
  have hvalue : ∀ p ∈ area s, ∀ k < n,
      m.get data (address p k) = some ((m.get data (address p k)).getD 0) := by
    intro p hp k hk
    obtain ⟨b, hb⟩ := Option.isSome_iff_exists.mp (hread p hp k hk)
    rw [hb, Option.getD_some]
  have hplaces : Set.InjOn place {i | i ∈ loop s n} := by
    rintro ⟨y, x, k⟩ hi ⟨y', x', k'⟩ hi' heq
    obtain ⟨hp, hk⟩ := mem_loop.mp hi
    obtain ⟨hq, hl⟩ := mem_loop.mp hi'
    obtain ⟨hcell, rfl⟩ := hinj _ (t.mapsTo_place hp) _ (t.mapsTo_place hq) k hk k' hl heq
    obtain ⟨rfl, rfl⟩ := Prod.mk.inj (t.bijOn_place.injOn hp hq hcell)
    rfl
  have hsource' : ∀ i ∈ loop s n, source i = some (value i) := by
    rintro ⟨y, x, k⟩ hi
    obtain ⟨hp, hk⟩ := mem_loop.mp hi
    rw [hsource y x k hp hk]
    exact hvalue _ hp k hk
  have hdest' : ∀ i ∈ loop s n, dest i = some (place i) := by
    rintro ⟨y, x, k⟩ hi
    obtain ⟨hp, hk⟩ := mem_loop.mp hi
    exact hdest y x k hp hk
  have hroom' : ∀ i ∈ loop s n, (m.get blank (place i)).isSome := by
    rintro ⟨y, x, k⟩ hi
    obtain ⟨hp, hk⟩ := mem_loop.mp hi
    exact hroom _ (t.mapsTo_place hp) k hk
  obtain ⟨out, hrun, harrived, -⟩ :=
    Cells.copyTo_spec value place nodup_loop hsource' hdest' hroom' hplaces
  refine ⟨out, hrun, fun p hp k hk => ?_⟩
  rw [hvalue p hp k hk]
  exact harrived (p.2, p.1, k) (mem_loop.mpr ⟨hp, hk⟩)

theorem turn_flat (t : Turn) {data : List UInt8} (hdata : data.length = s.1 * s.2 * n)
    (source dest : ℕ × ℕ × ℕ → Option ℕ)
    (hsource : ∀ y x k, (x, y) ∈ area s → k < n → source (y, x, k) = some (byteAt s.1 n (x, y) k))
    (hdest : ∀ y x k, (x, y) ∈ area s → k < n →
      dest (y, x, k) = some (byteAt (t.size s).1 n (t.place s (x, y)) k)) :
    ∃ out, (flat UInt8).copyTo (fun i => (source i).bind fun j => data[j]?) dest (loop s n)
        (List.replicate ((t.size s).1 * (t.size s).2 * n) 0) = some out ∧
      out.length = (t.size s).1 * (t.size s).2 * n ∧
      ∀ p ∈ area s, ∀ k < n,
        out[byteAt (t.size s).1 n (t.place s p) k]? = data[byteAt s.1 n p k]? := by
  have hread : ∀ p ∈ area s, ∀ k < n, ((flat UInt8).get data (byteAt s.1 n p k)).isSome := by
    intro p hp k hk
    exact isSome_flat_get (hdata ▸ byteAt_lt hp hk)
  have hroom : ∀ p ∈ area (t.size s), ∀ k < n,
      ((flat UInt8).get (List.replicate ((t.size s).1 * (t.size s).2 * n) 0)
        (byteAt (t.size s).1 n p k)).isSome := by
    intro p hp k hk
    refine isSome_flat_get ?_
    rw [List.length_replicate]
    exact byteAt_lt hp hk
  have hread' : ∀ y x k, (x, y) ∈ area s → k < n →
      ((source (y, x, k)).bind fun j => data[j]?) =
        (flat UInt8).get data (byteAt s.1 n (x, y) k) := by
    intro y x k hp hk
    rw [hsource y x k hp hk]
    rfl
  obtain ⟨out, hrun, hturned⟩ := copyTo_turn (flat UInt8) t hread hroom
    (fun p hp q hq k hk l hl => byteAt_inj hp hq hk hl)
    (fun i => (source i).bind fun j => data[j]?) dest hread' hdest
  refine ⟨out, hrun, ?_, hturned⟩
  exact Cells.copyTo_invariant (fun b => b.length = (t.size s).1 * (t.size s).2 * n)
    (fun b k a hb => (length_flat_set b k a).trans hb) (List.length_replicate) hrun

end Buffer

end Glider.Imagep

import Glider.Imagep.Rotate

namespace Glider.Imagep

open Glider.Lib
open Turn (Size area)

-- The bytes of a row of pixels.
def rowbytes (width pixel_bits : ℕ) : ℕ := (width * pixel_bits + 7) / 8

theorem rowbytes_bytes (width n : ℕ) : rowbytes width (n * 8) = width * n := by
  rw [rowbytes, ← Nat.mul_assoc]
  omega

namespace ColorType

def channels : ColorType → ℕ
  | GRAY | PALETTE => 1
  | GRAY_ALPHA => 2
  | RGB => 3
  | RGB_ALPHA => 4

def hasAlpha : ColorType → Bool
  | GRAY_ALPHA | RGB_ALPHA => true
  | _ => false

def depths : ColorType → List ℕ
  | GRAY => [1, 2, 4, 8, 16]
  | PALETTE => [1, 2, 4, 8]
  | RGB | GRAY_ALPHA | RGB_ALPHA => [8, 16]

end ColorType

-- The header of a PNG file. Transparency is declared apart where the pixels have no alpha.
structure PngHeader where
  width : ℕ
  height : ℕ
  color_type : ColorType
  bit_depth : ℕ
  tRNS : Bool
  depth_mem : bit_depth ∈ color_type.depths
  tRNS_alpha : tRNS = true → color_type.hasAlpha = false

-- The transformations asked for before the rows are read.
structure Transformations where
  strip_16 : Bool
  palette_to_rgb : Bool
  tRNS_to_alpha : Bool
  filler : Bool
  gray_to_rgb : Bool

-- The pixels that come of it.
structure Format where
  colors : ℕ
  alpha : Bool
  filler : Bool
  bit_depth : ℕ

def Format.components (f : Format) : ℕ := f.colors + f.alpha.toNat + f.filler.toNat

-- libpng as documented: grey becomes RGB and less than eight bits eight, a palette is expanded,
-- transparency becomes alpha, and a filler stands where there is no alpha.
structure LibPng where
  update : PngHeader → Transformations → Format
  depth_strip : ∀ h t, h.bit_depth = 16 → t.strip_16 = true → (update h t).bit_depth = 8
  depth_same : ∀ h t, h.bit_depth = 8 → (update h t).bit_depth = 8
  depth_expand : ∀ h t, h.bit_depth < 8 →
    (h.color_type = .PALETTE ∧ t.palette_to_rgb = true ∨
      h.color_type = .GRAY ∧ t.gray_to_rgb = true) → (update h t).bit_depth = 8
  colors_rgb : ∀ h t, h.color_type = .RGB ∨ h.color_type = .RGB_ALPHA → (update h t).colors = 3
  colors_palette : ∀ h t, h.color_type = .PALETTE → t.palette_to_rgb = true →
    (update h t).colors = 3
  colors_gray : ∀ h t, h.color_type = .GRAY ∨ h.color_type = .GRAY_ALPHA → t.gray_to_rgb = true →
    (update h t).colors = 3
  alpha_same : ∀ h t, h.color_type.hasAlpha = true → (update h t).alpha = true
  alpha_tRNS : ∀ h t, h.tRNS = true → t.tRNS_to_alpha = true → (update h t).alpha = true
  filler_iff : ∀ h t, (update h t).filler = (t.filler && !(update h t).alpha)

namespace PngImage

def transformations (h : PngHeader) : Transformations where
  strip_16 := h.bit_depth = 16
  palette_to_rgb := h.color_type = .PALETTE
  tRNS_to_alpha := h.tRNS
  filler := h.color_type = .RGB ∨ h.color_type = .GRAY ∨ h.color_type = .PALETTE
  gray_to_rgb := h.color_type = .GRAY ∨ h.color_type = .GRAY_ALPHA

-- The picture keeps the colour type and the depth of the file; `pixel` is what is decoded.
def read (png : LibPng) (h : PngHeader) (pixel : ℕ → ℕ → UInt8) : Option PngImage :=
  if limits.imageDimensionsAllowed h.width h.height then
    let format := png.update h (transformations h)
    let size := rowbytes h.width (format.components * format.bit_depth)
    some {
      width := h.width
      height := h.height
      color_type := h.color_type
      bit_depth := h.bit_depth
      contains_data := true
      refmem := (List.range h.height).map fun y => (List.range size).map (pixel y) }
  else none

-- What `png_set_IHDR` is told, and the size of a row that follows.
def declaredRow (img : PngImage) : ℕ := rowbytes img.width (img.color_type.channels * img.bit_depth)

variable {png : LibPng} {h : PngHeader} {pixel : ℕ → ℕ → UInt8} {img : PngImage}

-- Whatever the file holds, a pixel is read as four bytes.
theorem update_depth (png : LibPng) (h : PngHeader) :
    (png.update h (transformations h)).bit_depth = 8 := by
  have hdepth := h.depth_mem
  rcases Nat.lt_trichotomy h.bit_depth 8 with hlt | heq | hgt
  · refine png.depth_expand h _ hlt ?_
    cases hcolor : h.color_type with
    | PALETTE => exact .inl ⟨rfl, decide_eq_true hcolor⟩
    | GRAY => exact .inr ⟨rfl, decide_eq_true (.inl hcolor)⟩
    | RGB | GRAY_ALPHA | RGB_ALPHA =>
      rw [hcolor] at hdepth
      simp [ColorType.depths] at hdepth
      omega
  · exact png.depth_same h _ heq
  · have hmem : h.bit_depth = 16 := by
      cases hcolor : h.color_type <;> rw [hcolor] at hdepth <;>
        simp [ColorType.depths] at hdepth <;> omega
    exact png.depth_strip h _ hmem (decide_eq_true hmem)

theorem update_colors (png : LibPng) (h : PngHeader) :
    (png.update h (transformations h)).colors = 3 := by
  cases hcolor : h.color_type with
  | GRAY => exact png.colors_gray h _ (.inl hcolor) (decide_eq_true (.inl hcolor))
  | RGB => exact png.colors_rgb h _ (.inl hcolor)
  | PALETTE => exact png.colors_palette h _ hcolor (decide_eq_true hcolor)
  | GRAY_ALPHA => exact png.colors_gray h _ (.inr hcolor) (decide_eq_true (.inr hcolor))
  | RGB_ALPHA => exact png.colors_rgb h _ (.inr hcolor)

theorem update_components (png : LibPng) (h : PngHeader) :
    (png.update h (transformations h)).components = 4 := by
  have hfiller := png.filler_iff h (transformations h)
  rw [Format.components, update_colors]
  cases halpha : (png.update h (transformations h)).alpha with
  | true => rw [hfiller, halpha]; simp
  | false =>
    have hopaque : (transformations h).filler = true := by
      refine decide_eq_true ?_
      cases hcolor : h.color_type with
      | GRAY => exact .inr (.inl rfl)
      | RGB => exact .inl rfl
      | PALETTE => exact .inr (.inr rfl)
      | GRAY_ALPHA | RGB_ALPHA =>
        rw [png.alpha_same h _ (by rw [hcolor]; rfl)] at halpha
        cases halpha
    rw [hfiller, halpha, hopaque]
    rfl

theorem read_holds (hread : read png h pixel = some img) :
    Admitted (h.width, h.height) ∧ img.Holds (h.width, h.height) ∧
      img.color_type = h.color_type ∧ img.bit_depth = h.bit_depth := by
  rw [read, Option.ite_none_right_eq_some, Option.some.injEq] at hread
  obtain ⟨hallowed, rfl⟩ := hread
  refine ⟨.inl hallowed, ⟨rfl, rfl, rfl, ?_⟩, rfl, rfl⟩
  have hsize : rowbytes h.width ((png.update h (transformations h)).components *
      (png.update h (transformations h)).bit_depth) = h.width * 4 := by
    rw [update_components, update_depth, rowbytes_bytes]
  simp only [hsize]
  refine List.ext_getElem (by simp) fun i hi hi' => ?_
  simp

-- A turn changes neither the colour type nor the depth.
theorem rotate_color {img' : PngImage} {angle : ℕ} (hrotate : img.rotate angle = .ok img') :
    img'.color_type = img.color_type ∧ img'.bit_depth = img.bit_depth := by
  rw [rotate] at hrotate
  split_ifs at hrotate
  rcases switchAngle_ok hrotate with rfl | ⟨t, -, hturned⟩
  · exact ⟨rfl, rfl⟩
  · rw [rotate_image_impl, Option.map_eq_some_iff] at hturned
    obtain ⟨out, -, rfl⟩ := hturned
    exact ⟨rfl, rfl⟩

theorem rotate_holds {img' : PngImage} {angle : ℕ} {s : Size} (hs : Admitted s)
    (h : img.Holds s) (hrotate : img.rotate angle = .ok img') :
    ∃ s', Admitted s' ∧ img'.Holds s' := by
  have hswitch := hrotate
  rw [rotate, h.contains_data] at hswitch
  rcases switchAngle_ok hswitch with rfl | ⟨t, rfl, -⟩
  · exact ⟨s, hs, h⟩
  · obtain ⟨img'', hrun, hholds, -⟩ := rotate_turns hs t h
    rw [hrun, Except.ok.injEq] at hrotate
    exact ⟨t.size s, hs.size t, hrotate ▸ hholds⟩

-- The writer takes from a row as many bytes as there are, and the pixels have the components of
-- the declared colour type.
structure Consistent (png : LibPng) (h : PngHeader) (img : PngImage) : Prop where
  rows : ∀ row ∈ img.refmem, row.length = img.declaredRow
  components : img.color_type.channels = (png.update h (transformations h)).components

theorem consistent_iff {img' : PngImage} {angle : ℕ} (hread : read png h pixel = some img)
    (hrotate : img.rotate angle = .ok img') :
    Consistent png h img' ↔ h.color_type = .RGB_ALPHA ∧ h.bit_depth = 8 := by
  obtain ⟨hadmitted, hholds, hcolor, hdepth⟩ := read_holds hread
  obtain ⟨hcolor', hdepth'⟩ := rotate_color hrotate
  obtain ⟨s, hs, hholds'⟩ := rotate_holds hadmitted hholds hrotate
  obtain ⟨hwidth, hheight, -⟩ := admitted_iff.mp hs
  have hrows : ∀ row ∈ img'.refmem, row.length = s.1 * 4 := by
    intro row hrow
    have hmem := List.mem_map_of_mem (f := List.length) hrow
    rw [hholds'.rows] at hmem
    exact List.eq_of_mem_replicate hmem
  rw [hcolor] at hcolor'
  rw [hdepth] at hdepth'
  constructor
  · rintro ⟨hsize, hcomponents⟩
    rw [hcolor', update_components] at hcomponents
    have hrgba : h.color_type = .RGB_ALPHA := by
      cases hc : h.color_type <;> rw [hc] at hcomponents <;> simp [ColorType.channels] at hcomponents
    refine ⟨hrgba, ?_⟩
    have hmem := h.depth_mem
    rw [hrgba] at hmem
    simp only [ColorType.depths, List.mem_cons, List.not_mem_nil, or_false] at hmem
    refine hmem.resolve_right fun h16 => ?_
    have hsome : img'.refmem ≠ [] := by
      intro hnil
      have hlength := congrArg List.length hholds'.rows
      rw [hnil, List.map_nil, List.length_nil, List.length_replicate] at hlength
      omega
    obtain ⟨row, hrow⟩ := List.exists_mem_of_ne_nil _ hsome
    have hdeclared := hsize row hrow
    have hdouble : rowbytes s.1 (4 * 16) = s.1 * 8 := rowbytes_bytes s.1 8
    rw [hrows row hrow, declaredRow, hholds'.width, hcolor', hdepth', hrgba, h16] at hdeclared
    change s.1 * 4 = rowbytes s.1 (4 * 16) at hdeclared
    omega
  · rintro ⟨hrgba, h8⟩
    refine ⟨fun row hrow => ?_, ?_⟩
    · rw [hrows row hrow, declaredRow, hholds'.width, hcolor', hdepth', hrgba, h8]
      exact (rowbytes_bytes s.1 4).symm
    · rw [hcolor', hrgba, update_components]
      rfl

end PngImage

structure JpegHeader where
  image_width : ℕ
  image_height : ℕ
  num_components : ℕ

-- libjpeg as documented: the output has as many components as the file, in grey, RGB, CMYK or an
-- unknown space.
structure LibJpeg where
  output_components : ℕ → ℕ
  same : ∀ n, 1 ≤ n → n ≤ 4 → output_components n = n

inductive ColorSpace where
  | JCS_GRAYSCALE
  | JCS_RGB

def ColorSpace.components : ColorSpace → ℕ
  | JCS_GRAYSCALE => 1
  | JCS_RGB => 3

namespace JPEGImage

def dimensionsAllowed (width height components : ℕ) : Bool :=
  limits.imageDimensionsAllowed width height && 0 < components && components ≤ 4

-- The check is made before and after the decoder is started; `pixel` is what it puts out.
def read (jpeg : LibJpeg) (h : JpegHeader) (pixel : ℕ → UInt8) : Option JPEGImage :=
  if dimensionsAllowed h.image_width h.image_height h.num_components then
    let channels := jpeg.output_components h.num_components
    if dimensionsAllowed h.image_width h.image_height channels then
      some {
        width := h.image_width
        height := h.image_height
        num_channels := channels
        image_data := (List.range (h.image_width * h.image_height * channels)).map pixel }
    else none
  else none

def in_color_space (img : JPEGImage) : ColorSpace :=
  if img.num_channels = 3 then .JCS_RGB else .JCS_GRAYSCALE

-- The row that follows from `input_components`, and the one that the writer is given.
def declaredRow (img : JPEGImage) : ℕ := img.width * img.num_channels

def row_stride (img : JPEGImage) : ℕ := u64 (img.width * img.num_channels)

structure Consistent (img : JPEGImage) : Prop where
  rows : img.row_stride = img.declaredRow
  data : img.image_data.length = img.height * img.declaredRow
  components : img.in_color_space.components = img.num_channels

variable {jpeg : LibJpeg} {h : JpegHeader} {pixel : ℕ → UInt8} {img img' : JPEGImage} {angle : ℕ}

theorem read_holds (hread : read jpeg h pixel = some img) :
    Admitted (h.image_width, h.image_height) ∧ img.Holds (h.image_width, h.image_height) ∧
      img.num_channels = h.num_components ∧ 1 ≤ h.num_components := by
  rw [read, Option.ite_none_right_eq_some] at hread
  obtain ⟨hallowed, hread⟩ := hread
  rw [Option.ite_none_right_eq_some, Option.some.injEq] at hread
  obtain ⟨hallowed', rfl⟩ := hread
  simp only [dimensionsAllowed, Bool.and_eq_true, decide_eq_true_eq] at hallowed hallowed'
  obtain ⟨⟨hsize, hlo⟩, hhi⟩ := hallowed
  refine ⟨.inl hsize, ⟨rfl, rfl, hallowed'.2, ?_⟩, jpeg.same _ hlo hhi, hlo⟩
  rw [List.length_map, List.length_range]

theorem rotate_holds {s : Size} (hs : Admitted s) (h : img.Holds s)
    (hrotate : img.rotate angle = .ok img') :
    ∃ s', Admitted s' ∧ img'.Holds s' ∧ img'.num_channels = img.num_channels := by
  rcases switchAngle_ok hrotate with rfl | ⟨t, rfl, -⟩
  · exact ⟨s, hs, h, rfl⟩
  · obtain ⟨img'', hrun, hholds, hchannels, -⟩ := rotate_turns hs t h
    rw [hrun, Except.ok.injEq] at hrotate
    exact ⟨t.size s, hs.size t, hrotate ▸ hholds, hrotate ▸ hchannels⟩

theorem consistent_iff (hread : read jpeg h pixel = some img)
    (hrotate : img.rotate angle = .ok img') :
    Consistent img' ↔ h.num_components = 1 ∨ h.num_components = 3 := by
  obtain ⟨hadmitted, hholds, hchannels, hlo⟩ := read_holds hread
  obtain ⟨s, hs, hholds', hchannels'⟩ := rotate_holds hadmitted hholds hrotate
  obtain ⟨-, -, hpixels⟩ := admitted_iff.mp hs
  rw [hchannels] at hchannels'
  constructor
  · rintro ⟨-, -, hcomponents⟩
    rw [in_color_space, hchannels'] at hcomponents
    split_ifs at hcomponents with hrgb
    · exact .inr hrgb
    · exact .inl hcomponents.symm
  · intro hcount
    have hbytes : s.1 * h.num_components ≤ 2 ^ 24 * 4 :=
      Nat.mul_le_mul hs.sides.1 (hchannels' ▸ hholds'.channels)
    refine ⟨?_, ?_, ?_⟩
    · rw [row_stride, declaredRow, hholds'.width, hchannels']
      exact u64_of_lt (by omega)
    · rw [hholds'.data, declaredRow, hholds'.width, hholds'.height]
      rw [Nat.mul_comm s.1 s.2, Nat.mul_assoc]
    · rw [in_color_space, hchannels']
      rcases hcount with h1 | h3
      · rw [h1]
        rfl
      · rw [h3]
        rfl

end JPEGImage

-- The transformations in the order of the manual.
def LibPng.manual : LibPng where
  update h t :=
    let colored := h.color_type = .RGB ∨ h.color_type = .RGB_ALPHA ∨
      h.color_type = .PALETTE ∧ t.palette_to_rgb = true ∨
      (h.color_type = .GRAY ∨ h.color_type = .GRAY_ALPHA) ∧ t.gray_to_rgb = true
    let alpha := h.color_type.hasAlpha || h.tRNS && t.tRNS_to_alpha
    let expanded := h.color_type = .PALETTE ∧ t.palette_to_rgb = true ∨
      h.color_type = .GRAY ∧ t.gray_to_rgb = true
    { colors := if colored then 3 else 1
      alpha
      filler := t.filler && !alpha
      bit_depth :=
        if h.bit_depth = 16 ∧ t.strip_16 = true ∨ h.bit_depth < 8 ∧ expanded then 8
        else h.bit_depth }
  depth_strip _ _ hdepth hstrip := if_pos (.inl ⟨hdepth, hstrip⟩)
  depth_same _ _ hdepth := by
    simp only
    split_ifs
    · rfl
    · exact hdepth
  depth_expand _ _ hdepth hexpand := if_pos (.inr ⟨hdepth, hexpand⟩)
  colors_rgb _ _ h := if_pos (h.elim .inl fun h => .inr (.inl h))
  colors_palette _ _ h ht := if_pos (.inr (.inr (.inl ⟨h, ht⟩)))
  colors_gray _ _ h ht := if_pos (.inr (.inr (.inr ⟨h, ht⟩)))
  alpha_same _ _ h := by simp [h]
  alpha_tRNS _ _ h ht := by simp [h, ht]
  filler_iff _ _ := rfl

def LibJpeg.manual : LibJpeg := ⟨id, fun _ _ _ => rfl⟩

-- A picture is written as it is stored just where the file was RGBA of eight bits, or a JPEG file
-- in grey or RGB.
theorem written_consistent_iff (png : LibPng) (jpeg : LibJpeg) :
    (∀ h pixel img angle img', PngImage.read png h pixel = some img →
        img.rotate angle = .ok img' →
        (PngImage.Consistent png h img' ↔ h.color_type = .RGB_ALPHA ∧ h.bit_depth = 8)) ∧
      ∀ h pixel img angle img', JPEGImage.read jpeg h pixel = some img →
        img.rotate angle = .ok img' →
        (JPEGImage.Consistent img' ↔ h.num_components = 1 ∨ h.num_components = 3) :=
  ⟨fun _ _ _ _ _ hread hrotate => PngImage.consistent_iff hread hrotate,
    fun _ _ _ _ _ hread hrotate => JPEGImage.consistent_iff hread hrotate⟩

-- The most common kind of file, one pixel of it.
def rgbHeader : PngHeader := ⟨1, 1, .RGB, 8, false, by decide, by decide⟩

def rgbImage : PngImage := ⟨1, 1, .RGB, 8, true, [[0, 0, 0, 0]]⟩

theorem rgb_inconsistent :
    ¬ ((∀ png h pixel img angle img', PngImage.read png h pixel = some img →
        img.rotate angle = .ok img' → PngImage.Consistent png h img') ∧
      ∀ jpeg h pixel img angle img', JPEGImage.read jpeg h pixel = some img →
        img.rotate angle = .ok img' → JPEGImage.Consistent img') := by
  rintro ⟨hpng, -⟩
  have hread : PngImage.read LibPng.manual rgbHeader (fun _ _ => 0) = some rgbImage := by decide
  have hconsistent := hpng _ _ _ rgbImage 0 rgbImage hread (by decide)
  exact absurd (hconsistent.rows [0, 0, 0, 0] (by decide)) (by decide)

end Glider.Imagep

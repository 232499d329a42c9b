import Glider.Quote.Assets
import Mathlib.Data.List.GetD

namespace Glider.Quote

open Lib

section Walk

variable (bytes : Bytes)

def field16 (i : ℕ) : ℕ := (bytes.getD i 0).toNat * 256 + (bytes.getD (i + 1) 0).toNat

def IsFrameMarker (marker : UInt8) : Prop :=
  0xC0 ≤ marker ∧ marker ≤ 0xCF ∧ marker ≠ 0xC4 ∧ marker ≠ 0xC8 ∧ marker ≠ 0xCC

-- A marker that a declared length follows.
structure Heads (c : ℕ) (marker : UInt8) : Prop where
  marked : bytes[c]? = some marker
  not_fill : marker ≠ 0xff
  not_standAlone : isStandAlone marker = false

-- What the walk from a place first meets: a frame, by its width and height, or a declared length
-- that cannot be.
inductive Meets : ℕ → Option (ℕ × ℕ) → Prop
  | frame {c : ℕ} {marker : UInt8} (h : Heads bytes c marker) (hframe : IsFrameMarker marker)
      (hlength : 7 ≤ field16 bytes (c + 1)) (hfits : c + 1 + field16 bytes (c + 1) ≤ bytes.length) :
      Meets c (some (field16 bytes (c + 6), field16 bytes (c + 4)))
  | broken {c : ℕ} {marker : UInt8} (h : Heads bytes c marker) (hroom : c + 3 ≤ bytes.length)
      (hlength : field16 bytes (c + 1) < 2 ∨ bytes.length < c + 1 + field16 bytes (c + 1)) :
      Meets c none
  | fill {c : ℕ} {o : Option (ℕ × ℕ)} (h : bytes[c]? = some 0xff) (hnext : Meets (c + 1) o) :
      Meets c o
  | standAlone {c : ℕ} {marker : UInt8} {o : Option (ℕ × ℕ)} (h : bytes[c]? = some marker)
      (hmarker : isStandAlone marker = true) (hnext : Meets (c + 1) o) : Meets c o
  | segment {c : ℕ} {marker : UInt8} {o : Option (ℕ × ℕ)} (h : Heads bytes c marker)
      (hlength : 2 ≤ field16 bytes (c + 1)) (hfits : c + 1 + field16 bytes (c + 1) ≤ bytes.length)
      (hother : ¬(IsFrameMarker marker ∧ 7 ≤ field16 bytes (c + 1)))
      (hnext : Meets (c + 1 + field16 bytes (c + 1)) o) : Meets c o

variable {bytes} {c : ℕ} {marker : UInt8} {o o' : Option (ℕ × ℕ)}

theorem Heads.marker_eq {marker' : UInt8} (h : Heads bytes c marker)
    (h' : bytes[c]? = some marker') : marker' = marker :=
  Option.some.inj (h'.symm.trans h.marked)

theorem meets_fill (h : bytes[c]? = some 0xff) : Meets bytes c o ↔ Meets bytes (c + 1) o := by
  constructor
  · intro hm
    cases hm with
    | frame hheads _ _ _ => exact absurd (hheads.marker_eq h).symm hheads.not_fill
    | broken hheads _ _ => exact absurd (hheads.marker_eq h).symm hheads.not_fill
    | fill _ hnext | standAlone _ _ hnext => exact hnext
    | segment hheads _ _ _ _ => exact absurd (hheads.marker_eq h).symm hheads.not_fill
  · exact .fill h

theorem Heads.standAlone_ne {marker' : UInt8} (h : Heads bytes c marker)
    (h' : bytes[c]? = some marker') : isStandAlone marker' ≠ true := by
  rw [h.marker_eq h', h.not_standAlone]
  exact Bool.false_ne_true

theorem meets_standAlone (h : bytes[c]? = some marker) (hmarker : isStandAlone marker = true) :
    Meets bytes c o ↔ Meets bytes (c + 1) o := by
  constructor
  · intro hm
    cases hm with
    | frame hheads _ _ _ | broken hheads _ _ => exact absurd hmarker (hheads.standAlone_ne h)
    | fill _ hnext | standAlone _ _ hnext => exact hnext
    | segment hheads _ _ _ _ => exact absurd hmarker (hheads.standAlone_ne h)
  · exact .standAlone h hmarker

-- How a walk goes on from a segment.
theorem Heads.meets (h : Heads bytes c marker) (hm : Meets bytes c o) :
    (IsFrameMarker marker ∧ 7 ≤ field16 bytes (c + 1) ∧
      c + 1 + field16 bytes (c + 1) ≤ bytes.length ∧
      o = some (field16 bytes (c + 6), field16 bytes (c + 4))) ∨
    ((field16 bytes (c + 1) < 2 ∨ bytes.length < c + 1 + field16 bytes (c + 1)) ∧ o = none) ∨
    (2 ≤ field16 bytes (c + 1) ∧ c + 1 + field16 bytes (c + 1) ≤ bytes.length ∧
      ¬(IsFrameMarker marker ∧ 7 ≤ field16 bytes (c + 1)) ∧
      Meets bytes (c + 1 + field16 bytes (c + 1)) o) := by
  cases hm with
  | frame hheads hframe hlength hfits =>
    rw [h.marker_eq hheads.marked] at hframe
    exact .inl ⟨hframe, hlength, hfits, rfl⟩
  | broken hheads hroom hlength => exact .inr (.inl ⟨hlength, rfl⟩)
  | fill hfill hnext => exact absurd (h.marker_eq hfill).symm h.not_fill
  | standAlone hmarked hmarker hnext => exact absurd hmarker (h.standAlone_ne hmarked)
  | segment hheads hlength hfits hother hnext =>
    rw [h.marker_eq hheads.marked] at hother
    exact .inr (.inr ⟨hlength, hfits, hother, hnext⟩)

theorem Meets.unique (h : Meets bytes c o) (h' : Meets bytes c o') : o = o' := by
  induction h with
  | frame hheads hframe hlength hfits =>
    rcases hheads.meets h' with ⟨-, -, -, rfl⟩ | ⟨hbad, -⟩ | ⟨-, -, hother, -⟩
    · rfl
    · omega
    · exact absurd ⟨hframe, hlength⟩ hother
  | broken hheads hroom hbad =>
    rcases hheads.meets h' with ⟨-, hlength, hfits, -⟩ | ⟨-, rfl⟩ | ⟨hlength, hfits, -, -⟩
    · omega
    · rfl
    · omega
  | fill hfill _ ih => exact ih ((meets_fill hfill).mp h')
  | standAlone hmarked hmarker _ ih => exact ih ((meets_standAlone hmarked hmarker).mp h')
  | segment hheads hlength hfits hother _ ih =>
    rcases hheads.meets h' with ⟨hframe, hseven, -, -⟩ | ⟨hbad, -⟩ | ⟨-, -, -, hnext⟩
    · exact absurd ⟨hframe, hseven⟩ hother
    · omega
    · exact ih hnext

theorem Meets.lt_length (h : Meets bytes c o) : c < bytes.length := by
  have of_marked : ∀ {marker : UInt8}, bytes[c]? = some marker → c < bytes.length :=
    fun hmarked => (List.getElem?_eq_some_iff.mp hmarked).1
  cases h with
  | frame hheads _ _ _ | broken hheads _ _ => exact of_marked hheads.marked
  | fill hfill _ => exact of_marked hfill
  | standAlone hmarked _ _ => exact of_marked hmarked
  | segment hheads _ _ _ _ => exact of_marked hheads.marked

theorem Meets.room {dimensions : ℕ × ℕ} (h : Meets bytes c (some dimensions)) :
    c + 8 ≤ bytes.length := by
  generalize ho : some dimensions = o at h
  induction h with
  | frame _ _ hlength hfits => omega
  | broken _ _ _ => cases ho
  | fill _ _ ih | standAlone _ _ _ ih =>
    have := ih ho
    omega
  | segment _ _ _ _ _ ih =>
    have := ih ho
    omega

end Walk

section Reading

variable {bytes : Bytes}

theorem read_eq {i : ℕ} (h : i < bytes.length) : read bytes i = .ok (bytes.getD i 0) := by
  rw [read, List.getElem?_eq_getElem h, List.getD_eq_getElem _ _ h]

theorem read16_eq {i : ℕ} (h : i + 1 < bytes.length) : read16 bytes i = .ok (field16 bytes i) := by
  have hlow := (bytes.getD (i + 1) 0).toNat_lt
  have hvalue : (bytes.getD i 0).toNat <<< 8 ||| (bytes.getD (i + 1) 0).toNat =
      field16 bytes i := by
    rw [← Nat.shiftLeft_add_eq_or_of_lt hlow, Nat.shiftLeft_eq, field16]
  rw [read16, read_eq (by omega), read_eq h]
  exact congrArg Except.ok hvalue

theorem isStartOfFrame_iff (marker : UInt8) :
    isStartOfFrame marker = true ↔ IsFrameMarker marker := by
  have hall : ∀ n < 256, isStartOfFrame (.ofNat n) = true ↔ IsFrameMarker (.ofNat n) := by
    unfold IsFrameMarker
    decide +kernel
  have hmarker := hall marker.toNat marker.toNat_lt
  rwa [UInt8.ofNat_toNat] at hmarker

-- What one pass of the loop says about the walk.
def Agrees (bytes : Bytes) (c : ℕ) : Pass → Prop
  | .stops => ∀ dimensions, ¬Meets bytes c (some dimensions)
  | .finds width height => Meets bytes c (some (width, height))
  | .goesOn next => ∀ o, Meets bytes c o ↔ Meets bytes next o

theorem declared_agrees {c : ℕ} {marker : UInt8} (h : Heads bytes c marker) :
    ∃ pass, declared bytes marker (c + 1) = .ok pass ∧ Agrees bytes c pass := by
  unfold declared
  by_cases hroom : bytes.length < c + 1 + 2
  · refine ⟨.stops, if_pos hroom, fun dimensions hm => ?_⟩
    have := hm.room
    omega
  rw [if_neg hroom, read16_eq (by omega)]
  by_cases hbad : field16 bytes (c + 1) < 2 ∨ bytes.length < c + 1 + field16 bytes (c + 1)
  · refine ⟨.stops, if_pos hbad, fun dimensions hm => ?_⟩
    cases hm.unique (.broken h (by omega) hbad)
  by_cases hframe : isStartOfFrame marker ∧ 7 ≤ field16 bytes (c + 1)
  · refine ⟨.finds (field16 bytes (c + 6)) (field16 bytes (c + 4)), ?_, ?_⟩
    · refine (if_neg hbad).trans ((if_pos hframe).trans ?_)
      rw [read16_eq (by omega), read16_eq (by omega)]
      rfl
    · exact .frame h ((isStartOfFrame_iff marker).mp hframe.1) hframe.2 (by omega)
  · refine ⟨.goesOn (c + 1 + field16 bytes (c + 1)), (if_neg hbad).trans (if_neg hframe), ?_⟩
    rw [isStartOfFrame_iff] at hframe
    intro o
    constructor
    · intro hm
      rcases h.meets hm with ⟨hmarker, hseven, -, -⟩ | ⟨hbad', -⟩ | ⟨-, -, -, hnext⟩
      · exact absurd ⟨hmarker, hseven⟩ hframe
      · exact absurd hbad' hbad
      · exact hnext
    · exact .segment h (by omega) (by omega) hframe

variable (bytes) in
theorem skipFill_agrees (cursor : ℕ) :
    ∃ c, skipFill bytes cursor = .ok c ∧ (c < bytes.length → bytes.getD c 0 ≠ 0xff) ∧
      ∀ o, Meets bytes cursor o ↔ Meets bytes c o := by
  fun_induction skipFill bytes cursor with
  | case1 cursor hlt ih =>
    rw [read_eq hlt]
    by_cases hfill : bytes.getD cursor 0 = 0xff
    · obtain ⟨c, hc, hne, hmeets⟩ := ih
      refine ⟨c, (if_pos hfill).trans hc, hne, fun o => ?_⟩
      rw [← hmeets o]
      apply meets_fill
      rw [← hfill, List.getElem?_eq_getElem hlt, List.getD_eq_getElem _ _ hlt]
    · exact ⟨cursor, if_neg hfill, fun _ => hfill, fun o => Iff.rfl⟩
  | case2 cursor hlt => exact ⟨cursor, rfl, fun h => absurd h hlt, fun o => Iff.rfl⟩

theorem Agrees.congr {c c' : ℕ} {pass : Pass} (h : Agrees bytes c pass)
    (hmeets : ∀ o, Meets bytes c' o ↔ Meets bytes c o) : Agrees bytes c' pass := by
  cases pass with
  | stops => exact fun dimensions hm => h dimensions ((hmeets _).mp hm)
  | finds width height => exact (hmeets _).mpr h
  | goesOn next => exact fun o => (hmeets o).trans (h o)

variable (bytes) in
theorem segment_agrees (cursor : ℕ) :
    ∃ pass, segment bytes cursor = .ok pass ∧ Agrees bytes cursor pass := by
  obtain ⟨c, hc, hne, hmeets⟩ := skipFill_agrees bytes cursor
  rw [segment, hc]
  by_cases hend : bytes.length ≤ c
  · refine ⟨.stops, if_pos hend, fun dimensions hm => ?_⟩
    have := ((hmeets _).mp hm).lt_length
    omega
  have hlt := Nat.not_le.mp hend
  have hmarked : bytes[c]? = some (bytes.getD c 0) := by
    rw [List.getElem?_eq_getElem hlt, List.getD_eq_getElem _ _ hlt]
  by_cases hmarker : isStandAlone (bytes.getD c 0) = true
  · refine ⟨.goesOn (c + 1), ?_, fun o => (hmeets o).trans (meets_standAlone hmarked hmarker)⟩
    refine (if_neg hend).trans ?_
    rw [read_eq hlt]
    exact if_pos hmarker
  · obtain ⟨pass, hpass, hagrees⟩ :=
      declared_agrees ⟨hmarked, hne hlt, Bool.eq_false_iff.mpr hmarker⟩
    refine ⟨pass, ?_, hagrees.congr hmeets⟩
    refine (if_neg hend).trans ?_
    rw [read_eq hlt]
    exact (if_neg hmarker).trans hpass

variable (bytes) in
theorem scan_agrees (cursor : ℕ) : ∃ result, scan bytes cursor = .ok result ∧
    ∀ dimensions, result = some dimensions ↔ Meets bytes cursor (some dimensions) := by
  fun_induction scan bytes cursor with
  | case1 cursor hroom fault hpass =>
    obtain ⟨pass, hok, -⟩ := segment_agrees bytes cursor
    cases hok.symm.trans hpass
  | case2 cursor hroom hpass =>
    obtain ⟨pass, hok, hagrees⟩ := segment_agrees bytes cursor
    cases hok.symm.trans hpass
    exact ⟨none, rfl, fun dimensions => iff_of_false (Option.some_ne_none _).symm (hagrees _)⟩
  | case3 cursor hroom width height hpass =>
    obtain ⟨pass, hok, hagrees⟩ := segment_agrees bytes cursor
    cases hok.symm.trans hpass
    refine ⟨some (width, height), rfl, fun dimensions => ⟨?_, fun hm => hagrees.unique hm⟩⟩
    intro h
    rw [← h]
    exact hagrees
  | case4 cursor hroom next hpass ih =>
    obtain ⟨pass, hok, hagrees⟩ := segment_agrees bytes cursor
    cases hok.symm.trans hpass
    obtain ⟨result, hresult, hdimensions⟩ := ih
    exact ⟨result, hresult, fun dimensions => (hdimensions dimensions).trans (hagrees _).symm⟩
  | case5 cursor hroom =>
    refine ⟨none, rfl, fun dimensions => iff_of_false (Option.some_ne_none _).symm fun hm => ?_⟩
    have := hm.room
    omega

end Reading

section Probed

variable {bytes : Bytes} {webPGetInfo : Bytes → Option (ℤ × ℤ)}

def StartsAsJpeg (bytes : Bytes) : Prop := [0xff, 0xd8] <+: bytes

variable (bytes) in
theorem bigEndian_ok (offset : ℕ) (h : offset + 3 < bytes.length) :
    ∃ value, bigEndian bytes offset = .ok value := by
  rw [bigEndian, read_eq (by omega), read_eq (by omega), read_eq (by omega), read_eq h]
  exact ⟨_, rfl⟩

theorem probeDimensions_ok (bytes : Bytes) (webPGetInfo : Bytes → Option (ℤ × ℤ)) :
    ∃ result, probeDimensions bytes webPGetInfo = .ok result := by
  unfold probeDimensions
  cases webpDimensions bytes webPGetInfo with
  | some dimensions => exact ⟨some dimensions, rfl⟩
  | none =>
    dsimp only
    split
    · next hpng =>
      obtain ⟨width, hwidth⟩ := bigEndian_ok bytes 16 (by omega)
      obtain ⟨height, hheight⟩ := bigEndian_ok bytes 20 (by omega)
      rw [hwidth, hheight]
      exact ⟨some (width, height), rfl⟩
    split
    · exact ⟨none, rfl⟩
    · rw [read_eq (by omega), read_eq (by omega)]
      obtain ⟨result, hresult, -⟩ := scan_agrees bytes 2
      by_cases hfirst : bytes.getD 0 0 = 0xff
      · by_cases hsecond : bytes.getD 1 0 = 0xd8
        · refine ⟨result, ?_⟩
          exact (if_neg (not_not_intro hfirst)).trans ((if_neg (not_not_intro hsecond)).trans hresult)
        · exact ⟨none, (if_neg (not_not_intro hfirst)).trans (if_pos hsecond)⟩
      · exact ⟨none, if_pos hfirst⟩

theorem probe_of_jpeg (hwebp : webpDimensions bytes webPGetInfo = none) (h : StartsAsJpeg bytes)
    (hlength : 4 ≤ bytes.length) : probeDimensions bytes webPGetInfo = scan bytes 2 := by
  obtain ⟨rest, rfl⟩ := h
  have hpng : ¬(24 ≤ ([0xff, 0xd8] ++ rest).length ∧
      ([0xff, 0xd8] ++ rest).take 8 = pngSignature) := by
    rintro ⟨-, hsignature⟩
    cases hsignature
  unfold probeDimensions
  rw [hwebp]
  dsimp only
  rw [if_neg hpng, if_neg (Nat.not_lt.mpr hlength)]
  rfl

-- The dimensions of a JPEG, where the library for WebP does not take it for its own.
structure Probed (bytes : Bytes) (webPGetInfo : Bytes → Option (ℤ × ℤ)) : Prop where
  returns : ∃ result, probeDimensions bytes webPGetInfo = .ok result
  jpeg : StartsAsJpeg bytes → webpDimensions bytes webPGetInfo = none → ∀ dimensions,
    probeDimensions bytes webPGetInfo = .ok (some dimensions) ↔ Meets bytes 2 (some dimensions)
  broken : StartsAsJpeg bytes → webpDimensions bytes webPGetInfo = none → Meets bytes 2 none →
    probeDimensions bytes webPGetInfo = .ok none

theorem probe_iff_meets (hwebp : webpDimensions bytes webPGetInfo = none) (h : StartsAsJpeg bytes)
    (dimensions : ℕ × ℕ) :
    probeDimensions bytes webPGetInfo = .ok (some dimensions) ↔
      Meets bytes 2 (some dimensions) := by
  by_cases hlength : 4 ≤ bytes.length
  · obtain ⟨result, hresult, hmeets⟩ := scan_agrees bytes 2
    rw [probe_of_jpeg hwebp h hlength, hresult, ← hmeets]
    constructor
    · exact fun hok => Except.ok.inj hok
    · exact fun hok => congrArg Except.ok hok
  · have hnone : probeDimensions bytes webPGetInfo = .ok none := by
      unfold probeDimensions
      rw [hwebp]
      dsimp only
      rw [if_neg (fun hpng => hlength (by omega)), if_pos (Nat.not_le.mp hlength)]
    rw [hnone]
    refine iff_of_false ?_ fun hm => hlength ?_
    · rintro ⟨⟩
    · have := hm.room
      omega

theorem probed (bytes : Bytes) (webPGetInfo : Bytes → Option (ℤ × ℤ)) :
    Probed bytes webPGetInfo where
  returns := probeDimensions_ok bytes webPGetInfo
  jpeg := fun h hwebp dimensions => probe_iff_meets hwebp h dimensions
  broken := by
    intro h hwebp hbroken
    obtain ⟨result, hresult⟩ := probeDimensions_ok bytes webPGetInfo
    cases result with
    | none => exact hresult
    | some dimensions => cases hbroken.unique ((probe_iff_meets hwebp h dimensions).mp hresult)

end Probed

section Budget

variable {Image : Type} {webPGetInfo : Bytes → Option (ℤ × ℤ)}
  {decodeImage : Bytes → Except QuoteError Image} {state : RenderState} {call : AssetCall}

variable (webPGetInfo decodeImage) in
theorem decodeProbed_ok (bytes : Bytes) :
    ∃ image, decodeProbed webPGetInfo decodeImage bytes = .ok image := by
  obtain ⟨result, hresult⟩ := probeDimensions_ok bytes webPGetInfo
  rw [decodeProbed, hresult]
  cases result with
  | none => exact ⟨_, rfl⟩
  | some dimensions =>
    dsimp only [bind, Except.bind]
    split
    · exact ⟨_, rfl⟩
    · exact ⟨_, rfl⟩

theorem remaining_toNat (state : RenderState) :
    state.remaining.toNat = state.maximumSourceBytes.toNat -
      min state.sourceBytes.toNat state.maximumSourceBytes.toNat := by
  have hmin : (min state.sourceBytes state.maximumSourceBytes).toNat =
      min state.sourceBytes.toNat state.maximumSourceBytes.toNat := by
    change (if state.sourceBytes ≤ state.maximumSourceBytes then state.sourceBytes
      else state.maximumSourceBytes).toNat = _
    by_cases h : state.sourceBytes ≤ state.maximumSourceBytes
    · rw [if_pos h, Nat.min_eq_left (UInt64.le_iff_toNat_le.mp h)]
    · have hle := UInt64.le_iff_toNat_le.not.mp h
      rw [if_neg h, Nat.min_eq_right (by omega)]
  have hle : min state.sourceBytes state.maximumSourceBytes ≤ state.maximumSourceBytes := by
    apply UInt64.le_iff_toNat_le.mpr
    rw [hmin]
    exact Nat.min_le_right ..
  rw [RenderState.remaining, UInt64.toNat_sub_of_le _ _ hle, hmin]

-- What a call charges: nothing, or the whole of its asset.
def Charges (call : AssetCall) (state state' : RenderState) : Prop :=
  state' = state ∨ ∃ asset, call.resolved = .ok asset ∧
    state'.maximumSourceBytes = state.maximumSourceBytes ∧
    state'.sourceBytes.toNat = state.sourceBytes.toNat + asset.bytes.length

def Within (state : RenderState) : Prop :=
  state.sourceBytes.toNat ≤ state.maximumSourceBytes.toNat

theorem charges_of_decodeAsset (h : Within state) (call : AssetCall) :
    ∃ image state', decodeAsset webPGetInfo decodeImage state call = .ok (image, state') ∧
      Charges call state state' ∧ Within state' := by
  unfold decodeAsset
  split
  · exact ⟨_, state, rfl, .inl rfl, h⟩
  split
  · exact ⟨_, state, rfl, .inl rfl, h⟩
  cases hresolved : call.resolved with
  | error error => exact ⟨_, state, rfl, .inl rfl, h⟩
  | ok asset =>
    dsimp only
    split
    · exact ⟨_, state, rfl, .inl rfl, h⟩
    split
    · exact ⟨_, state, rfl, .inl rfl, h⟩
    split
    · exact ⟨_, state, rfl, .inl rfl, h⟩
    · next hfits =>
      obtain ⟨image, himage⟩ := decodeProbed_ok webPGetInfo decodeImage asset.bytes
      have hsize : asset.size.toNat = asset.bytes.length := UInt64.toNat_ofNat_of_lt' asset.fits
      rw [UInt64.lt_iff_toNat_lt, hsize, remaining_toNat] at hfits
      have hmaximum := state.maximumSourceBytes.toNat_lt
      unfold Within at h
      have hsum : (state.sourceBytes + asset.size).toNat =
          state.sourceBytes.toNat + asset.bytes.length := by
        rw [UInt64.toNat_add, hsize]
        exact Nat.mod_eq_of_lt (by omega)
      refine ⟨image, { state with sourceBytes := state.sourceBytes + asset.size }, ?_, ?_, ?_⟩
      · rw [himage]
        rfl
      · exact .inr ⟨asset, hresolved, rfl, hsum⟩
      · change (state.sourceBytes + asset.size).toNat ≤ state.maximumSourceBytes.toNat
        omega

variable (webPGetInfo decodeImage) in
theorem decodeAssets_within (h : Within state) (calls : List AssetCall) :
    ∃ state', decodeAssets webPGetInfo decodeImage state calls = .ok state' ∧
      state'.maximumSourceBytes = state.maximumSourceBytes ∧ Within state' := by
  induction calls generalizing state with
  | nil => exact ⟨state, rfl, rfl, h⟩
  | cons call calls ih =>
    obtain ⟨image, next, hnext, hcharges, hwithin⟩ := charges_of_decodeAsset h call
    obtain ⟨state', hstate', hmaximum, hwithin'⟩ := ih hwithin
    have hsame : next.maximumSourceBytes = state.maximumSourceBytes := by
      rcases hcharges with rfl | ⟨asset, -, hsame, -⟩
      · rfl
      · exact hsame
    refine ⟨state', ?_, hmaximum.trans hsame, hwithin'⟩
    rw [decodeAssets, hnext]
    exact hstate'

-- The limit of a request is kept and nothing that is subtracted from it is larger.
structure Budgeted (start state : RenderState) : Prop where
  maximum : state.maximumSourceBytes = start.maximumSourceBytes
  within : Within state
  remaining : state.remaining.toNat + min state.sourceBytes.toNat state.maximumSourceBytes.toNat =
    state.maximumSourceBytes.toNat

structure Guarded (webPGetInfo : Bytes → Option (ℤ × ℤ))
    (decodeImage : Bytes → Except QuoteError Image) : Prop where
  probes : ∀ bytes, Probed bytes webPGetInfo
  budget : ∀ start calls, start.sourceBytes = 0 → ∃ state,
    decodeAssets webPGetInfo decodeImage start calls = .ok state ∧ Budgeted start state ∧
      ∀ call image state', decodeAsset webPGetInfo decodeImage state call = .ok (image, state') →
        Charges call state state'

theorem guarded (webPGetInfo : Bytes → Option (ℤ × ℤ))
    (decodeImage : Bytes → Except QuoteError Image) : Guarded webPGetInfo decodeImage where
  probes := fun bytes => probed bytes webPGetInfo
  budget := by
    intro start calls hstart
    have hwithin : Within start := by
      rw [Within, hstart]
      exact Nat.zero_le _
    obtain ⟨state, hstate, hmaximum, hwithin'⟩ :=
      decodeAssets_within webPGetInfo decodeImage hwithin calls
    refine ⟨state, hstate, ⟨hmaximum, hwithin', ?_⟩, fun call image state' hcall => ?_⟩
    · rw [remaining_toNat]
      exact Nat.sub_add_cancel (Nat.min_le_right ..)
    · obtain ⟨image', next, hnext, hcharges, -⟩ := charges_of_decodeAsset hwithin' call
      cases hnext.symm.trans hcall
      exact hcharges

end Budget

end Glider.Quote

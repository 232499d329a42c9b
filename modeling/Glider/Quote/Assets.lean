import Glider.Quote.Entities

namespace Glider.Quote

open Lib

def kMaximumDimension : ℕ := 4096

def kMaximumPixels : ℕ := 64 * 1024 * 1024

-- The undefined behaviour that a read past the end would be.
inductive Fault
  | outside

def read (bytes : Bytes) (i : ℕ) : Except Fault UInt8 :=
  match bytes[i]? with
  | some b => .ok b
  | none => .error .outside

section Probe

variable (bytes : Bytes)

def read16 (i : ℕ) : Except Fault ℕ := do
  let high ← read bytes i
  let low ← read bytes (i + 1)
  pure (high.toNat <<< 8 ||| low.toNat)

def bigEndian (offset : ℕ) : Except Fault ℕ := do
  let first ← read bytes offset
  let second ← read bytes (offset + 1)
  let third ← read bytes (offset + 2)
  let fourth ← read bytes (offset + 3)
  pure (first.toNat <<< 24 ||| second.toNat <<< 16 ||| third.toNat <<< 8 ||| fourth.toNat)

def pngSignature : Bytes := [0x89, 80, 78, 71, 0x0d, 0x0a, 0x1a, 0x0a]

def isStandAlone (marker : UInt8) : Bool :=
  marker = 0xd8 ∨ marker = 0xd9 ∨ 0xd0 ≤ marker ∧ marker ≤ 0xd7

def isStartOfFrame (marker : UInt8) : Bool :=
  0xc0 ≤ marker ∧ marker ≤ 0xc3 ∨ 0xc5 ≤ marker ∧ marker ≤ 0xc7 ∨
    0xc9 ≤ marker ∧ marker ≤ 0xcb ∨ 0xcd ≤ marker ∧ marker ≤ 0xcf

def skipFill (cursor : ℕ) : Except Fault ℕ :=
  if cursor < bytes.length then do
    let b ← read bytes cursor
    if b = 0xff then skipFill (cursor + 1) else pure cursor
  else pure cursor
termination_by bytes.length - cursor

-- What one pass of the outer loop comes to.
inductive Pass
  | stops
  | finds (width height : ℕ)
  | goesOn (cursor : ℕ)

-- The cursor is behind a marker that a length follows.
def declared (marker : UInt8) (cursor : ℕ) : Except Fault Pass :=
  if bytes.length < cursor + 2 then pure .stops
  else do
    let length ← read16 bytes cursor
    if length < 2 ∨ bytes.length < cursor + length then pure .stops
    else if isStartOfFrame marker ∧ 7 ≤ length then
      let height ← read16 bytes (cursor + 3)
      let width ← read16 bytes (cursor + 5)
      pure (.finds width height)
    else pure (.goesOn (cursor + length))

def segment (cursor : ℕ) : Except Fault Pass := do
  let cursor ← skipFill bytes cursor
  if bytes.length ≤ cursor then pure .stops
  else
    let marker ← read bytes cursor
    if isStandAlone marker then pure (.goesOn (cursor + 1))
    else declared bytes marker (cursor + 1)

variable {bytes}

theorem ok_of_bind {α β : Type} {value : Except Fault α} {next : α → Except Fault β} {result : β}
    (h : value >>= next = .ok result) : ∃ a, value = .ok a ∧ next a = .ok result := by
  cases value with
  | error fault => cases h
  | ok a => exact ⟨a, rfl, h⟩

theorem skipFill_le {cursor c : ℕ} (h : skipFill bytes cursor = .ok c) : cursor ≤ c := by
  fun_induction skipFill bytes cursor with
  | case1 cursor hlt ih =>
    obtain ⟨b, -, hb⟩ := ok_of_bind h
    by_cases hfill : b = 0xff
    · rw [if_pos hfill] at hb
      exact Nat.le_of_succ_le (ih hb)
    · rw [if_neg hfill] at hb
      cases hb
      exact Nat.le_refl _
  | case2 cursor hlt =>
    cases h
    exact Nat.le_refl _

theorem lt_of_declared {marker : UInt8} {cursor c : ℕ}
    (h : declared bytes marker cursor = .ok (.goesOn c)) : cursor < c := by
  unfold declared at h
  split at h
  · cases h
  obtain ⟨length, -, h⟩ := ok_of_bind h
  split at h
  · cases h
  split at h
  · obtain ⟨height, -, h⟩ := ok_of_bind h
    obtain ⟨width, -, h⟩ := ok_of_bind h
    cases h
  · cases h
    omega

theorem lt_of_goesOn {cursor c : ℕ} (h : segment bytes cursor = .ok (.goesOn c)) : cursor < c := by
  obtain ⟨start, hstart, h⟩ := ok_of_bind h
  have hle := skipFill_le hstart
  split at h
  · cases h
  obtain ⟨marker, -, h⟩ := ok_of_bind h
  split at h
  · cases h
    omega
  · have := lt_of_declared h
    omega

variable (bytes)

def scan (cursor : ℕ) : Except Fault (Option (ℕ × ℕ)) :=
  if cursor + 4 ≤ bytes.length then
    match _h : segment bytes cursor with
    | .error fault => .error fault
    | .ok .stops => .ok none
    | .ok (.finds width height) => .ok (some (width, height))
    | .ok (.goesOn next) => scan next
  else .ok none
termination_by bytes.length - cursor
decreasing_by
  have := lt_of_goesOn _h
  omega

-- What the library for WebP reports, where it is positive.
def webpDimensions (webPGetInfo : Bytes → Option (ℤ × ℤ)) : Option (ℕ × ℕ) :=
  match webPGetInfo bytes with
  | some (width, height) =>
    if 0 < width ∧ 0 < height then some (width.toNat, height.toNat) else none
  | none => none

def probeDimensions (webPGetInfo : Bytes → Option (ℤ × ℤ)) : Except Fault (Option (ℕ × ℕ)) :=
  match webpDimensions bytes webPGetInfo with
  | some dimensions => .ok (some dimensions)
  | none =>
    if 24 ≤ bytes.length ∧ bytes.take 8 = pngSignature then do
      let width ← bigEndian bytes 16
      let height ← bigEndian bytes 20
      pure (some (width, height))
    else if bytes.length < 4 then .ok none
    else do
      let first ← read bytes 0
      if first ≠ 0xff then pure none
      else
        let second ← read bytes 1
        if second ≠ 0xd8 then pure none else scan bytes 2

end Probe

section Decode

-- The contents are those of a vector, whose size is a `std::size_t`.
structure Asset where
  bytes : Bytes
  fits : bytes.length < 2 ^ 64

def Asset.size (asset : Asset) : UInt64 := .ofNat asset.bytes.length

structure RenderState where
  maximumSourceBytes : UInt64
  resolver : Bool
  expiresAt : ℤ
  sourceBytes : UInt64

-- A call, with the clock at its two looks and what the resolver answers.
structure AssetCall where
  assetId : Bytes
  startedAt : ℤ
  resolved : Except QuoteError Asset
  resolvedAt : ℤ

def RenderState.expired (state : RenderState) (now : ℤ) : Bool := state.expiresAt ≤ now

def RenderState.remaining (state : RenderState) : UInt64 :=
  state.maximumSourceBytes - min state.sourceBytes state.maximumSourceBytes

variable {Image : Type} (webPGetInfo : Bytes → Option (ℤ × ℤ))
  (decodeImage : Bytes → Except QuoteError Image)

def decodeProbed (bytes : Bytes) : Except Fault (Except QuoteError Image) := do
  match ← probeDimensions bytes webPGetInfo with
  | none => pure (.error ⟨.invalidAsset, "unsupported or oversized image asset"⟩)
  | some (width, height) =>
    if width = 0 ∨ height = 0 ∨ kMaximumDimension < width ∨ kMaximumDimension < height ∨
        kMaximumPixels < width * height then
      pure (.error ⟨.invalidAsset, "unsupported or oversized image asset"⟩)
    else pure (decodeImage bytes)

def decodeAsset (state : RenderState) (call : AssetCall) :
    Except Fault (Except QuoteError Image × RenderState) :=
  if state.expired call.startedAt then
    pure (.error ⟨.deadlineExceeded, "quote render deadline exceeded"⟩, state)
  else if state.resolver = false ∨ call.assetId = [] then
    pure (.error ⟨.assetUnavailable, "no resolver or empty asset id"⟩, state)
  else
    match call.resolved with
    | .error error => pure (.error error, state)
    | .ok asset =>
      if state.expired call.resolvedAt then
        pure (.error ⟨.deadlineExceeded, "quote render deadline exceeded during asset resolve"⟩,
          state)
      else if asset.bytes = [] then pure (.error ⟨.invalidAsset, "asset is empty"⟩, state)
      else if state.remaining < asset.size then
        pure (.error ⟨.limitExceeded, "quote source-byte limit exceeded"⟩, state)
      else do
        let state := { state with sourceBytes := state.sourceBytes + asset.size }
        let image ← decodeProbed webPGetInfo decodeImage asset.bytes
        pure (image, state)

def decodeAssets (state : RenderState) : List AssetCall → Except Fault RenderState
  | [] => pure state
  | call :: calls => do
    let (_, state) ← decodeAsset webPGetInfo decodeImage state call
    decodeAssets state calls

end Decode

end Glider.Quote

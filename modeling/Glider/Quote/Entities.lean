import Glider.Lib.Utf16
import Glider.Lib.Word

namespace Glider.Quote

open Lib

def kMaximumMetadataBytes : ℕ := 32 * 1024

def kMaximumEntities : ℕ := 512

-- The number of bytes is a `std::size_t`.
structure StringView where
  bytes : Bytes
  fits : bytes.length < 2 ^ 64

def StringView.size (text : StringView) : ℕ := text.bytes.length

def StringView.at (text : StringView) (i : ℕ) : UInt8 := text.bytes.getD i 0

section Positions

variable (text : StringView)

-- What the first byte announces: how many bytes there are, and its bits of the code point.
def announced (byte : ℕ) : ℕ × ℕ :=
  let first := text.at byte
  if first &&& 0xE0 = 0xC0 ∧ byte + 1 < text.size then (2, (first &&& 0x1F).toNat)
  else if first &&& 0xF0 = 0xE0 ∧ byte + 2 < text.size then (3, (first &&& 0x0F).toNat)
  else if first &&& 0xF8 = 0xF0 ∧ byte + 3 < text.size then (4, (first &&& 0x07).toNat)
  else (1, first.toNat)

-- The loop over the bytes that remain, from the byte `i`.
def continued : ℕ → ℕ → ℕ → Bool × ℕ
  | 0, _, codepoint => (true, codepoint)
  | remaining + 1, i, codepoint =>
    let continuation := text.at i
    if continuation &&& 0xC0 ≠ 0x80 then (false, codepoint)
    else continued remaining (i + 1) (codepoint <<< 6 ||| (continuation &&& 0x3F).toNat)

-- The bytes and the code units of what begins at `byte`.
def character (byte : ℕ) : ℕ × ℕ :=
  let (sequence, codepoint) := announced text byte
  let (valid, codepoint) := continued text (sequence - 1) (byte + 1) codepoint
  (if valid then sequence else 1, if 0xFFFF < codepoint then 2 else 1)

theorem announced_pos (byte : ℕ) : 0 < (announced text byte).1 := by
  simp only [announced]
  repeat' split
  all_goals exact Nat.succ_pos _

theorem character_pos (byte : ℕ) : 0 < (character text byte).1 := by
  simp only [character]
  split
  · exact announced_pos text byte
  · exact Nat.one_pos

def positionFrom (units byte consumedUnits : ℕ) : ℕ :=
  if byte < text.size ∧ consumedUnits < units then
    let found := character text byte
    if units < u64 (consumedUnits + found.2) then byte
    else positionFrom units (byte + found.1) (u64 (consumedUnits + found.2))
  else byte
termination_by text.size - byte
decreasing_by
  have := character_pos text byte
  omega

def utf16PositionToUtf8Byte (units : ℕ) : ℕ := positionFrom text units 0 0

def announcedLength (first : UInt8) : ℕ :=
  if first &&& 0xE0 = 0xC0 then 2
  else if first &&& 0xF0 = 0xE0 then 3
  else if first &&& 0xF8 = 0xF0 then 4
  else 1

theorem announcedLength_pos (first : UInt8) : 0 < announcedLength first := by
  unfold announcedLength
  repeat' split
  all_goals decide

def unitsFrom (offset units : ℕ) : ℕ :=
  if offset < text.size then
    let sequence := announcedLength (text.at offset)
    unitsFrom (offset + sequence) (u64 (units + if sequence = 4 then 2 else 1))
  else units
termination_by text.size - offset
decreasing_by
  have := announcedLength_pos (text.at offset)
  omega

def utf16Length : ℕ := unitsFrom text 0 0

end Positions

section Entities

-- An `enum class` over a byte can have a value that none of its names stands for.
inductive QuoteEntityType
  | bold
  | italic
  | underline
  | strikethrough
  | code
  | pre
  | textLink
  | customEmoji
  | unknown (value : UInt8)

structure QuoteEntity where
  type : QuoteEntityType
  offset : UInt64
  length : UInt64
  url : Bytes
  customEmojiId : Bytes

inductive QuoteErrorCode
  | invalidRequest
  | unsupportedFormat
  | assetUnavailable
  | invalidAsset
  | limitExceeded
  | deadlineExceeded
  | encodeFailed
  | internal

structure QuoteError where
  code : QuoteErrorCode
  message : String

-- The running totals of a request.
structure Budget where
  entityCount : ℕ
  metadataBytes : ℕ

def validateType (entity : QuoteEntity) : Option QuoteError :=
  match entity.type with
  | .textLink =>
    if entity.url = [] then some ⟨.invalidRequest, "text-link entity has no URL"⟩ else none
  | .customEmoji =>
    if entity.customEmojiId = [] then
      some ⟨.invalidRequest, "custom-emoji entity has no asset ID"⟩
    else none
  | .unknown _ => some ⟨.invalidRequest, "unknown quote entity type"⟩
  | _ => none

-- The metadata is charged value by value; `validUtf8` is the check of the text library.
def chargeMetadata (validUtf8 : Bytes → Bool) : List Bytes → ℕ → Option QuoteError × ℕ
  | [], metadataBytes => (none, metadataBytes)
  | value :: values, metadataBytes =>
    if validUtf8 value = false ∨
        kMaximumMetadataBytes - min metadataBytes kMaximumMetadataBytes < value.length then
      (some ⟨.limitExceeded, "quote metadata exceeds limit"⟩, metadataBytes)
    else chargeMetadata validUtf8 values (metadataBytes + value.length)

def validateEach (validUtf8 : Bytes → Bool) (textUnits : ℕ) :
    List QuoteEntity → ℕ → Option QuoteError × ℕ
  | [], metadataBytes => (none, metadataBytes)
  | entity :: entities, metadataBytes =>
    if textUnits < entity.offset.toNat ∨ entity.length = 0 ∨
        textUnits - entity.offset.toNat < entity.length.toNat then
      (some ⟨.invalidRequest, "entity range is outside its text"⟩, metadataBytes)
    else
      match validateType entity with
      | some error => (some error, metadataBytes)
      | none =>
        match chargeMetadata validUtf8 [entity.url, entity.customEmojiId] metadataBytes with
        | (some error, metadataBytes) => (some error, metadataBytes)
        | (none, metadataBytes) => validateEach validUtf8 textUnits entities metadataBytes

def validateEntities (validUtf8 : Bytes → Bool) (text : StringView) (entities : List QuoteEntity)
    (budget : Budget) : Option QuoteError × Budget :=
  if kMaximumEntities - min budget.entityCount kMaximumEntities < entities.length then
    (some ⟨.limitExceeded, "too many quote entities"⟩, budget)
  else
    let (error, metadataBytes) :=
      validateEach validUtf8 (utf16Length text) entities budget.metadataBytes
    (error, ⟨budget.entityCount + entities.length, metadataBytes⟩)

-- The sum of the offset and the length is a `std::size_t`.
def QuoteEntity.startByte (text : StringView) (entity : QuoteEntity) : ℕ :=
  utf16PositionToUtf8Byte text entity.offset.toNat

def QuoteEntity.endByte (text : StringView) (entity : QuoteEntity) : ℕ :=
  utf16PositionToUtf8Byte text (entity.offset + entity.length).toNat

inductive PangoAttribute
  | weightBold
  | styleItalic
  | underlineSingle
  | strikethrough
  | familyNotoSans
  | foreground (red green blue : UInt16)

def QuoteEntityType.attributes : QuoteEntityType → List PangoAttribute
  | .bold => [.weightBold]
  | .italic => [.styleItalic]
  | .underline => [.underlineSingle]
  | .strikethrough => [.strikethrough]
  | .code | .pre => [.familyNotoSans]
  | .textLink => [.underlineSingle, .foreground 0x5c00 0xa800 0xf200]
  | .customEmoji | .unknown _ => []

structure Attribute where
  kind : PangoAttribute
  startIndex : ℕ
  endIndex : ℕ

-- The indices of an attribute are 32 bits wide.
def addEntityAttribute (list : List Attribute) (kind : PangoAttribute) (start last : ℕ) :
    List Attribute :=
  if last ≤ start then list
  else list ++ [⟨kind, min start (2 ^ 32 - 1), min last (2 ^ 32 - 1)⟩]

def addAttributes (start last : ℕ) (list : List Attribute) (kinds : List PangoAttribute) :
    List Attribute :=
  kinds.foldl (fun list kind => addEntityAttribute list kind start last) list

def makeAttributes (text : StringView) (entities : List QuoteEntity) : List Attribute :=
  entities.foldl (fun list entity =>
    addAttributes (entity.startByte text) (entity.endByte text) list entity.type.attributes) []

end Entities

end Glider.Quote

import Glider.Quote.Entities
import Mathlib.Data.List.GetD
import Mathlib.Order.Monotone.Defs

namespace Glider.Quote

open Lib Utf16

section Characters

theorem and_of_ascii : ∀ v < 128, UInt8.ofNat v &&& 0xE0 ≠ 0xC0 ∧ UInt8.ofNat v &&& 0xF0 ≠ 0xE0 ∧
    UInt8.ofNat v &&& 0xF8 ≠ 0xF0 ∧ (UInt8.ofNat v).toNat = v := by decide

theorem and_of_lead_two : ∀ k < 32, UInt8.ofNat (k + 0xc0) &&& 0xE0 = 0xC0 ∧
    (UInt8.ofNat (k + 0xc0) &&& 0x1F).toNat = k := by decide

theorem and_of_lead_three : ∀ k < 16, UInt8.ofNat (k + 0xe0) &&& 0xE0 ≠ 0xC0 ∧
    UInt8.ofNat (k + 0xe0) &&& 0xF0 = 0xE0 ∧ (UInt8.ofNat (k + 0xe0) &&& 0x0F).toNat = k := by
  decide

theorem and_of_lead_four : ∀ k < 8, UInt8.ofNat (k + 0xf0) &&& 0xE0 ≠ 0xC0 ∧
    UInt8.ofNat (k + 0xf0) &&& 0xF0 ≠ 0xE0 ∧ UInt8.ofNat (k + 0xf0) &&& 0xF8 = 0xF0 ∧
    (UInt8.ofNat (k + 0xf0) &&& 0x07).toNat = k := by decide

theorem and_of_continuation : ∀ k < 64, UInt8.ofNat (k + 0x80) &&& 0xC0 = 0x80 ∧
    (UInt8.ofNat (k + 0x80) &&& 0x3F).toNat = k := by decide

variable {text : StringView} {before after : Bytes}

theorem at_append {s : Bytes} (h : text.bytes = before ++ s) (i : ℕ) :
    text.at (before.length + i) = s.getD i 0 := by
  rw [StringView.at, h, List.getD_append_right _ _ _ _ (Nat.le_add_right ..),
    Nat.add_sub_cancel_left]

theorem continued_of_at {remaining i codepoint k : ℕ} (hk : k < 64)
    (hat : text.at i = UInt8.ofNat (k + 0x80)) :
    continued text (remaining + 1) i codepoint =
      continued text remaining (i + 1) (codepoint * 64 + k) := by
  obtain ⟨htop, hlow⟩ := and_of_continuation k hk
  have hor : codepoint <<< 6 ||| k = codepoint * 64 + k := by
    rw [← Nat.shiftLeft_add_eq_or_of_lt hk codepoint, Nat.shiftLeft_eq]
  rw [continued, hat, if_neg (not_not_intro htop), hlow, hor]

-- What both scanners make of a character that begins at `byte`.
structure Reads (text : StringView) (byte sequence charUnits : ℕ) : Prop where
  character : character text byte = (sequence, charUnits)
  announced : announcedLength (text.at byte) = sequence
  counted : (if sequence = 4 then 2 else 1) = charUnits
  fits : byte + sequence ≤ text.size

theorem toNat_lt (c : Char) : c.toNat < 0x110000 := by
  have hvalid : c.toNat < 0xd800 ∨ 0xdfff < c.toNat ∧ c.toNat < 0x110000 := c.valid
  omega

theorem character_of_continued {byte sequence bits : ℕ} {c : Char}
    (hannounced : announced text byte = (sequence, bits))
    (hcontinued : continued text (sequence - 1) (byte + 1) bits = (true, c.toNat)) :
    character text byte = (sequence, units c) := by
  have hunits : (if 0xFFFF < c.toNat then 2 else 1) = units c := by
    unfold units
    split <;> split <;> omega
  simp only [character, hannounced, hcontinued, if_true, hunits]

theorem reads {c : Char} (h : text.bytes = before ++ (String.utf8EncodeChar c ++ after)) :
    Reads text before.length (String.utf8EncodeChar c).length (units c) := by
  have hsize : text.size =
      before.length + ((String.utf8EncodeChar c).length + after.length) := by
    rw [StringView.size, h, List.length_append, List.length_append]
  have hat := at_append h
  have hv := toNat_lt c
  generalize before.length = byte at hsize hat ⊢
  have hfits : byte + (String.utf8EncodeChar c).length ≤ text.size := by omega
  by_cases h1 : c.toNat ≤ 0x7f
  · have hbytes : String.utf8EncodeChar c = [.ofNat c.toNat] := if_pos h1
    rw [hbytes] at hat hsize hfits ⊢
    change Reads text byte 1 (units c)
    have hfirst : text.at byte = .ofNat c.toNat := hat 0
    obtain ⟨h2, h3, h4, hvalue⟩ := and_of_ascii c.toNat (by omega)
    have hannounced : announced text byte = (1, c.toNat) := by
      simp only [announced, hfirst, h2, h3, h4, false_and, if_false, hvalue]
    refine ⟨character_of_continued hannounced rfl, ?_, (if_pos (by omega)).symm, hfits⟩
    simp only [announcedLength, hfirst, h2, h3, h4, if_false]
  by_cases h2 : c.toNat ≤ 0x7ff
  · have hbytes : String.utf8EncodeChar c =
        [.ofNat (c.toNat / 64 % 32 + 0xc0), .ofNat (c.toNat % 64 + 0x80)] :=
      (if_neg h1).trans (if_pos h2)
    rw [hbytes] at hat hsize hfits ⊢
    change Reads text byte 2 (units c)
    have hfirst : text.at byte = .ofNat (c.toNat / 64 % 32 + 0xc0) := hat 0
    have hsecond : text.at (byte + 1) = .ofNat (c.toNat % 64 + 0x80) := hat 1
    obtain ⟨htop, hlow⟩ := and_of_lead_two (c.toNat / 64 % 32) (Nat.mod_lt _ (by decide))
    have hannounced : announced text byte = (2, c.toNat / 64 % 32) := by
      simp only [announced, hfirst, htop, hlow, true_and]
      exact if_pos (Nat.lt_of_lt_of_le (Nat.lt_succ_self _) hfits)
    refine ⟨character_of_continued hannounced ?_, ?_, (if_pos (by omega)).symm, hfits⟩
    · rw [continued_of_at (Nat.mod_lt _ (by decide)) hsecond, continued]
      exact congrArg (true, ·) (by omega)
    · simp only [announcedLength, hfirst, htop, if_true]
  by_cases h3 : c.toNat ≤ 0xffff
  · have hbytes : String.utf8EncodeChar c =
        [.ofNat (c.toNat / 4096 % 16 + 0xe0), .ofNat (c.toNat / 64 % 64 + 0x80),
          .ofNat (c.toNat % 64 + 0x80)] :=
      (if_neg h1).trans ((if_neg h2).trans (if_pos h3))
    rw [hbytes] at hat hsize hfits ⊢
    change Reads text byte 3 (units c)
    have hfirst : text.at byte = .ofNat (c.toNat / 4096 % 16 + 0xe0) := hat 0
    have hsecond : text.at (byte + 1) = .ofNat (c.toNat / 64 % 64 + 0x80) := hat 1
    have hthird : text.at (byte + 1 + 1) = .ofNat (c.toNat % 64 + 0x80) := hat 2
    obtain ⟨hnot, htop, hlow⟩ := and_of_lead_three (c.toNat / 4096 % 16) (Nat.mod_lt _ (by decide))
    have hannounced : announced text byte = (3, c.toNat / 4096 % 16) := by
      simp only [announced, hfirst, hnot, htop, hlow, false_and, if_false, true_and]
      exact if_pos (Nat.lt_of_lt_of_le (Nat.lt_succ_self _) hfits)
    refine ⟨character_of_continued hannounced ?_, ?_, (if_pos h3).symm, hfits⟩
    · rw [continued_of_at (Nat.mod_lt _ (by decide)) hsecond,
        continued_of_at (Nat.mod_lt _ (by decide)) hthird, continued]
      exact congrArg (true, ·) (by omega)
    · simp only [announcedLength, hfirst, hnot, htop, if_false, if_true]
  · have hbytes : String.utf8EncodeChar c =
        [.ofNat (c.toNat / 262144 % 8 + 0xf0), .ofNat (c.toNat / 4096 % 64 + 0x80),
          .ofNat (c.toNat / 64 % 64 + 0x80), .ofNat (c.toNat % 64 + 0x80)] :=
      (if_neg h1).trans ((if_neg h2).trans (if_neg h3))
    rw [hbytes] at hat hsize hfits ⊢
    change Reads text byte 4 (units c)
    have hfirst : text.at byte = .ofNat (c.toNat / 262144 % 8 + 0xf0) := hat 0
    have hsecond : text.at (byte + 1) = .ofNat (c.toNat / 4096 % 64 + 0x80) := hat 1
    have hthird : text.at (byte + 1 + 1) = .ofNat (c.toNat / 64 % 64 + 0x80) := hat 2
    have hfourth : text.at (byte + 1 + 1 + 1) = .ofNat (c.toNat % 64 + 0x80) := hat 3
    obtain ⟨hnot, hnot', htop, hlow⟩ :=
      and_of_lead_four (c.toNat / 262144 % 8) (Nat.mod_lt _ (by decide))
    have hannounced : announced text byte = (4, c.toNat / 262144 % 8) := by
      simp only [announced, hfirst, hnot, hnot', htop, hlow, false_and, if_false, true_and]
      exact if_pos (Nat.lt_of_lt_of_le (Nat.lt_succ_self _) hfits)
    refine ⟨character_of_continued hannounced ?_, ?_, (if_neg h3).symm, hfits⟩
    · rw [continued_of_at (Nat.mod_lt _ (by decide)) hsecond,
        continued_of_at (Nat.mod_lt _ (by decide)) hthird,
        continued_of_at (Nat.mod_lt _ (by decide)) hfourth, continued]
      exact congrArg (true, ·) (by omega)
    · simp only [announcedLength, hfirst, hnot, hnot', htop, if_false, if_true]

end Characters

section Scans

variable {text : StringView} {p rest : List Char}

theorem reads_of_encode {c : Char} (h : text.bytes = encode (p ++ c :: rest)) :
    Reads text (encode p).length (String.utf8EncodeChar c).length (units c) := by
  rw [encode_append, encode_cons] at h
  exact reads h

theorem length_encode_concat (p : List Char) (c : Char) :
    (encode (p ++ [c])).length = (encode p).length + (String.utf8EncodeChar c).length := by
  rw [encode_append, List.length_append]
  exact congrArg (_ + ·) (congrArg List.length (List.append_nil _))

theorem weight_concat (p : List Char) (c : Char) :
    weight units (p ++ [c]) = weight units p + units c := weight_append ..

-- The number of code units never gets ahead of the cursor.
theorem u64_weight {c : Char} (h : text.bytes = encode (p ++ c :: rest)) :
    u64 (weight units p + units c) = weight units p + units c := by
  apply u64_of_lt
  have hp := weight_units_le p
  have hc := units_le_length c
  have hfits := (reads_of_encode h).fits
  have hsize := text.fits
  rw [StringView.size] at hfits
  omega

theorem positionFrom_eq {n : ℕ} (h : text.bytes = encode (p ++ rest)) (hn : weight units p ≤ n) :
    positionFrom text n (encode p).length (weight units p) =
      (encode (p ++ fitting units (n - weight units p) rest)).length := by
  induction rest generalizing p with
  | nil =>
    have hend : text.size = (encode p).length := by rw [StringView.size, h, List.append_nil]
    rw [positionFrom, if_neg (by omega), fitting, List.append_nil]
  | cons c rest ih =>
    have hreads := reads_of_encode h
    have hc := units_pos c
    have hlength := units_le_length c
    have hfits := hreads.fits
    rw [positionFrom, fitting]
    by_cases hlt : weight units p < n
    · rw [if_pos ⟨by omega, hlt⟩]
      simp only [hreads.character, u64_weight h]
      by_cases hnext : units c ≤ n - weight units p
      · rw [if_pos hnext, if_neg (by omega), ← weight_concat, ← length_encode_concat,
          ih (by rw [List.append_assoc]; exact h) (by rw [weight_concat]; omega), weight_concat,
          Nat.sub_add_eq, List.append_assoc]
        rfl
      · rw [if_neg hnext, if_pos (by omega), List.append_nil]
    · rw [if_neg (fun hand => hlt hand.2), if_neg (by omega), List.append_nil]

theorem unitsFrom_eq (h : text.bytes = encode (p ++ rest)) :
    unitsFrom text (encode p).length (weight units p) = weight units (p ++ rest) := by
  induction rest generalizing p with
  | nil =>
    have hend : text.size = (encode p).length := by rw [StringView.size, h, List.append_nil]
    rw [unitsFrom, if_neg (by omega), List.append_nil]
  | cons c rest ih =>
    have hreads := reads_of_encode h
    have hc := units_pos c
    have hlength := units_le_length c
    have hfits := hreads.fits
    rw [unitsFrom, if_pos (by omega)]
    simp only [hreads.announced, hreads.counted, u64_weight h]
    rw [← weight_concat, ← length_encode_concat, ih (by rw [List.append_assoc]; exact h),
      List.append_assoc]
    rfl

theorem position_eq {cs : List Char} (h : text.bytes = encode cs) (n : ℕ) :
    utf16PositionToUtf8Byte text n = (encode (fitting units n cs)).length := by
  exact positionFrom_eq (p := []) h (Nat.zero_le n)

theorem utf16Length_eq {cs : List Char} (h : text.bytes = encode cs) :
    utf16Length text = weight units cs := unitsFrom_eq (p := []) h

end Scans

section Accepted

variable {text : StringView} {entities : List QuoteEntity} {entity : QuoteEntity}

theorem range_of_validateEach {validUtf8 : Bytes → Bool} {textUnits metadataBytes : ℕ}
    (h : (validateEach validUtf8 textUnits entities metadataBytes).1 = none)
    (hmem : entity ∈ entities) :
    entity.offset.toNat ≤ textUnits ∧ entity.length.toNat ≤ textUnits - entity.offset.toNat := by
  induction entities generalizing metadataBytes with
  | nil => cases hmem
  | cons first entities ih =>
    rw [validateEach] at h
    split at h
    · cases h
    · next hrange =>
      rw [not_or, not_or, Nat.not_lt, Nat.not_lt] at hrange
      split at h
      · cases h
      · split at h
        · cases h
        · rcases List.mem_cons.mp hmem with rfl | hmem
          · exact ⟨hrange.1, hrange.2.2⟩
          · exact ih h hmem

theorem range_of_validateEntities {validUtf8 : Bytes → Bool} {budget : Budget}
    (h : (validateEntities validUtf8 text entities budget).1 = none) (hmem : entity ∈ entities) :
    entity.offset.toNat ≤ utf16Length text ∧
      entity.length.toNat ≤ utf16Length text - entity.offset.toNat := by
  unfold validateEntities at h
  split at h
  · cases h
  · exact range_of_validateEach h hmem

theorem mem_addEntityAttribute {list : List Attribute} {kind : PangoAttribute} {start last : ℕ}
    {a : Attribute} (h : a ∈ addEntityAttribute list kind start last) :
    a ∈ list ∨ start < last ∧ a = ⟨kind, min start (2 ^ 32 - 1), min last (2 ^ 32 - 1)⟩ := by
  unfold addEntityAttribute at h
  split at h
  · exact .inl h
  · next hlt =>
    refine (List.mem_append.mp h).imp_right fun ha => ⟨Nat.not_le.mp hlt, ?_⟩
    exact List.mem_singleton.mp ha

theorem mem_addAttributes {kinds : List PangoAttribute} {list : List Attribute} {start last : ℕ}
    {a : Attribute} (h : a ∈ addAttributes start last list kinds) :
    a ∈ list ∨ start < last ∧ ∃ kind ∈ kinds,
      a = ⟨kind, min start (2 ^ 32 - 1), min last (2 ^ 32 - 1)⟩ := by
  induction kinds generalizing list with
  | nil => exact .inl h
  | cons kind kinds ih =>
    rcases ih h with hlist | ⟨hlt, found, hmem, ha⟩
    · refine (mem_addEntityAttribute hlist).imp_right fun ⟨hlt, ha⟩ => ?_
      exact ⟨hlt, kind, List.mem_cons_self, ha⟩
    · exact .inr ⟨hlt, found, List.mem_cons_of_mem _ hmem, ha⟩

-- An attribute is that of an entity with a range that is not empty.
def AttributeOf (text : StringView) (entity : QuoteEntity) (a : Attribute) : Prop :=
  entity.startByte text < entity.endByte text ∧ ∃ kind ∈ entity.type.attributes,
    a = ⟨kind, min (entity.startByte text) (2 ^ 32 - 1), min (entity.endByte text) (2 ^ 32 - 1)⟩

theorem attributeOf_of_mem {a : Attribute} (h : a ∈ makeAttributes text entities) :
    ∃ entity ∈ entities, AttributeOf text entity a := by
  refine Or.resolve_left ?_ (List.not_mem_nil (a := a))
  revert h
  unfold makeAttributes
  generalize ([] : List Attribute) = list
  intro h
  induction entities generalizing list with
  | nil => exact .inl h
  | cons entity entities ih =>
    rcases ih _ h with hlist | ⟨found, hmem, hfound⟩
    · refine (mem_addAttributes hlist).imp_right fun hentity => ?_
      exact ⟨entity, List.mem_cons_self, hentity⟩
    · exact .inr ⟨found, List.mem_cons_of_mem _ hmem, hfound⟩

-- The bytes of the range are those of the code points that lie in it.
structure Covers (text : StringView) (codepoints : List Char) (entity : QuoteEntity) : Prop where
  fits : entity.offset.toNat + entity.length.toNat < 2 ^ 64
  ordered : entity.startByte text ≤ entity.endByte text
  inside : entity.endByte text ≤ text.size
  exactly : ∃ before covered after, codepoints = before ++ covered ++ after ∧
    entity.startByte text = (encode before).length ∧
    entity.endByte text = (encode (before ++ covered)).length ∧
    RoundsDown codepoints entity.offset.toNat (weight units before) ∧
    RoundsDown codepoints (entity.offset.toNat + entity.length.toNat)
      (weight units (before ++ covered))

structure Measured (text : StringView) (codepoints : List Char) : Prop where
  length : utf16Length text = weight units codepoints
  position : ∀ n, ∃ p, LongestFitting units n codepoints p ∧
    utf16PositionToUtf8Byte text n = (encode p).length
  monotone : Monotone (utf16PositionToUtf8Byte text)
  inside : ∀ n, utf16PositionToUtf8Byte text n ≤ text.size
  ranges : ∀ validUtf8 entities budget, (validateEntities validUtf8 text entities budget).1 = none →
    ∀ entity ∈ entities, Covers text codepoints entity
  attributes : ∀ entities, ∀ a ∈ makeAttributes text entities,
    ∃ entity ∈ entities, AttributeOf text entity a

variable {codepoints : List Char}

theorem position_mono (h : text.bytes = encode codepoints) :
    Monotone (utf16PositionToUtf8Byte text) := by
  intro n m hnm
  rw [position_eq h, position_eq h]
  apply length_encode_le
  exact (fitting_longest units n codepoints).mono (fitting_longest units m codepoints) hnm

theorem position_le (h : text.bytes = encode codepoints) (n : ℕ) :
    utf16PositionToUtf8Byte text n ≤ text.size := by
  rw [position_eq h, StringView.size, h]
  exact length_encode_le (fitting_longest units n codepoints).1

theorem covers (h : text.bytes = encode codepoints) {validUtf8 : Bytes → Bool} {budget : Budget}
    (haccepted : (validateEntities validUtf8 text entities budget).1 = none)
    (hmem : entity ∈ entities) : Covers text codepoints entity := by
  obtain ⟨hoffset, hlength⟩ := range_of_validateEntities haccepted hmem
  rw [utf16Length_eq h] at hoffset hlength
  have hunits := weight_units_le codepoints
  have hsize := text.fits
  rw [h] at hsize
  have hfits : entity.offset.toNat + entity.length.toNat < 2 ^ 64 := by omega
  have hsum : (entity.offset + entity.length).toNat =
      entity.offset.toNat + entity.length.toNat :=
    (UInt64.toNat_add ..).trans (Nat.mod_eq_of_lt hfits)
  have hend : entity.endByte text =
      utf16PositionToUtf8Byte text (entity.offset.toNat + entity.length.toNat) := by
    rw [QuoteEntity.endByte, hsum]
  refine ⟨hfits, ?_, ?_, ?_⟩
  · rw [hend]
    exact position_mono h (Nat.le_add_right ..)
  · exact position_le h _
  · have hstart := fitting_longest units entity.offset.toNat codepoints
    have hlast := fitting_longest units (entity.offset.toNat + entity.length.toNat) codepoints
    obtain ⟨covered, hcovered⟩ := hstart.mono hlast (Nat.le_add_right ..)
    obtain ⟨after, hafter⟩ := hlast.1
    refine ⟨_, covered, after, ?_, position_eq h _, ?_, roundsDown_of_longest hstart hoffset, ?_⟩
    · rw [hcovered, hafter]
    · rw [hend, hcovered]
      exact position_eq h _
    · rw [hcovered]
      exact roundsDown_of_longest hlast (by omega)

theorem measured (text : StringView) (codepoints : List Char)
    (h : text.bytes = encode codepoints) : Measured text codepoints where
  length := utf16Length_eq h
  position := fun n => ⟨_, fitting_longest units n codepoints, position_eq h n⟩
  monotone := position_mono h
  inside := position_le h
  ranges := fun _ _ _ haccepted _ hmem => covers h haccepted hmem
  attributes := fun _ _ ha => attributeOf_of_mem ha

def sampleText : List Char := ['a', '😀', 'b']

def sampleEntity : QuoteEntity := ⟨.bold, 0, 2, [], []⟩

-- The range ends between the two units of the second character.
theorem measured_sample :
    Measured ⟨encode sampleText, by decide⟩ sampleText ∧
      Covers ⟨encode sampleText, by decide⟩ sampleText sampleEntity ∧
      sampleEntity.endByte ⟨encode sampleText, by decide⟩ = 1 := by
  have hmeasured := measured ⟨encode sampleText, by decide⟩ sampleText rfl
  refine ⟨hmeasured, ?_, by decide +kernel⟩
  exact hmeasured.ranges (fun _ => true) [sampleEntity] ⟨0, 0⟩ (by decide +kernel) sampleEntity
    List.mem_cons_self

end Accepted

end Glider.Quote

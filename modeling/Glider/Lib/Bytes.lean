import Mathlib.Data.List.Basic
import Mathlib.Data.List.TakeWhile

namespace Glider.Lib

abbrev Bytes := List UInt8

instance : LawfulBEq Bytes := inferInstance

-- The bytes of a text are looked at, not all there are.
instance (s : Bytes) (p : UInt8 → Prop) [DecidablePred p] : Decidable (∀ b ∈ s, p b) :=
  List.decidableBAll p s

namespace Bytes

-- The bytes of a text of ASCII characters.
def ascii (text : String) : Bytes := text.toByteArray.data.toList

-- What a C string keeps of the bytes.
def cstr (s : Bytes) : Bytes := s.takeWhile (· ≠ 0)

def NulFree (s : Bytes) : Prop := 0 ∉ s

instance (s : Bytes) : Decidable s.NulFree := inferInstanceAs (Decidable (0 ∉ s))

def asciiToLower (b : UInt8) : UInt8 := if 65 ≤ b ∧ b ≤ 90 then b + 32 else b

def equalsIgnoreCase (s t : Bytes) : Bool := s.map asciiToLower = t.map asciiToLower

theorem ascii_eq_map {text : String} (h : ∀ c ∈ text.toList, c.toNat < 128) :
    ascii text = text.toList.map fun c => .ofNat c.toNat := by
  have hencode : ∀ c ∈ text.toList, String.utf8EncodeChar c = [.ofNat c.toNat] := by
    intro c hc
    have hsize : c.utf8Size = 1 := if_pos (Nat.le_of_lt_succ (h c hc))
    exact String.utf8EncodeChar_eq_singleton hsize
  calc ascii text = ascii (.ofList text.toList) := by rw [String.ofList_toList]
    _ = text.toList.flatMap String.utf8EncodeChar := by
      rw [ascii, String.toByteArray_ofList, List.utf8Encode, List.toList_data_toByteArray]
    _ = text.toList.flatMap fun c => [.ofNat c.toNat] := List.flatMap_congr hencode
    _ = text.toList.map fun c => .ofNat c.toNat := List.map_eq_flatMap.symm

theorem cstr_of_nulFree {s : Bytes} (h : s.NulFree) : s.cstr = s := by
  apply List.takeWhile_eq_self_iff.mpr
  intro b hb
  exact decide_eq_true fun h0 => h (h0 ▸ hb)

theorem nulFree_cstr (s : Bytes) : s.cstr.NulFree := by
  intro h
  have h0 := List.mem_takeWhile_imp h
  simp at h0

theorem NulFree.append {s t : Bytes} (hs : s.NulFree) (ht : t.NulFree) : (s ++ t).NulFree :=
  fun h => (List.mem_append.mp h).elim hs ht

theorem NulFree.cons {b : UInt8} {s : Bytes} (hb : 0 ≠ b) (hs : s.NulFree) :
    Bytes.NulFree (b :: s) :=
  fun h => (List.mem_cons.mp h).elim hb hs

theorem equalsIgnoreCase_iff {s t : Bytes} :
    equalsIgnoreCase s t = true ↔ s.map asciiToLower = t.map asciiToLower := decide_eq_true_iff

theorem equalsIgnoreCase_refl (s : Bytes) : equalsIgnoreCase s s = true :=
  equalsIgnoreCase_iff.mpr rfl

end Bytes

end Glider.Lib

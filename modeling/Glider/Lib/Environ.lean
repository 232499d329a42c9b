import Glider.Lib.Bytes
import Mathlib.Data.List.ReduceOption

namespace Glider.Lib

-- A text that a pointer to characters can stand for.
structure CString where
  bytes : Bytes
  nulFree : bytes.NulFree

namespace CString

def ofBuffer (buffer : Bytes) : CString := ⟨buffer.cstr, Bytes.nulFree_cstr buffer⟩

theorem ofBuffer_eq {buffer : Bytes} {s : CString} (h : buffer.cstr = s.bytes) :
    ofBuffer buffer = s := by
  obtain ⟨bytes, hbytes⟩ := s
  obtain rfl : buffer.cstr = bytes := h
  rfl

end CString

section Copy

-- The first `count` places of a buffer get the text, up to its end, and zeros behind it.
def strncpy (dest src : Bytes) (count : ℕ) : Bytes :=
  src.cstr.take count ++ List.replicate (count - src.cstr.length) 0 ++ dest.drop count

theorem cstr_strncpy {src : Bytes} {size : ℕ} (h : src.NulFree) (hsize : src.length < size) :
    (strncpy (List.replicate size 0) src src.length).cstr = src := by
  have hall : ∀ b ∈ src, decide (b ≠ 0) = true := fun b hb => decide_eq_true fun h0 => h (h0 ▸ hb)
  obtain ⟨rest, hrest⟩ : ∃ rest, size - src.length = rest + 1 := ⟨size - src.length - 1, by omega⟩
  rw [strncpy, Bytes.cstr_of_nulFree h, List.take_length, Nat.sub_self, List.replicate_zero,
    List.append_nil, List.drop_replicate, hrest, List.replicate_succ, Bytes.cstr,
    List.takeWhile_append_of_pos hall, List.takeWhile_cons_of_neg (by decide), List.append_nil]

end Copy

-- The environment of a process, and the array of pointers that hands one to the next process.
abbrev Environ := List CString

namespace Environ

-- The name of the variable that an entry sets.
def nameOf (entry : CString) : Bytes := entry.bytes.takeWhile (· ≠ 61)

def getenv (environ : Environ) (name : Bytes) : Option Bytes :=
  (environ.find? fun entry => name ++ [61] <+: entry.bytes).map fun entry =>
    entry.bytes.drop (name.length + 1)

-- The array ends at its first null pointer.
def ofArray (envp : List (Option CString)) : Environ := (envp.takeWhile Option.isSome).reduceOption

def toArray (environ : Environ) : List (Option CString) := environ.map some ++ [none]

theorem ofArray_toArray (environ : Environ) : ofArray (toArray environ) = environ := by
  have hall : ∀ pointer ∈ environ.map some, pointer.isSome = true := by
    intro pointer hpointer
    obtain ⟨entry, -, rfl⟩ := List.mem_map.mp hpointer
    rfl
  rw [ofArray, toArray, List.takeWhile_append_of_pos hall, List.takeWhile_cons_of_neg (by decide),
    List.append_nil, List.reduceOption, List.filterMap_map]
  exact List.filterMap_some

theorem prefix_of_nameOf {entry : CString} {name : Bytes} (h : nameOf entry = name) :
    name <+: entry.bytes := h ▸ List.takeWhile_prefix _

variable {front : Environ} {name : Bytes}

-- A variable that is set behind entries of other names has the value that is set.
theorem getenv_concat {entry : CString} {value : Bytes}
    (hfront : ∀ other ∈ front, ¬name <+: other.bytes) (hentry : entry.bytes = name ++ 61 :: value) :
    getenv (front ++ [entry]) name = some value := by
  have hnone : front.find? (fun other => name ++ [61] <+: other.bytes) = none := by
    apply List.find?_eq_none.mpr
    intro other hother hhas
    exact hfront other hother ((List.prefix_append name [61]).trans (of_decide_eq_true hhas))
  have hhas : name ++ [61] <+: entry.bytes :=
    ⟨value, by rw [hentry, List.append_assoc, List.singleton_append]⟩
  have hdrop : entry.bytes.drop (name.length + 1) = value := by
    rw [hentry, ← List.drop_drop, List.drop_left]
    rfl
  have hfound : [entry].find? (fun other => name ++ [61] <+: other.bytes) = some entry :=
    List.find?_cons_of_pos (decide_eq_true hhas)
  rw [getenv, List.find?_append, hnone, Option.none_or, hfound, Option.map_some, hdrop]

end Environ

end Glider.Lib

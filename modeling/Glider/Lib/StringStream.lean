import Glider.Lib.Bytes
import Glider.Lib.Overwrite

namespace Glider.Lib

-- A string stream opened for reading and writing: what it holds, and where the next write goes.
structure StringStream where
  content : Bytes
  position : ℕ
  inside : position ≤ content.length

namespace StringStream

def empty : StringStream := ⟨[], 0, Nat.le_refl 0⟩

-- A stream that does not open at its end is written from its start once its text is replaced.
def replaceText (text : Bytes) : StringStream := ⟨text, 0, Nat.zero_le _⟩

theorem inside_write (s : StringStream) (chunk : Bytes) :
    s.position + chunk.length ≤ (overwrite 0 s.content s.position chunk).length := by
  by_cases hc : chunk = []
  · subst hc
    exact s.inside
  · rw [length_overwrite 0 s.content s.position hc]
    exact Nat.le_max_right _ _

def write (s : StringStream) (chunk : Bytes) : StringStream :=
  ⟨overwrite 0 s.content s.position chunk, s.position + chunk.length, s.inside_write chunk⟩

theorem content_write (s : StringStream) (chunk : Bytes) :
    (s.write chunk).content =
      s.content.take s.position ++ chunk ++ s.content.drop (s.position + chunk.length) := by
  by_cases hc : chunk = []
  · subst hc
    change s.content = _
    simp
  · change overwrite 0 s.content s.position chunk = _
    rw [overwrite_of_ne_nil _ _ _ hc, Nat.sub_eq_zero_of_le s.inside, List.replicate_zero,
      List.append_nil]

@[simp] theorem position_write (s : StringStream) (chunk : Bytes) :
    (s.write chunk).position = s.position + chunk.length := rfl

-- Two writes are one write of both texts.
theorem content_write_write (s : StringStream) (first second : Bytes) :
    ((s.write first).write second).content = (s.write (first ++ second)).content := by
  have hlen : (s.content.take s.position ++ first).length = s.position + first.length := by
    rw [List.length_append, List.length_take, Nat.min_eq_left s.inside]
  rw [content_write, content_write s first, content_write, position_write]
  rw [List.take_left' hlen, ← List.drop_drop, List.drop_left' hlen, List.drop_drop]
  simp only [List.append_assoc, List.length_append, Nat.add_assoc]

def AtEnd (s : StringStream) : Prop := s.position = s.content.length

theorem atEnd_empty : empty.AtEnd := rfl

theorem content_write_of_atEnd {s : StringStream} (h : s.AtEnd) (chunk : Bytes) :
    (s.write chunk).content = s.content ++ chunk := by
  have hposition : s.position = s.content.length := h
  have hdrop : s.content.drop (s.position + chunk.length) = [] :=
    List.drop_eq_nil_of_le (by omega)
  rw [content_write, hdrop, hposition, List.take_length, List.append_nil]

theorem AtEnd.write {s : StringStream} (h : s.AtEnd) (chunk : Bytes) : (s.write chunk).AtEnd := by
  have hposition : s.position = s.content.length := h
  change s.position + chunk.length = (s.write chunk).content.length
  rw [content_write_of_atEnd h, List.length_append, hposition]

theorem content_write_replaceText (text chunk : Bytes) :
    ((replaceText text).write chunk).content = chunk ++ text.drop chunk.length := by
  rw [content_write]
  change text.take 0 ++ chunk ++ text.drop (0 + chunk.length) = _
  rw [List.take_zero, List.nil_append, Nat.zero_add]

-- Writing over the start of a text goes unnoticed in its first `n` bytes just when the text has
-- the written bytes there already.
theorem take_overwritten_eq_iff (text chunk : Bytes) (n : ℕ) :
    (chunk ++ text.drop chunk.length).take n = text.take n ↔ chunk.take n <+: text.take n := by
  rw [List.take_append]
  constructor
  · intro h
    rw [← h]
    exact List.prefix_append _ _
  · rintro ⟨rest, hrest⟩
    have hlen := congrArg List.length hrest
    rw [List.length_append, List.length_take, List.length_take] at hlen
    rw [← hrest, List.append_right_inj]
    by_cases hle : chunk.length ≤ n
    · have hdrop : rest = (text.take n).drop chunk.length := by
        rw [← hrest, List.take_of_length_le hle, List.drop_left]
      rw [hdrop, List.drop_take]
    · have hnone : rest = [] := List.length_eq_zero_iff.mp (by omega)
      have hzero : n - chunk.length = 0 := by omega
      rw [hnone, hzero, List.take_zero]

end StringStream

-- A string cut to a length, or filled up to it with NUL bytes.
def resize (text : Bytes) (n : ℕ) : Bytes := text.take n ++ List.replicate (n - text.length) 0

theorem resize_of_le {text : Bytes} {n : ℕ} (h : n ≤ text.length) : resize text n = text.take n := by
  rw [resize, Nat.sub_eq_zero_of_le h, List.replicate_zero, List.append_nil]

end Glider.Lib

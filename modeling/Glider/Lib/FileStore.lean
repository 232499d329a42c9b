import Mathlib.Logic.Function.Basic
import Mathlib.Data.Nat.Notation

namespace Glider.Lib

-- A directory of names over numbered files. A file keeps its contents when its last name goes,
-- for whoever still holds its number. There are no links, and numbers are never reused.
structure FileStore (π β : Type*) where
  names : π → Option ℕ
  data : ℕ → List β
  fresh : ℕ
  named_lt : ∀ {p i}, names p = some i → i < fresh
  named_inj : ∀ {p q i}, names p = some i → names q = some i → p = q

namespace FileStore

variable {π β : Type*} [DecidableEq π] (fs : FileStore π β)

def contents (p : π) : Option (List β) := (fs.names p).map fs.data

def empty : FileStore π β where
  names _ := none
  data _ := []
  fresh := 0
  named_lt h := by cases h
  named_inj h := by cases h

def setData (i : ℕ) (bytes : List β) : FileStore π β :=
  { fs with data := Function.update fs.data i bytes }

-- Removing a name that is not there is no error.
def unlink (p : π) : FileStore π β where
  names := Function.update fs.names p none
  data := fs.data
  fresh := fs.fresh
  named_lt := by
    intro q i h
    by_cases hq : q = p
    · simp [hq] at h
    · rw [Function.update_of_ne hq] at h
      exact fs.named_lt h
  named_inj := by
    intro q r i hq hr
    by_cases hqp : q = p
    · simp [hqp] at hq
    by_cases hrp : r = p
    · simp [hrp] at hr
    rw [Function.update_of_ne hqp] at hq
    rw [Function.update_of_ne hrp] at hr
    exact fs.named_inj hq hr

-- A new empty file under a name that has none.
def create (p : π) : FileStore π β where
  names := Function.update fs.names p (some fs.fresh)
  data := Function.update fs.data fs.fresh []
  fresh := fs.fresh + 1
  named_lt := by
    intro q i h
    by_cases hq : q = p
    · simp only [hq, Function.update_self, Option.some.injEq] at h
      omega
    · rw [Function.update_of_ne hq] at h
      exact Nat.lt_succ_of_lt (fs.named_lt h)
  named_inj := by
    intro q r i hq hr
    by_cases hqp : q = p <;> by_cases hrp : r = p
    · rw [hqp, hrp]
    · rw [hqp, Function.update_self, Option.some.injEq] at hq
      rw [Function.update_of_ne hrp, ← hq] at hr
      exact absurd (fs.named_lt hr) (Nat.lt_irrefl _)
    · rw [hrp, Function.update_self, Option.some.injEq] at hr
      rw [Function.update_of_ne hqp, ← hr] at hq
      exact absurd (fs.named_lt hq) (Nat.lt_irrefl _)
    · rw [Function.update_of_ne hqp] at hq
      rw [Function.update_of_ne hrp] at hr
      exact fs.named_inj hq hr

-- Opening for output: an existing file is cut to nothing, a missing one is created.
def truncate (p : π) : ℕ × FileStore π β :=
  match fs.names p with
  | some i => (i, fs.setData i [])
  | none => (fs.fresh, fs.create p)

-- The name `q` now stands for the file `i` that `p` named. A file under `q` before loses its name.
def relink (p q : π) (i : ℕ) (hp : fs.names p = some i) : FileStore π β where
  names := Function.update (Function.update fs.names p none) q (some i)
  data := fs.data
  fresh := fs.fresh
  named_lt := by
    intro r j h
    by_cases hr : r = q
    · rw [hr, Function.update_self, Option.some.injEq] at h
      exact h ▸ fs.named_lt hp
    · rw [Function.update_of_ne hr] at h
      exact (fs.unlink p).named_lt h
  named_inj := by
    intro r s j hr hs
    by_cases hrq : r = q <;> by_cases hsq : s = q
    · rw [hrq, hsq]
    · rw [hrq, Function.update_self, Option.some.injEq] at hr
      rw [Function.update_of_ne hsq, ← hr] at hs
      by_cases hsp : s = p
      · simp [hsp] at hs
      · rw [Function.update_of_ne hsp] at hs
        exact absurd (fs.named_inj hs hp) hsp
    · rw [hsq, Function.update_self, Option.some.injEq] at hs
      rw [Function.update_of_ne hrq, ← hs] at hr
      by_cases hrp : r = p
      · simp [hrp] at hr
      · rw [Function.update_of_ne hrp] at hr
        exact absurd (fs.named_inj hr hp) hrp
    · rw [Function.update_of_ne hrq] at hr
      rw [Function.update_of_ne hsq] at hs
      exact (fs.unlink p).named_inj hr hs

-- `none` when there is no file to rename.
def rename (p q : π) : Option (FileStore π β) :=
  match h : fs.names p with
  | some i => some (fs.relink p q i h)
  | none => none

-- Writes `bytes` as the whole file at `p`.
def put (p : π) (bytes : List β) : FileStore π β :=
  (fs.truncate p).2.setData (fs.truncate p).1 bytes

section Lemmas

variable {fs}

omit [DecidableEq π] in
@[simp] theorem contents_eq_none {p : π} : fs.contents p = none ↔ fs.names p = none := by
  simp [contents]

omit [DecidableEq π] in
theorem contents_of_names {p : π} {i : ℕ} (h : fs.names p = some i) :
    fs.contents p = some (fs.data i) := by simp [contents, h]

omit [DecidableEq π] in
@[simp] theorem names_setData (i : ℕ) (bytes : List β) : (fs.setData i bytes).names = fs.names :=
  rfl

omit [DecidableEq π] in
@[simp] theorem data_setData_self (i : ℕ) (bytes : List β) : (fs.setData i bytes).data i = bytes :=
  Function.update_self ..

omit [DecidableEq π] in
@[simp] theorem data_setData_of_ne {i j : ℕ} (bytes : List β) (h : j ≠ i) :
    (fs.setData i bytes).data j = fs.data j := Function.update_of_ne h ..

@[simp] theorem data_unlink (p : π) : (fs.unlink p).data = fs.data := rfl

@[simp] theorem names_unlink_self (p : π) : (fs.unlink p).names p = none := Function.update_self ..

@[simp] theorem names_unlink_of_ne {p q : π} (h : q ≠ p) : (fs.unlink p).names q = fs.names q :=
  Function.update_of_ne h ..

@[simp] theorem contents_unlink_self (p : π) : (fs.unlink p).contents p = none := by
  simp [contents]

@[simp] theorem contents_unlink_of_ne {p q : π} (h : q ≠ p) :
    (fs.unlink p).contents q = fs.contents q := by
  simp [contents, h]

theorem unlink_of_names_none {p : π} (h : fs.names p = none) : fs.unlink p = fs := by
  simp only [unlink]
  congr
  rw [← h, Function.update_eq_self]

theorem rename_eq_none {p q : π} : fs.rename p q = none ↔ fs.names p = none := by
  unfold rename
  split <;> simp_all

theorem rename_of_names {p q : π} {i : ℕ} (h : fs.names p = some i) :
    fs.rename p q = some (fs.relink p q i h) := by
  unfold rename
  split
  · rename_i j hj
    obtain rfl : j = i := Option.some.inj (hj.symm.trans h)
    rfl
  · rename_i hn
    rw [h] at hn
    cases hn

@[simp] theorem data_relink {p q : π} {i : ℕ} (h : fs.names p = some i) :
    (fs.relink p q i h).data = fs.data := rfl

@[simp] theorem names_relink_self {p q : π} {i : ℕ} (h : fs.names p = some i) :
    (fs.relink p q i h).names q = some i := Function.update_self ..

theorem names_relink_source {p q : π} {i : ℕ} (h : fs.names p = some i) (hpq : p ≠ q) :
    (fs.relink p q i h).names p = none := by
  simp [relink, hpq]

theorem names_relink_of_ne {p q r : π} {i : ℕ} (h : fs.names p = some i) (hp : r ≠ p)
    (hq : r ≠ q) : (fs.relink p q i h).names r = fs.names r := by
  simp [relink, hp, hq]

theorem rename_of_contents {p q : π} {bytes : List β} (h : fs.contents p = some bytes) :
    ∃ moved, fs.rename p q = some moved ∧ moved.contents q = some bytes := by
  obtain ⟨i, hi, rfl⟩ := Option.map_eq_some_iff.mp h
  exact ⟨_, rename_of_names hi, contents_of_names (names_relink_self hi)⟩

theorem names_truncate_self (p : π) : (fs.truncate p).2.names p = some (fs.truncate p).1 := by
  unfold truncate
  split
  · assumption
  · exact Function.update_self ..

theorem data_truncate_self (p : π) : (fs.truncate p).2.data (fs.truncate p).1 = [] := by
  unfold truncate
  split
  · simp
  · exact Function.update_self ..

theorem names_truncate_of_ne {p q : π} (h : q ≠ p) :
    (fs.truncate p).2.names q = fs.names q := by
  unfold truncate
  split
  · rfl
  · exact Function.update_of_ne h ..

theorem data_truncate_of_ne {p : π} {i : ℕ} (h : i ≠ (fs.truncate p).1) :
    (fs.truncate p).2.data i = fs.data i := by
  unfold truncate at h ⊢
  split at h <;> simp_all [create]

-- The file that is cut is either the one `p` named or one that no name ever had.
theorem truncate_fst (fs : FileStore π β) (p : π) :
    fs.names p = some (fs.truncate p).1 ∨ (fs.names p = none ∧ (fs.truncate p).1 = fs.fresh) := by
  unfold truncate
  split
  · exact Or.inl ‹_›
  · exact Or.inr ⟨‹_›, rfl⟩

theorem contents_put_self (p : π) (bytes : List β) : (fs.put p bytes).contents p = some bytes := by
  simp [contents, put, names_truncate_self]

end Lemmas

-- The name `p` still stands for the same file with the same bytes.
def Untouched (before after : FileStore π β) (p : π) : Prop :=
  after.names p = before.names p ∧ ∀ i, before.names p = some i → after.data i = before.data i

section Untouched

variable {fs}

omit [DecidableEq π] in
theorem Untouched.refl (fs : FileStore π β) (p : π) : Untouched fs fs p :=
  ⟨rfl, fun _ _ => rfl⟩

omit [DecidableEq π] in
theorem Untouched.trans {first second third : FileStore π β} {p : π}
    (h : Untouched first second p) (h' : Untouched second third p) : Untouched first third p := by
  refine ⟨h'.1.trans h.1, fun i hi => ?_⟩
  rw [h'.2 i (h.1.trans hi), h.2 i hi]

theorem untouched_unlink {p q : π} (h : p ≠ q) : Untouched fs (fs.unlink q) p :=
  ⟨names_unlink_of_ne h, fun _ _ => rfl⟩

omit [DecidableEq π] in
theorem untouched_setData {p q : π} {i : ℕ} (hq : fs.names q = some i) (h : p ≠ q)
    (bytes : List β) : Untouched fs (fs.setData i bytes) p := by
  refine ⟨rfl, fun j hj => data_setData_of_ne bytes ?_⟩
  rintro rfl
  exact h (fs.named_inj hj hq)

theorem untouched_truncate {p q : π} (h : p ≠ q) : Untouched fs (fs.truncate q).2 p := by
  refine ⟨names_truncate_of_ne h, fun i hi => data_truncate_of_ne ?_⟩
  rintro rfl
  rcases fs.truncate_fst q with hq | ⟨-, hq⟩
  · exact h (fs.named_inj hi hq)
  · rw [hq] at hi
    exact absurd (fs.named_lt hi) (Nat.lt_irrefl _)

theorem untouched_put {p q : π} (h : p ≠ q) (bytes : List β) : Untouched fs (fs.put q bytes) p :=
  (untouched_truncate h).trans (untouched_setData (names_truncate_self q) h bytes)

theorem untouched_relink {p q r : π} {i : ℕ} (hp : fs.names p = some i) (hrp : r ≠ p)
    (hrq : r ≠ q) : Untouched fs (fs.relink p q i hp) r :=
  ⟨names_relink_of_ne hp hrp hrq, fun _ _ => rfl⟩

omit [DecidableEq π] in
theorem Untouched.contents {before after : FileStore π β} {p : π} (h : Untouched before after p) :
    after.contents p = before.contents p := by
  unfold FileStore.contents
  rw [h.1]
  cases hp : before.names p with
  | none => rfl
  | some i => simp [h.2 i hp]

end Untouched

end FileStore

end Glider.Lib

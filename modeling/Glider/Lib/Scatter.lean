import Mathlib.Data.List.Basic
import Mathlib.Data.Set.Function

namespace Glider.Lib

-- Memory `β` of cells `κ`; a cell outside of it has no content.
structure Cells (β κ α : Type*) where
  get : β → κ → Option α
  set : β → κ → α → β
  get_set_self : ∀ b k a, (get b k).isSome → get (set b k a) k = some a
  get_set_of_ne : ∀ b k k' a, k' ≠ k → get (set b k a) k' = get b k'

namespace Cells

variable {β κ α ι : Type*} (m : Cells β κ α)

-- A write outside of the memory is a fault.
def put (b : β) (k : κ) (a : α) : Option β := if (m.get b k).isSome then some (m.set b k a) else none

-- The loop of a copy: each item is read at its source and written at its destination. Either may
-- be missing.
def copyTo (source : ι → Option α) (dest : ι → Option κ) : List ι → β → Option β
  | [], b => some b
  | i :: rest, b =>
    (source i).bind fun a =>
      (dest i).bind fun k => (m.put b k a).bind fun b' => copyTo source dest rest b'

variable {m}

theorem get_of_put {b b' : β} {k : κ} {a : α} (h : m.put b k a = some b') :
    m.get b' k = some a ∧ ∀ k', k' ≠ k → m.get b' k' = m.get b k' := by
  rw [put, Option.ite_none_right_eq_some, Option.some.injEq] at h
  obtain ⟨hin, rfl⟩ := h
  exact ⟨m.get_set_self b k a hin, fun k' hne => m.get_set_of_ne b k k' a hne⟩

-- What every write keeps, the loop keeps.
theorem copyTo_invariant (P : β → Prop) (hset : ∀ b k a, P b → P (m.set b k a))
    {source : ι → Option α} {dest : ι → Option κ} {items : List ι} {b b' : β} (hb : P b)
    (h : m.copyTo source dest items b = some b') : P b' := by
  induction items generalizing b with
  | nil => exact Option.some.inj h ▸ hb
  | cons i rest ih =>
    rw [copyTo, Option.bind_eq_some_iff] at h
    obtain ⟨a, -, h⟩ := h
    rw [Option.bind_eq_some_iff] at h
    obtain ⟨k, -, h⟩ := h
    rw [Option.bind_eq_some_iff] at h
    obtain ⟨next, hput, h⟩ := h
    rw [put, Option.ite_none_right_eq_some, Option.some.injEq] at hput
    exact ih (hput.2 ▸ hset b k a hb) h

-- Items with destinations of their own inside the memory all arrive, and nothing else changes.
theorem copyTo_spec {source : ι → Option α} {dest : ι → Option κ} (value : ι → α) (place : ι → κ)
    {items : List ι} {b : β} (hnodup : items.Nodup)
    (hsource : ∀ i ∈ items, source i = some (value i))
    (hdest : ∀ i ∈ items, dest i = some (place i))
    (hin : ∀ i ∈ items, (m.get b (place i)).isSome)
    (hinj : Set.InjOn place {i | i ∈ items}) :
    ∃ b', m.copyTo source dest items b = some b' ∧
      (∀ i ∈ items, m.get b' (place i) = some (value i)) ∧
      ∀ k, (∀ i ∈ items, k ≠ place i) → m.get b' k = m.get b k := by
  induction items generalizing b with
  | nil => exact ⟨b, rfl, by simp, fun _ _ => rfl⟩
  | cons i rest ih =>
    obtain ⟨hi, hrest⟩ := List.nodup_cons.mp hnodup
    rw [List.forall_mem_cons] at hsource hdest hin
    have hput : m.put b (place i) (value i) = some (m.set b (place i) (value i)) := if_pos hin.1
    obtain ⟨hself, hothers⟩ := get_of_put hput
    have hne : ∀ j ∈ rest, place j ≠ place i := by
      intro j hj heq
      obtain rfl := hinj (List.mem_cons_of_mem _ hj) List.mem_cons_self heq
      exact hi hj
    have hin' : ∀ j ∈ rest, (m.get (m.set b (place i) (value i)) (place j)).isSome := by
      intro j hj
      rw [hothers _ (hne j hj)]
      exact hin.2 j hj
    obtain ⟨b', hrun, harrived, hkept⟩ := ih hrest hsource.2 hdest.2 hin'
      (hinj.mono fun j hj => List.mem_cons_of_mem i hj)
    refine ⟨b', ?_, ?_, ?_⟩
    · rw [copyTo, hsource.1, hdest.1]
      simp only [Option.bind_some, hput, hrun]
    · refine List.forall_mem_cons.mpr ⟨?_, harrived⟩
      rw [hkept _ fun j hj => (hne j hj).symm]
      exact hself
    · intro k hk
      rw [List.forall_mem_cons] at hk
      rw [hkept k hk.2]
      exact hothers k hk.1

end Cells

-- A flat buffer, and one of rows.
def flat (α : Type*) : Cells (List α) ℕ α where
  get b k := b[k]?
  set b k a := b.set k a
  get_set_self b k a h := by
    rw [List.getElem?_set_self]
    exact (List.getElem?_eq_some_iff.mp (Option.some_get h).symm).1
  get_set_of_ne b k k' a h := List.getElem?_set_ne (Ne.symm h)

def rows (α : Type*) : Cells (List (List α)) (ℕ × ℕ) α where
  get b k := b[k.1]?.bind fun row => row[k.2]?
  set b k a := b.modify k.1 fun row => row.set k.2 a
  get_set_self b k a h := by
    rw [List.getElem?_modify_eq]
    cases hrow : b[k.1]? with
    | none => simp [hrow] at h
    | some row =>
      rw [hrow, Option.bind_some] at h
      exact (flat α).get_set_self row k.2 a h
  get_set_of_ne b k k' a h := by
    by_cases hrow : k.1 = k'.1
    · rw [← hrow, List.getElem?_modify_eq]
      cases b[k.1]? with
      | none => rfl
      | some row =>
        have hbyte : k'.2 ≠ k.2 := fun hbyte => h (Prod.ext hrow.symm hbyte)
        exact (flat α).get_set_of_ne row k.2 k'.2 a hbyte
    · rw [List.getElem?_modify_ne _ _ hrow]

theorem isSome_flat_get {α : Type*} {b : List α} {k : ℕ} (h : k < b.length) :
    ((flat α).get b k).isSome := by
  change b[k]?.isSome
  rw [List.getElem?_eq_getElem h]
  rfl

theorem length_flat_set {α : Type*} (b : List α) (k : ℕ) (a : α) :
    ((flat α).set b k a).length = b.length := List.length_set

theorem isSome_rows_get {α : Type*} {b : List (List α)} {i j n : ℕ} (hi : i < b.length)
    (hrows : ∀ row ∈ b, row.length = n) (hj : j < n) : ((rows α).get b (i, j)).isSome := by
  change (b[i]?.bind fun row => row[j]?).isSome
  rw [List.getElem?_eq_getElem hi]
  exact isSome_flat_get (hrows _ (List.getElem_mem hi) ▸ hj)

theorem lengths_rows_set {α : Type*} (b : List (List α)) (k : ℕ × ℕ) (a : α) :
    ((rows α).set b k a).map List.length = b.map List.length := by
  refine List.ext_getElem? fun i => ?_
  rw [List.getElem?_map, List.getElem?_map]
  change Option.map _ (b.modify k.1 _)[i]? = _
  by_cases hi : k.1 = i
  · rw [← hi, List.getElem?_modify_eq]
    cases b[k.1]? with
    | none => rfl
    | some row => simp
  · rw [List.getElem?_modify_ne _ _ hi]

end Glider.Lib

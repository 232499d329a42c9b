import Mathlib.Data.List.Nodup
import Mathlib.Data.List.Flatten
import Mathlib.Data.List.Forall2
import Mathlib.Data.List.Sort

namespace Glider.Lib

-- A table keeps its rows in the order of their insertion. Each row takes entries of the unique
-- indexes of the table, and no entry is taken twice; an index over some of the rows is one that
-- the other rows take no entry of.
structure Table (ρ κ : Type*) (entries : ρ → List κ) where
  rows : List ρ
  unique : (rows.flatMap entries).Nodup

namespace Table

variable {ρ κ : Type*} {entries : ρ → List κ}

def empty : Table ρ κ entries := ⟨[], List.nodup_nil⟩

def Free [DecidableEq κ] (t : Table ρ κ entries) (row : ρ) : Prop :=
  (t.rows.flatMap entries ++ entries row).Nodup

instance [DecidableEq κ] (t : Table ρ κ entries) (row : ρ) : Decidable (t.Free row) :=
  inferInstanceAs (Decidable (List.Nodup _))

-- `none` when a unique index refuses the row.
def insert [DecidableEq κ] (t : Table ρ κ entries) (row : ρ) : Option (Table ρ κ entries) :=
  if h : t.Free row then
    some ⟨t.rows ++ [row], by simpa [Free] using h⟩
  else none

def deleteWhere (t : Table ρ κ entries) (p : ρ → Bool) : Table ρ κ entries :=
  ⟨t.rows.filter fun r => !p r, (List.filter_sublist.flatMap entries).nodup t.unique⟩

@[simp] theorem rows_empty : (empty : Table ρ κ entries).rows = [] := rfl

@[simp] theorem rows_deleteWhere (t : Table ρ κ entries) (p : ρ → Bool) :
    (t.deleteWhere p).rows = t.rows.filter fun r => !p r := rfl

theorem insert_eq_some [DecidableEq κ] {t t' : Table ρ κ entries} {row : ρ}
    (h : t.insert row = some t') : t'.rows = t.rows ++ [row] := by
  unfold insert at h
  split at h
  · obtain rfl := Option.some.inj h
    rfl
  · cases h

theorem free_of_insert [DecidableEq κ] {t t' : Table ρ κ entries} {row : ρ}
    (h : t.insert row = some t') : t.Free row := by
  unfold insert at h
  split at h
  · assumption
  · cases h

theorem insert_of_free [DecidableEq κ] {t : Table ρ κ entries} {row : ρ} (h : t.Free row) :
    ∃ t', t.insert row = some t' ∧ t'.rows = t.rows ++ [row] := by
  unfold insert
  rw [dif_pos h]
  exact ⟨_, rfl, rfl⟩

theorem insert_eq_none [DecidableEq κ] {t : Table ρ κ entries} {row : ρ} :
    t.insert row = none ↔ ¬t.Free row := by
  unfold insert
  split <;> simp_all

theorem free_iff [DecidableEq κ] {t : Table ρ κ entries} {row : ρ} :
    t.Free row ↔ (entries row).Nodup ∧ ∀ r ∈ t.rows, ∀ e ∈ entries r, e ∉ entries row := by
  unfold Free
  rw [List.nodup_append']
  have hu := t.unique
  simp only [List.disjoint_left, List.mem_flatMap, forall_exists_index, and_imp]
  constructor
  · rintro ⟨-, hrow, hall⟩
    exact ⟨hrow, fun r hr e he => hall r hr he⟩
  · rintro ⟨hrow, hall⟩
    exact ⟨hu, hrow, fun e r hr he => hall r hr e he⟩

-- Values that are entries of an index are all different.
theorem nodup_map_entry (t : Table ρ κ entries) (f : ρ → κ) (hf : ∀ r, f r ∈ entries r) :
    (t.rows.map f).Nodup := by
  refine List.Sublist.nodup ?_ t.unique
  induction t.rows with
  | nil => exact .slnil
  | cons r rest ih => exact (List.singleton_sublist.mpr (hf r)).append ih

-- Two rows never share an entry.
theorem row_eq_of_entry (t : Table ρ κ entries) {r s : ρ} {e : κ} (hr : r ∈ t.rows)
    (hs : s ∈ t.rows) (her : e ∈ entries r) (hes : e ∈ entries s) : r = s := by
  obtain ⟨rows, hu⟩ := t
  simp only at hr hs
  induction rows with
  | nil => cases hr
  | cons first rest ih =>
    rw [List.flatMap_cons, List.nodup_append'] at hu
    obtain ⟨-, hrest, hdisjoint⟩ := hu
    have hfirst : ∀ q ∈ rest, e ∈ entries first → e ∉ entries q := fun q hq hef heq =>
      List.disjoint_left.mp hdisjoint hef (List.mem_flatMap.mpr ⟨q, hq, heq⟩)
    rcases List.mem_cons.mp hr with rfl | hr'
    · rcases List.mem_cons.mp hs with rfl | hs'
      · rfl
      · exact absurd hes (hfirst s hs' her)
    · rcases List.mem_cons.mp hs with rfl | hs'
      · exact absurd her (hfirst r hr' hes)
      · exact ih hrest hr' hs'

-- A condition that only the owner of one entry can meet selects at most one row.
theorem filter_eq_find (t : Table ρ κ entries) (e : κ) (p : ρ → Bool)
    (hp : ∀ r ∈ t.rows, p r = true → e ∈ entries r) : t.rows.filter p = (t.rows.find? p).toList := by
  obtain ⟨rows, hu⟩ := t
  simp only at hp ⊢
  induction rows with
  | nil => rfl
  | cons first rest ih =>
    rw [List.flatMap_cons, List.nodup_append'] at hu
    obtain ⟨-, hrest, hdisjoint⟩ := hu
    have hp' : ∀ r ∈ rest, p r = true → e ∈ entries r := fun r hr =>
      hp r (List.mem_cons_of_mem _ hr)
    cases hfirst : p first with
    | false => rw [List.filter_cons_of_neg (by simp [hfirst]), List.find?_cons_of_neg (by
        simp [hfirst]), ih hrest hp']
    | true =>
      have hnone : rest.filter p = [] := by
        rw [List.filter_eq_nil_iff]
        intro r hr hpr
        exact List.disjoint_left.mp hdisjoint (hp first (by simp) hfirst)
          (List.mem_flatMap.mpr ⟨r, hr, hp' r hr hpr⟩)
      rw [List.filter_cons_of_pos hfirst, List.find?_cons_of_pos hfirst, hnone]
      rfl

theorem find?_eq_some_iff_mem (t : Table ρ κ entries) (e : κ) {p : ρ → Bool} {r : ρ}
    (hp : ∀ r ∈ t.rows, p r = true → e ∈ entries r) :
    t.rows.find? p = some r ↔ r ∈ t.rows ∧ p r = true := by
  constructor
  · exact fun h => ⟨List.mem_of_find?_eq_some h, List.find?_some h⟩
  · intro h
    have hmem : r ∈ t.rows.filter p := List.mem_filter.mpr h
    rw [t.filter_eq_find e p hp, Option.mem_toList] at hmem
    exact hmem

end Table

theorem exists_of_forall₂_left {α β : Type*} {R : α → β → Prop} {l : List α} {l' : List β}
    (h : List.Forall₂ R l l') {a : α} (ha : a ∈ l) : ∃ b ∈ l', R a b := by
  induction h with
  | nil => cases ha
  | @cons x y rest rest' hxy _ ih =>
    rcases List.mem_cons.mp ha with rfl | ha
    · exact ⟨y, List.mem_cons_self, hxy⟩
    · obtain ⟨b, hb, hab⟩ := ih ha
      exact ⟨b, List.mem_cons_of_mem y hb, hab⟩

theorem exists_of_forall₂_right {α β : Type*} {R : α → β → Prop} {l : List α} {l' : List β}
    (h : List.Forall₂ R l l') {b : β} (hb : b ∈ l') : ∃ a ∈ l, R a b :=
  exists_of_forall₂_left (List.Forall₂.flip h) hb

theorem forall₂_imp_of_mem {α β : Type*} {R S : α → β → Prop} {l : List α} {l' : List β}
    (h : List.Forall₂ R l l') (himp : ∀ a ∈ l, ∀ b ∈ l', R a b → S a b) : List.Forall₂ S l l' := by
  induction h with
  | nil => exact .nil
  | @cons x y rest rest' hxy _ ih =>
    refine .cons (himp x List.mem_cons_self y List.mem_cons_self hxy) (ih ?_)
    exact fun a ha b hb => himp a (List.mem_cons_of_mem x ha) b (List.mem_cons_of_mem y hb)

theorem forall₂_comp {α β γ : Type*} {R : α → β → Prop} {S : β → γ → Prop} {l : List α}
    {l' : List β} {l'' : List γ} (h : List.Forall₂ R l l') (h' : List.Forall₂ S l' l'') :
    List.Forall₂ (fun a c => ∃ b, R a b ∧ S b c) l l'' := by
  induction h generalizing l'' with
  | nil =>
    cases h'
    exact .nil
  | @cons a b _ _ hab _ ih =>
    obtain ⟨c, rest, hbc, hrest, rfl⟩ := List.forall₂_cons_left_iff.mp h'
    exact .cons ⟨b, hab, hbc⟩ (ih hrest)

-- `ORDER BY key LIMIT 1`
def firstBy {ρ κ : Type*} [LinearOrder κ] (key : ρ → κ) (rows : List ρ) : List ρ :=
  (rows.insertionSort fun r s => key r ≤ key s).take 1

section FirstBy

variable {ρ κ : Type*} [LinearOrder κ] {key : ρ → κ} {rows : List ρ}

theorem length_firstBy_le : (firstBy key rows).length ≤ 1 := List.length_take_le _ _

theorem mem_firstBy (hkey : (rows.map key).Nodup) {r : ρ} :
    r ∈ firstBy key rows ↔ r ∈ rows ∧ ∀ s ∈ rows, key r ≤ key s := by
  have hsorted := List.pairwise_insertionSort (fun r s => key r ≤ key s) rows
  have hmem : ∀ s, s ∈ rows.insertionSort (fun r s => key r ≤ key s) ↔ s ∈ rows :=
    fun s => List.mem_insertionSort _
  unfold firstBy
  cases hlist : rows.insertionSort (fun r s => key r ≤ key s) with
  | nil =>
    rw [hlist] at hmem
    simp [← hmem]
  | cons first rest =>
    rw [hlist] at hsorted hmem
    have hfirst : ∀ s ∈ rows, key first ≤ key s := by
      intro s hs
      rcases List.mem_cons.mp ((hmem s).mpr hs) with rfl | hs
      · exact le_refl _
      · exact List.rel_of_pairwise_cons hsorted hs
    have hfirstmem : first ∈ rows := (hmem first).mp List.mem_cons_self
    rw [List.take_succ_cons, List.take_zero, List.mem_singleton]
    constructor
    · rintro rfl
      exact ⟨hfirstmem, hfirst⟩
    · rintro ⟨hr, hleast⟩
      exact List.inj_on_of_nodup_map hkey hr hfirstmem
        (le_antisymm (hleast first hfirstmem) (hfirst r hr))

theorem exists_mem_firstBy (h : rows ≠ []) : ∃ r, r ∈ firstBy key rows := by
  have hlength := List.length_insertionSort (fun r s => key r ≤ key s) rows
  have hpos := List.length_pos_iff.mpr h
  unfold firstBy
  cases hlist : rows.insertionSort (fun r s => key r ≤ key s) with
  | nil =>
    rw [hlist, List.length_nil] at hlength
    omega
  | cons first rest => exact ⟨first, by simp⟩

end FirstBy

-- A list is its groups, up to their order.
theorem perm_flatMap_filter {α κ : Type*} [DecidableEq κ] (key : α → κ) {keys : List κ}
    (hkeys : keys.Nodup) {l : List α} (hl : ∀ x ∈ l, key x ∈ keys) :
    l.Perm (keys.flatMap fun k => l.filter fun x => key x = k) := by
  induction keys generalizing l with
  | nil =>
    have hnil : l = [] := List.eq_nil_iff_forall_not_mem.mpr fun x hx => nomatch hl x hx
    rw [hnil]
    exact .nil
  | cons k rest ih =>
    obtain ⟨hk, hrest⟩ := List.nodup_cons.mp hkeys
    have hothers : ∀ x ∈ l.filter fun x => !decide (key x = k), key x ∈ rest := by
      intro x hx
      obtain ⟨hx, hne⟩ := List.mem_filter.mp hx
      refine (List.mem_cons.mp (hl x hx)).resolve_left ?_
      simpa using hne
    have hgroups : (rest.flatMap fun k' =>
        (l.filter fun x => !decide (key x = k)).filter fun x => decide (key x = k')) =
        rest.flatMap fun k' => l.filter fun x => decide (key x = k') := by
      refine List.flatMap_congr fun k' hk' => ?_
      rw [List.filter_filter]
      refine List.filter_congr fun x _ => ?_
      by_cases hx : key x = k'
      · have hne : key x ≠ k := by
          rintro rfl
          exact hk (hx ▸ hk')
        simp [hx, hx ▸ hne]
      · simp [hx]
    have hsplit := (List.filter_append_perm (fun x => decide (key x = k)) l).symm
    have hrest := (ih hrest hothers).append_left (l.filter fun x => decide (key x = k))
    rw [hgroups] at hrest
    exact hsplit.trans hrest

end Glider.Lib

import Mathlib.Data.List.Nodup
import Mathlib.Algebra.Order.Ring.Nat

namespace Glider.Lib

variable {α κ : Type*} [DecidableEq κ]

-- The first element with a key is changed.
def changeFirst (key : α → κ) (k : κ) (change : α → α) : List α → List α
  | [] => []
  | x :: rest =>
    if key x = k then change x :: rest else x :: changeFirst key k change rest

section Change

variable {key : α → κ} {k : κ} {change : α → α} {l : List α}

theorem map_changeFirst {β : Type*} {f : α → β} (hf : ∀ x, f (change x) = f x) (l : List α) :
    (changeFirst key k change l).map f = l.map f := by
  induction l with
  | nil => rfl
  | cons x rest ih =>
    rw [changeFirst]
    split
    · rw [List.map_cons, List.map_cons, hf]
    · rw [List.map_cons, List.map_cons, ih]

theorem changeFirst_congr {change' : α → α}
    (h : ∀ x, l.find? (key · = k) = some x → change x = change' x) :
    changeFirst key k change l = changeFirst key k change' l := by
  induction l with
  | nil => rfl
  | cons x rest ih =>
    rw [changeFirst, changeFirst]
    split
    case isTrue hx => rw [h x (List.find?_cons_of_pos (by simpa using hx))]
    case isFalse hx =>
      rw [List.find?_cons_of_neg (by simpa using hx)] at h
      rw [ih h]

theorem changeFirst_id (l : List α) : changeFirst key k id l = l := by
  induction l with
  | nil => rfl
  | cons x rest ih => rw [changeFirst, ih, id, ite_self]

-- With different keys, one element at most is changed.
theorem changeFirst_eq_map (hnodup : (l.map key).Nodup) :
    changeFirst key k change l = l.map fun x => if key x = k then change x else x := by
  induction l with
  | nil => rfl
  | cons x rest ih =>
    rw [List.map_cons, List.nodup_cons] at hnodup
    rw [changeFirst, List.map_cons]
    by_cases hx : key x = k
    · have hrest : rest.map (fun y => if key y = k then change y else y) = rest.map id := by
        refine List.map_congr_left fun y hy => if_neg ?_
        rintro rfl
        exact hnodup.1 (hx ▸ List.mem_map_of_mem hy)
      rw [if_pos hx, if_pos hx, hrest, List.map_id]
    · rw [if_neg hx, if_neg hx, ih hnodup.2]

end Change

section Find

variable {key : α → κ} {k : κ} {l : List α}

theorem find?_key_eq_some (hnodup : (l.map key).Nodup) {x : α} :
    l.find? (key · = k) = some x ↔ x ∈ l ∧ key x = k := by
  constructor
  · intro hfind
    exact ⟨List.mem_of_find?_eq_some hfind, by simpa using List.find?_some hfind⟩
  · rintro ⟨hmem, hx⟩
    obtain ⟨y, hfind⟩ := Option.isSome_iff_exists.mp
      (List.find?_isSome.mpr ⟨x, hmem, decide_eq_true hx⟩ : (l.find? (key · = k)).isSome)
    have hy : key y = k := by simpa using List.find?_some hfind
    have hyx : y = x :=
      List.inj_on_of_nodup_map hnodup (List.mem_of_find?_eq_some hfind) hmem (hy.trans hx.symm)
    rw [hfind, hyx]

theorem find?_key_eq_none : l.find? (key · = k) = none ↔ ∀ x ∈ l, key x ≠ k := by
  simp [List.find?_eq_none]

theorem length_filter_key (hnodup : (l.map key).Nodup) (hk : ∃ x ∈ l, key x = k) :
    (l.filter (key · = k)).length = 1 := by
  induction l with
  | nil =>
    obtain ⟨x, hx, -⟩ := hk
    cases hx
  | cons x rest ih =>
    rw [List.map_cons, List.nodup_cons] at hnodup
    by_cases hx : key x = k
    · have hrest : rest.filter (key · = k) = [] := by
        rw [List.filter_eq_nil_iff]
        intro y hy hyk
        exact hnodup.1 (hx ▸ of_decide_eq_true hyk ▸ List.mem_map_of_mem hy)
      rw [List.filter_cons_of_pos (by simpa using hx), hrest, List.length_singleton]
    · obtain ⟨y, hy, hyk⟩ := hk
      rw [List.filter_cons_of_neg (by simpa using hx)]
      obtain rfl | hy := List.mem_cons.mp hy
      · exact absurd hyk hx
      · exact ih hnodup.2 ⟨y, hy, hyk⟩

end Find

-- A map as its members, of which no two have the same key.
structure Assoc (κ α : Type*) where
  members : List (κ × α)
  nodup : (members.map Prod.fst).Nodup

namespace Assoc

variable {κ α : Type*} [DecidableEq κ]

instance [DecidableEq α] : DecidableEq (Assoc κ α) := fun m m' =>
  decidable_of_iff (m.members = m'.members) (by cases m; cases m'; simp)

def empty : Assoc κ α := ⟨[], List.nodup_nil⟩

def isEmpty (m : Assoc κ α) : Bool := m.members.isEmpty

def find? (m : Assoc κ α) (k : κ) : Option α := (m.members.find? fun p => p.1 = k).map Prod.snd

def keys (m : Assoc κ α) : List κ := m.members.map Prod.fst

def put (k : κ) (a : α) : List (κ × α) → List (κ × α)
  | [] => [(k, a)]
  | p :: rest => if p.1 = k then (k, a) :: rest else p :: put k a rest

section Put

variable {k : κ} {a : α} {l : List (κ × α)}

theorem mem_keys_put {k' : κ} : k' ∈ (put k a l).map Prod.fst ↔ k' = k ∨ k' ∈ l.map Prod.fst := by
  induction l with
  | nil => simp [put]
  | cons p rest ih =>
    rw [put]
    split
    · next h => simp [h]
    · rw [List.map_cons, List.mem_cons, ih, List.map_cons, List.mem_cons]
      tauto

theorem nodup_put (h : (l.map Prod.fst).Nodup) : ((put k a l).map Prod.fst).Nodup := by
  induction l with
  | nil => simp [put]
  | cons p rest ih =>
    rw [List.map_cons, List.nodup_cons] at h
    rw [put]
    split
    · next hp =>
      rw [List.map_cons, List.nodup_cons]
      exact ⟨hp ▸ h.1, h.2⟩
    · next hp =>
      rw [List.map_cons, List.nodup_cons]
      refine ⟨?_, ih h.2⟩
      rw [mem_keys_put]
      rintro (heq | hmem)
      · exact hp heq
      · exact h.1 hmem

theorem find?_put (k' : κ) : (put k a l).find? (fun p => p.1 = k') =
    if k' = k then some (k, a) else l.find? fun p => p.1 = k' := by
  induction l with
  | nil =>
    rw [put]
    by_cases hk : k' = k
    · rw [if_pos hk, List.find?_cons_of_pos (by simp [hk])]
    · rw [if_neg hk, List.find?_cons_of_neg (by simpa using Ne.symm hk)]
  | cons p rest ih =>
    rw [put]
    by_cases hp : p.1 = k
    · rw [if_pos hp]
      by_cases hk : k' = k
      · rw [if_pos hk, List.find?_cons_of_pos (by simp [hk])]
      · rw [if_neg hk, List.find?_cons_of_neg (by simpa using Ne.symm hk),
          List.find?_cons_of_neg (by simpa [hp] using Ne.symm hk)]
    · rw [if_neg hp]
      by_cases hk' : p.1 = k'
      · have hk : k' ≠ k := fun heq => hp (hk'.trans heq)
        rw [if_neg hk, List.find?_cons_of_pos (by simpa using hk'),
          List.find?_cons_of_pos (by simpa using hk')]
      · rw [List.find?_cons_of_neg (by simpa using hk'), ih,
          List.find?_cons_of_neg (by simpa using hk')]

end Put

-- `map[k] = a`.
def insert (m : Assoc κ α) (k : κ) (a : α) : Assoc κ α := ⟨put k a m.members, nodup_put m.nodup⟩

def insertAll (m : Assoc κ α) (l : List (κ × α)) : Assoc κ α :=
  l.foldl (fun m p => m.insert p.1 p.2) m

section Find

variable {m : Assoc κ α} {k k' : κ} {a : α}

@[simp] theorem find?_empty (k : κ) : (empty : Assoc κ α).find? k = none := rfl

theorem find?_insert : (m.insert k a).find? k' = if k' = k then some a else m.find? k' := by
  simp only [find?, insert, find?_put]
  split <;> rfl

@[simp] theorem find?_insert_self : (m.insert k a).find? k = some a := by
  rw [find?_insert, if_pos rfl]

theorem find?_insert_of_ne (h : k' ≠ k) : (m.insert k a).find? k' = m.find? k' := by
  rw [find?_insert, if_neg h]

theorem find?_eq_some : m.find? k = some a ↔ (k, a) ∈ m.members := by
  unfold find?
  constructor
  · intro h
    obtain ⟨⟨k', a'⟩, hfind, rfl⟩ := Option.map_eq_some_iff.mp h
    obtain ⟨hmem, rfl⟩ := (find?_key_eq_some m.nodup).mp hfind
    exact hmem
  · intro h
    rw [(find?_key_eq_some m.nodup).mpr ⟨h, rfl⟩]
    rfl

theorem find?_eq_none : m.find? k = none ↔ ∀ a, (k, a) ∉ m.members := by
  rw [Option.eq_none_iff_forall_ne_some]
  exact forall_congr' fun a => not_congr find?_eq_some

theorem mem_keys : k ∈ m.keys ↔ ∃ a, m.find? k = some a := by
  simp [keys, find?_eq_some]

theorem find?_of_isEmpty (h : m.isEmpty = true) (k : κ) : m.find? k = none := by
  rw [isEmpty, List.isEmpty_iff] at h
  rw [find?, h]
  rfl

-- The last member of a list with a key, if there is one.
def last? (l : List (κ × α)) (k : κ) : Option α := (l.reverse.find? fun p => p.1 = k).map Prod.snd

theorem last?_map {β : Type*} (f : β → κ) (g : β → α) (l : List β) (k : κ) :
    last? (l.map fun b => (f b, g b)) k = (l.reverse.find? fun b => f b = k).map g := by
  rw [last?, ← List.map_reverse, List.find?_map, Option.map_map]
  rfl

theorem mem_of_last? {l : List (κ × α)} (h : last? l k = some a) : (k, a) ∈ l := by
  obtain ⟨p, hfind, rfl⟩ := Option.map_eq_some_iff.mp h
  have hkey : p.1 = k := by simpa using List.find?_some hfind
  exact hkey ▸ List.mem_reverse.mp (List.mem_of_find?_eq_some hfind)

theorem find?_insertAll (m : Assoc κ α) (l : List (κ × α)) (k : κ) :
    (m.insertAll l).find? k = (last? l k).or (m.find? k) := by
  induction l generalizing m with
  | nil => rfl
  | cons p rest ih =>
    have hlast : last? (p :: rest) k = (last? rest k).or (if p.1 = k then some p.2 else none) := by
      rw [last?, last?, List.reverse_cons, List.find?_append]
      cases hfind : rest.reverse.find? fun q => q.1 = k with
      | some q => rfl
      | none =>
        by_cases hp : p.1 = k
        · simp [hp]
        · simp [hp]
    have hstep : (m.insertAll (p :: rest)) = (m.insert p.1 p.2).insertAll rest := rfl
    rw [hstep, ih, hlast, find?_insert]
    cases last? rest k with
    | some a => rfl
    | none =>
      by_cases hp : p.1 = k
      · simp [hp]
      · simp [hp, Ne.symm hp]

theorem exists_last? {l : List (κ × α)} (h : k ∈ l.map Prod.fst) : ∃ a, last? l k = some a := by
  obtain ⟨p, hp, rfl⟩ := List.mem_map.mp h
  apply Option.ne_none_iff_exists'.mp
  rw [last?, Ne, Option.map_eq_none_iff, List.find?_eq_none]
  exact fun hnot => hnot p (List.mem_reverse.mpr hp) (decide_eq_true rfl)

theorem last?_eq_some {l : List (κ × α)} (hnodup : (l.map Prod.fst).Nodup) :
    last? l k = some a ↔ (k, a) ∈ l := by
  have hreverse : (l.reverse.map Prod.fst).Nodup := by
    rw [List.map_reverse]
    exact List.nodup_reverse.mpr hnodup
  have h := find?_eq_some (m := ⟨l.reverse, hreverse⟩) (k := k) (a := a)
  rw [List.mem_reverse] at h
  exact h

end Find

section Keys

variable {m m' : Assoc κ α} {k : κ} {a : α}

theorem keys_put_of_mem {l : List (κ × α)} (h : k ∈ l.map Prod.fst) :
    (put k a l).map Prod.fst = l.map Prod.fst := by
  induction l with
  | nil => cases h
  | cons p rest ih =>
    rw [put]
    split
    · next hp => rw [List.map_cons, List.map_cons, hp]
    · next hp =>
      rw [List.map_cons, List.map_cons, ih ((List.mem_cons.mp h).resolve_left (Ne.symm hp))]

theorem keys_insertAll_of_mem {l : List (κ × α)} (h : ∀ p ∈ l, p.1 ∈ m.keys) :
    (m.insertAll l).keys = m.keys := by
  induction l generalizing m with
  | nil => rfl
  | cons p rest ih =>
    have hinsert : (m.insert p.1 p.2).keys = m.keys :=
      keys_put_of_mem (h p List.mem_cons_self)
    rw [← hinsert] at h ⊢
    exact ih fun q hq => h q (List.mem_cons_of_mem _ hq)

-- The keys in their order and what is found under them make up a map.
theorem eq_of_keys (hkeys : m.keys = m'.keys) (h : ∀ k, m.find? k = m'.find? k) : m = m' := by
  have hmem : ∀ p, p ∈ m.members → p ∈ m'.members := fun ⟨k, a⟩ hp =>
    find?_eq_some.mp ((h k).symm.trans (find?_eq_some.mpr hp))
  obtain ⟨l, hl⟩ := m
  obtain ⟨l', hl'⟩ := m'
  simp only [keys] at hkeys hmem
  clear h
  congr 1
  induction l generalizing l' with
  | nil => exact (List.map_eq_nil_iff.mp hkeys.symm).symm
  | cons p rest ih =>
    cases l' with
    | nil => cases hkeys
    | cons p' rest' =>
      obtain ⟨hfst, hrest⟩ := List.cons.inj hkeys
      rw [List.map_cons, List.nodup_cons] at hl hl'
      have hp : p = p' := by
        rcases List.mem_cons.mp (hmem p List.mem_cons_self) with hp | hp
        · exact hp
        · exact absurd (hfst ▸ List.mem_map_of_mem hp) hl'.1
      have htail := ih hl.2 rest' hl'.2 hrest fun q hq => by
        rcases List.mem_cons.mp (hmem q (List.mem_cons_of_mem _ hq)) with rfl | hq'
        · exact absurd (hp ▸ List.mem_map_of_mem hq) hl.1
        · exact hq'
      rw [hp, htail]

-- A map that holds the last of each key of a list takes nothing from it.
theorem insertAll_eq_self {l : List (κ × α)}
    (h : ∀ k a, last? l k = some a → m.find? k = some a) : m.insertAll l = m := by
  apply eq_of_keys
  · apply keys_insertAll_of_mem
    intro p hp
    obtain ⟨a, ha⟩ := exists_last? (List.mem_map_of_mem hp)
    exact mem_keys.mpr ⟨a, h p.1 a ha⟩
  · intro k
    rw [find?_insertAll]
    cases hk : last? l k with
    | none => rfl
    | some a => exact (h k a hk).symm

end Keys

section Erase

variable {m : Assoc κ α} {k : κ} {a : α}

def erase (m : Assoc κ α) (k : κ) : Assoc κ α :=
  ⟨m.members.filter fun p => p.1 ≠ k, m.nodup.sublist (List.filter_sublist.map _)⟩

theorem find?_erase_of_ne {k' : κ} (h : k' ≠ k) : (m.erase k).find? k' = m.find? k' := by
  ext a
  rw [find?_eq_some, find?_eq_some, erase, List.mem_filter, decide_eq_true_eq]
  exact and_iff_left h

-- What is found is taken out, and nothing else.
theorem members_erase_perm (h : m.find? k = some a) :
    m.members.Perm ((k, a) :: (m.erase k).members) := by
  have hmem := find?_eq_some.mp h
  apply (List.perm_ext_iff_of_nodup (List.Nodup.of_map _ m.nodup) ?_).mpr
  · intro p
    rw [List.mem_cons, erase, List.mem_filter, decide_eq_true_eq]
    constructor
    · intro hp
      by_cases hk : p.1 = k
      · have hfound : m.find? k = some p.2 := find?_eq_some.mpr (hk ▸ hp)
        exact .inl (Prod.ext hk (Option.some.inj (hfound.symm.trans h)))
      · exact .inr ⟨hp, hk⟩
    · rintro (rfl | hp)
      · exact hmem
      · exact hp.1
  · rw [List.nodup_cons]
    refine ⟨fun hin => ?_, List.Nodup.of_map _ (m.erase k).nodup⟩
    exact absurd rfl (of_decide_eq_true (List.mem_filter.mp hin).2)

-- A key that is not there yet is put at the end.
theorem members_insert_of_none (h : m.find? k = none) :
    (m.insert k a).members = m.members ++ [(k, a)] := by
  have hnone : ∀ p ∈ m.members, p.1 ≠ k := by
    rintro p hp rfl
    exact find?_eq_none.mp h p.2 hp
  change put k a m.members = _
  generalize m.members = l at hnone
  induction l with
  | nil => rfl
  | cons p l ih =>
    rw [put, if_neg (hnone p List.mem_cons_self), ih fun q hq => hnone q (List.mem_cons_of_mem _ hq)]
    rfl

end Erase

section Filter

variable {m : Assoc κ α} {k : κ} {a : α}

def filter (m : Assoc κ α) (p : κ → α → Bool) : Assoc κ α :=
  ⟨m.members.filter fun q => p q.1 q.2, m.nodup.sublist (List.filter_sublist.map _)⟩

theorem find?_filter (p : κ → α → Bool) : (m.filter p).find? k = (m.find? k).filter (p k) := by
  ext a
  rw [find?_eq_some, filter, List.mem_filter, Option.filter_eq_some_iff, find?_eq_some]

end Filter

section Sum

variable {m : Assoc κ α} {k : κ} {a : α}

-- What is put in a map takes the place of what was there.
theorem sum_insert (weight : α → ℕ) :
    ((m.insert k a).members.map fun p => weight p.2).sum + ((m.find? k).map weight).getD 0 =
      (m.members.map fun p => weight p.2).sum + weight a := by
  change ((put k a m.members).map fun p => weight p.2).sum +
    (((m.members.find? fun p => p.1 = k).map Prod.snd).map weight).getD 0 = _
  generalize m.members = l
  induction l with
  | nil => simp [put]
  | cons p l ih =>
    rw [put]
    by_cases hp : p.1 = k
    · rw [if_pos hp, List.find?_cons_of_pos (by simpa using hp)]
      simp only [List.map_cons, List.sum_cons, Option.map_some, Option.getD_some]
      omega
    · rw [if_neg hp, List.find?_cons_of_neg (by simpa using hp)]
      simp only [List.map_cons, List.sum_cons]
      omega

end Sum

section FlatMap

variable {β : Type*} {m : Assoc κ α} {f : κ × α → List β}

-- Of what a map leads to, nothing comes twice if it tells its key.
omit [DecidableEq κ] in
theorem nodup_flatMap (key : β → κ) (hf : ∀ p ∈ m.members, (f p).Nodup)
    (hkey : ∀ p ∈ m.members, ∀ b ∈ f p, key b = p.1) : (m.members.flatMap f).Nodup := by
  rw [List.nodup_flatMap]
  refine ⟨hf, (List.pairwise_map.mp m.nodup).imp_of_mem fun {p q} hp hq hne b hb hb' => ?_⟩
  exact hne ((hkey p hp b hb).symm.trans (hkey q hq b hb'))

end FlatMap

end Assoc

end Glider.Lib

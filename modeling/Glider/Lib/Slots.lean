import Mathlib.Data.List.Perm.Basic
import Mathlib.Data.List.Count

-- A list has one slot for each of several parties, and a step of one party sets its slot.
namespace Glider.Lib.Slots

variable {α β : Type*} {slots : List α} {i : ℕ} {old new : α}

theorem filterMap_set_perm (f : α → Option β) (h : slots[i]? = some old) (new : α) :
    (slots.filterMap f).Perm ((f old).toList ++ (slots.eraseIdx i).filterMap f) ∧
    ((slots.set i new).filterMap f).Perm ((f new).toList ++ (slots.eraseIdx i).filterMap f) := by
  obtain ⟨hlt, rfl⟩ := List.getElem?_eq_some_iff.mp h
  have hcons : ∀ a : α, (a :: slots.eraseIdx i).filterMap f =
      (f a).toList ++ (slots.eraseIdx i).filterMap f := by
    intro a
    cases ha : f a with
    | none => rw [List.filterMap_cons_none ha]; rfl
    | some id => rw [List.filterMap_cons_some ha]; rfl
  constructor
  · rw [← hcons]
    exact (List.getElem_cons_eraseIdx_perm hlt).symm.filterMap f
  · rw [← hcons]
    exact (List.set_perm_cons_eraseIdx hlt new).filterMap f

theorem count_filterMap_set [DecidableEq β] (f : α → Option β) (h : slots[i]? = some old) (new : α)
    (x : β) : ((slots.set i new).filterMap f).count x + (f old).toList.count x =
      (slots.filterMap f).count x + (f new).toList.count x := by
  obtain ⟨h1, h2⟩ := filterMap_set_perm f h new
  rw [h1.count_eq, h2.count_eq, List.count_append, List.count_append]
  omega

theorem countP_set (p : α → Bool) (h : slots[i]? = some old) (new : α) :
    (slots.set i new).countP p + (if p old then 1 else 0) =
      slots.countP p + if p new then 1 else 0 := by
  obtain ⟨hlt, rfl⟩ := List.getElem?_eq_some_iff.mp h
  have h1 := (List.getElem_cons_eraseIdx_perm hlt).countP_eq p
  have h2 := (List.set_perm_cons_eraseIdx hlt new).countP_eq p
  rw [List.countP_cons] at h1 h2
  omega

theorem mem_filterMap_set {f : α → Option β} {x : β} (hx : x ∈ (slots.set i new).filterMap f) :
    f new = some x ∨ x ∈ slots.filterMap f := by
  obtain ⟨a, ha, hf⟩ := List.mem_filterMap.mp hx
  rcases List.mem_or_eq_of_mem_set ha with ha | rfl
  · exact .inr (List.mem_filterMap.mpr ⟨a, ha, hf⟩)
  · exact .inl hf

theorem mem_set_of_mem {a : α} (h : slots[i]? = some old) (ha : a ∈ slots) :
    a = old ∨ a ∈ slots.set i new := by
  obtain ⟨j, hj⟩ := List.mem_iff_getElem?.mp ha
  by_cases hij : i = j
  · subst hij
    exact .inl (Option.some_inj.mp (hj.symm.trans h))
  · refine .inr (List.mem_iff_getElem?.mpr ⟨j, ?_⟩)
    rw [List.getElem?_set_ne hij, hj]

theorem new_mem_set (h : slots[i]? = some old) : new ∈ slots.set i new :=
  List.mem_set (List.getElem?_eq_some_iff.mp h).1 new

theorem getElem?_set_cases {j : ℕ} {a : α} (h : (slots.set i new)[j]? = some a) :
    j = i ∧ a = new ∨ j ≠ i ∧ slots[j]? = some a := by
  by_cases hij : j = i
  · subst hij
    obtain ⟨hlt, heq⟩ := List.getElem?_eq_some_iff.mp h
    rw [List.getElem_set_self] at heq
    exact .inl ⟨rfl, heq.symm⟩
  · rw [List.getElem?_set_ne (Ne.symm hij)] at h
    exact .inr ⟨hij, h⟩

end Glider.Lib.Slots

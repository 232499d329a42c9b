import Mathlib.Data.List.Nodup
import Mathlib.Data.List.Perm.Basic
import Mathlib.Logic.Function.Basic

namespace Glider.Lib

-- Things are numbered as they are made. Each one is either in store, once, or in the hands of the
-- one thread that made it.
structure Custody (stored : List ℕ) (held : ℕ → Option ℕ) (made : ℕ) : Prop where
  nodup : stored.Nodup
  made_iff : ∀ p, p < made ↔ p ∈ stored ∨ ∃ t, held t = some p
  apart : ∀ t p, held t = some p → p ∉ stored
  alone : ∀ t u p, held t = some p → held u = some p → t = u

namespace Custody

variable {stored stored' : List ℕ} {held : ℕ → Option ℕ} {made t p : ℕ}

theorem initial : Custody [] (fun _ => none) 0 where
  nodup := List.nodup_nil
  made_iff := by simp
  apart := fun _ _ h => (nomatch h)
  alone := fun _ _ _ h => (nomatch h)

-- Things in store may be put elsewhere in it.
theorem perm (h : Custody stored held made) (hp : stored'.Perm stored) :
    Custody stored' held made where
  nodup := hp.nodup_iff.mpr h.nodup
  made_iff := fun p => by rw [h.made_iff, hp.mem_iff]
  apart := fun t p ht => by
    rw [hp.mem_iff]
    exact h.apart t p ht
  alone := h.alone

theorem make (h : Custody stored held made) (ht : held t = none) :
    Custody stored (Function.update held t (some made)) (made + 1) := by
  have hnew : made ∉ stored := fun hmem =>
    Nat.lt_irrefl made ((h.made_iff made).mpr (.inl hmem))
  have hfresh : ∀ u, held u ≠ some made := fun u hu =>
    Nat.lt_irrefl made ((h.made_iff made).mpr (.inr ⟨u, hu⟩))
  have hcases : ∀ u p, Function.update held t (some made) u = some p →
      u = t ∧ p = made ∨ u ≠ t ∧ held u = some p := by
    intro u p hu
    by_cases hut : u = t
    · subst hut
      rw [Function.update_self, Option.some.injEq] at hu
      exact .inl ⟨rfl, hu.symm⟩
    · rw [Function.update_of_ne hut] at hu
      exact .inr ⟨hut, hu⟩
  refine ⟨h.nodup, fun p => ⟨fun hp => ?_, ?_⟩, fun u p hu => ?_, fun u v p hu hv => ?_⟩
  · by_cases hmade : p = made
    · exact .inr ⟨t, by rw [Function.update_self, hmade]⟩
    · rcases (h.made_iff p).mp (by omega) with hmem | ⟨u, hu⟩
      · exact .inl hmem
      · have hut : u ≠ t := by
          rintro rfl
          rw [ht] at hu
          cases hu
        exact .inr ⟨u, by rw [Function.update_of_ne hut, hu]⟩
  · rintro (hmem | ⟨u, hu⟩)
    · exact Nat.lt_succ_of_lt ((h.made_iff p).mpr (.inl hmem))
    · rcases hcases u p hu with ⟨-, rfl⟩ | ⟨-, hu⟩
      · exact Nat.lt_succ_self p
      · exact Nat.lt_succ_of_lt ((h.made_iff p).mpr (.inr ⟨u, hu⟩))
  · rcases hcases u p hu with ⟨-, rfl⟩ | ⟨-, hu⟩
    · exact hnew
    · exact h.apart u p hu
  · rcases hcases u p hu with ⟨hut, rfl⟩ | ⟨-, hu'⟩
    · rcases hcases v p hv with ⟨hvt, -⟩ | ⟨-, hv'⟩
      · exact hut.trans hvt.symm
      · exact absurd hv' (hfresh v)
    · rcases hcases v p hv with ⟨-, rfl⟩ | ⟨-, hv'⟩
      · exact absurd hu' (hfresh u)
      · exact h.alone u v p hu' hv'

theorem store (h : Custody stored held made) (ht : held t = some p)
    (hp : stored'.Perm (p :: stored)) : Custody stored' (Function.update held t none) made := by
  have hcases : ∀ u q, Function.update held t none u = some q → u ≠ t ∧ held u = some q := by
    intro u q hu
    by_cases hut : u = t
    · subst hut
      rw [Function.update_self] at hu
      cases hu
    · rw [Function.update_of_ne hut] at hu
      exact ⟨hut, hu⟩
  refine ⟨hp.nodup_iff.mpr (List.nodup_cons.mpr ⟨h.apart t p ht, h.nodup⟩), fun q => ?_,
    fun u q hu => ?_, fun u v q hu hv => h.alone u v q (hcases u q hu).2 (hcases v q hv).2⟩
  · rw [h.made_iff, hp.mem_iff, List.mem_cons]
    constructor
    · rintro (hmem | ⟨u, hu⟩)
      · exact .inl (.inr hmem)
      · by_cases hut : u = t
        · subst hut
          exact .inl (.inl (Option.some.inj (hu.symm.trans ht)))
        · exact .inr ⟨u, by rw [Function.update_of_ne hut, hu]⟩
    · rintro ((rfl | hmem) | ⟨u, hu⟩)
      · exact .inr ⟨t, ht⟩
      · exact .inl hmem
      · exact .inr ⟨u, (hcases u q hu).2⟩
  · obtain ⟨hut, hu⟩ := hcases u q hu
    rw [hp.mem_iff, List.mem_cons, not_or]
    refine ⟨?_, h.apart u q hu⟩
    rintro rfl
    exact hut (h.alone u t q hu ht)

-- What no thread has in its hands is in store, and there once.
theorem count_eq_one (h : Custody stored held made) (hp : p < made)
    (hfree : ∀ t, held t ≠ some p) : stored.count p = 1 := by
  apply List.count_eq_one_of_mem h.nodup
  rcases (h.made_iff p).mp hp with hmem | ⟨t, ht⟩
  · exact hmem
  · exact absurd ht (hfree t)

end Custody

end Glider.Lib

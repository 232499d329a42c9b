import Mathlib.Data.List.Pairwise
import Mathlib.Data.Set.Card
import Mathlib.Order.Interval.Finset.Nat

namespace Glider.Lib.Ranges

-- Half-open ranges `[r.1, r.2)` of positions.
def Covers (ranges : List (ℕ × ℕ)) (i : ℕ) : Prop := ∃ r ∈ ranges, r.1 ≤ i ∧ i < r.2

def total (ranges : List (ℕ × ℕ)) : ℕ := (ranges.map fun r => r.2 - r.1).sum

-- Nonempty ranges in increasing order with a gap between any two of them.
def Separated (ranges : List (ℕ × ℕ)) : Prop :=
  ranges.Pairwise (fun a b => a.2 < b.1) ∧ ∀ r ∈ ranges, r.1 < r.2

-- Insertion into an ordered map from keys to values; a present key gets the new value.
def assign : List (ℕ × ℕ) → ℕ → ℕ → List (ℕ × ℕ)
  | [], key, value => [(key, value)]
  | r :: rest, key, value =>
    if key < r.1 then (key, value) :: r :: rest
    else if key = r.1 then (key, value) :: rest
    else r :: assign rest key value

@[simp] theorem total_nil : total [] = 0 := rfl

@[simp] theorem total_cons (r : ℕ × ℕ) (rest : List (ℕ × ℕ)) :
    total (r :: rest) = r.2 - r.1 + total rest := rfl

theorem total_append (front back : List (ℕ × ℕ)) :
    total (front ++ back) = total front + total back := by
  simp [total]

@[simp] theorem covers_nil (i : ℕ) : ¬Covers [] i := by simp [Covers]

@[simp] theorem covers_cons (r : ℕ × ℕ) (rest : List (ℕ × ℕ)) (i : ℕ) :
    Covers (r :: rest) i ↔ (r.1 ≤ i ∧ i < r.2) ∨ Covers rest i := by
  simp [Covers]

theorem covers_append (front back : List (ℕ × ℕ)) (i : ℕ) :
    Covers (front ++ back) i ↔ Covers front i ∨ Covers back i := by
  simp only [Covers, List.mem_append, or_and_right, exists_or]

theorem separated_cons {r : ℕ × ℕ} {rest : List (ℕ × ℕ)} :
    Separated (r :: rest) ↔ r.1 < r.2 ∧ (∀ s ∈ rest, r.2 < s.1) ∧ Separated rest := by
  simp only [Separated, List.pairwise_cons, List.forall_mem_cons]
  constructor
  · rintro ⟨⟨hgap, hp⟩, hr, hne⟩
    exact ⟨hr, hgap, hp, hne⟩
  · rintro ⟨hr, hgap, hp, hne⟩
    exact ⟨⟨hgap, hp⟩, hr, hne⟩

theorem separated_append {front back : List (ℕ × ℕ)} :
    Separated (front ++ back) ↔
      Separated front ∧ Separated back ∧ ∀ r ∈ front, ∀ s ∈ back, r.2 < s.1 := by
  simp only [Separated, List.pairwise_append, List.forall_mem_append]
  constructor
  · rintro ⟨⟨hpf, hpb, hgap⟩, hf, hb⟩
    exact ⟨⟨hpf, hf⟩, ⟨hpb, hb⟩, hgap⟩
  · rintro ⟨⟨hpf, hf⟩, ⟨hpb, hb⟩, hgap⟩
    exact ⟨⟨hpf, hpb, hgap⟩, hf, hb⟩

-- A key above every key in front and below every key behind is inserted between them.
theorem assign_append {front back : List (ℕ × ℕ)} {key value : ℕ}
    (hfront : ∀ r ∈ front, r.1 < key) (hback : ∀ r ∈ back, key < r.1) :
    assign (front ++ back) key value = front ++ (key, value) :: back := by
  induction front with
  | nil =>
    cases back with
    | nil => rfl
    | cons r rest => simp [assign, hback r (by simp)]
  | cons r rest ih =>
    have hr := hfront r (by simp)
    have hi := ih (fun s hs => hfront s (List.mem_cons_of_mem _ hs))
    simp only [List.cons_append, assign, hi]
    rw [if_neg (by omega), if_neg (by omega)]

-- Ranges inside `[lo, n)` never add up to more than its length.
theorem total_le {ranges : List (ℕ × ℕ)} {lo n : ℕ} (hsep : Separated ranges)
    (hlo : ∀ r ∈ ranges, lo ≤ r.1) (hn : ∀ r ∈ ranges, r.2 ≤ n) : total ranges ≤ n - lo := by
  induction ranges generalizing lo with
  | nil => simp
  | cons r rest ih =>
    obtain ⟨hr, hgap, hrest⟩ := separated_cons.mp hsep
    have hi := @ih r.2 hrest (fun s hs => Nat.le_of_lt (hgap s hs))
      (fun s hs => hn s (List.mem_cons_of_mem _ hs))
    have h1 := hlo r (by simp)
    have h2 := hn r (by simp)
    simp only [total_cons]
    omega

-- If they add up to all of it, no position is left out: a gap would cost at least one.
theorem covers_of_total_eq {ranges : List (ℕ × ℕ)} {lo n : ℕ} (hsep : Separated ranges)
    (hlo : ∀ r ∈ ranges, lo ≤ r.1) (hn : ∀ r ∈ ranges, r.2 ≤ n)
    (ht : total ranges = n - lo) (i : ℕ) (hi : lo ≤ i) (hin : i < n) : Covers ranges i := by
  induction ranges generalizing lo with
  | nil => simp only [total_nil] at ht; omega
  | cons r rest ih =>
    obtain ⟨hr, hgap, hrest⟩ := separated_cons.mp hsep
    have h1 := hlo r (by simp)
    have h2 := hn r (by simp)
    have hgap' : ∀ s ∈ rest, r.2 ≤ s.1 := fun s hs => Nat.le_of_lt (hgap s hs)
    have hn' : ∀ s ∈ rest, s.2 ≤ n := fun s hs => hn s (List.mem_cons_of_mem _ hs)
    have hle := total_le hrest hgap' hn'
    simp only [total_cons] at ht
    rw [covers_cons]
    by_cases hir : i < r.2
    · exact Or.inl ⟨by omega, hir⟩
    · exact Or.inr (ih hrest hgap' hn' (by omega) (by omega))

theorem Separated.start_le {r : ℕ × ℕ} {rest : List (ℕ × ℕ)} (hsep : Separated (r :: rest)) {i : ℕ}
    (hi : Covers (r :: rest) i) : r.1 ≤ i := by
  obtain ⟨hr, hgap, -⟩ := separated_cons.mp hsep
  rcases (covers_cons r rest i).mp hi with ⟨hlo, -⟩ | ⟨s, hs, hlo, -⟩
  · exact hlo
  · have := hgap s hs
    omega

-- The positions behind the first range are those of the others.
theorem Separated.covers_tail {r : ℕ × ℕ} {rest : List (ℕ × ℕ)} (hsep : Separated (r :: rest)) (i : ℕ) :
    Covers rest i ↔ Covers (r :: rest) i ∧ r.2 < i := by
  obtain ⟨-, hgap, -⟩ := separated_cons.mp hsep
  rw [covers_cons]
  constructor
  · rintro ⟨s, hs, hlo, hhi⟩
    have := hgap s hs
    exact ⟨.inr ⟨s, hs, hlo, hhi⟩, by omega⟩
  · rintro ⟨hin | hrest, hlt⟩
    · omega
    · exact hrest

-- Where the first range ends is the first position behind its start that is not covered.
theorem Separated.end_le {r s : ℕ × ℕ} {rest rest' : List (ℕ × ℕ)} (h : Separated (r :: rest))
    (hstart : r.1 = s.1)
    (hsame : ∀ i, Covers (s :: rest') i → Covers (r :: rest) i) : s.2 ≤ r.2 := by
  by_contra hlt
  obtain ⟨hr, hgap, -⟩ := separated_cons.mp h
  have hcovered := hsame r.2 ((covers_cons s rest' r.2).mpr (.inl ⟨by omega, by omega⟩))
  rcases (covers_cons r rest r.2).mp hcovered with hin | ⟨q, hq, hlo, -⟩
  · omega
  · have := hgap q hq
    omega

-- Separated ranges are determined by the positions they cover.
theorem separated_ext {l l' : List (ℕ × ℕ)} (h : Separated l) (h' : Separated l')
    (hsame : ∀ i, Covers l i ↔ Covers l' i) : l = l' := by
  have hfirst {r : ℕ × ℕ} {rest : List (ℕ × ℕ)} (hsep : Separated (r :: rest)) :
      Covers (r :: rest) r.1 :=
    (covers_cons r rest r.1).mpr (.inl ⟨Nat.le_refl _, (separated_cons.mp hsep).1⟩)
  induction l generalizing l' with
  | nil =>
    cases l' with
    | nil => rfl
    | cons s rest' => exact absurd ((hsame s.1).mpr (hfirst h')) (covers_nil s.1)
  | cons r rest ih =>
    cases l' with
    | nil => exact absurd ((hsame r.1).mp (hfirst h)) (covers_nil r.1)
    | cons s rest' =>
      have hstart : r.1 = s.1 :=
        Nat.le_antisymm (h.start_le ((hsame s.1).mpr (hfirst h')))
          (h'.start_le ((hsame r.1).mp (hfirst h)))
      have hend : r.2 = s.2 :=
        Nat.le_antisymm (h'.end_le hstart.symm fun i => (hsame i).mp)
          (h.end_le hstart fun i => (hsame i).mpr)
      have hrest : rest = rest' := by
        apply ih (separated_cons.mp h).2.2 (separated_cons.mp h').2.2
        intro i
        rw [h.covers_tail, h'.covers_tail, hsame, hend]
      rw [Prod.ext hstart hend, hrest]

-- Their length is the number of positions they cover.
theorem ncard_covers {l : List (ℕ × ℕ)} (h : Separated l) :
    {i | Covers l i}.Finite ∧ {i | Covers l i}.ncard = total l := by
  induction l with
  | nil =>
    have hnone : {i | Covers [] i} = ∅ := Set.eq_empty_of_forall_notMem covers_nil
    rw [hnone]
    exact ⟨Set.finite_empty, Set.ncard_empty ℕ⟩
  | cons r rest ih =>
    obtain ⟨hr, hgap, hrest⟩ := separated_cons.mp h
    obtain ⟨hfinite, hcard⟩ := ih hrest
    have hunion : {i | Covers (r :: rest) i} = Set.Ico r.1 r.2 ∪ {i | Covers rest i} :=
      Set.ext fun i => covers_cons r rest i
    have hdisjoint : Disjoint (Set.Ico r.1 r.2) {i | Covers rest i} := by
      refine Set.disjoint_left.mpr fun i hin hlater => ?_
      have := ((h.covers_tail i).mp hlater).2
      have := hin.2
      omega
    rw [hunion]
    refine ⟨(Set.finite_Ico _ _).union hfinite, ?_⟩
    rw [Set.ncard_union_eq hdisjoint (Set.finite_Ico _ _) hfinite, hcard, total_cons,
      ← Finset.coe_Ico, Set.ncard_coe_finset, Nat.card_Ico]

end Glider.Lib.Ranges

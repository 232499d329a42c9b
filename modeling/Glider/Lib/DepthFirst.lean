import Mathlib.Logic.Relation
import Mathlib.Data.Set.Finite.Basic
import Mathlib.Data.Fintype.Card
import Mathlib.Order.WellFounded

namespace Glider.Lib

open Relation

variable {α : Type*} {r r' : α → α → Prop}

def Acyclic (r : α → α → Prop) : Prop := ∀ x, ¬TransGen r x x

theorem Acyclic.anti (h : Acyclic r) (hle : ∀ x y, r' x y → r x y) : Acyclic r' :=
  fun x hx => h x (TransGen.mono hle _ _ hx)

-- New edges leave one point, for points from which it is not reached.
theorem Acyclic.add (h : Acyclic r) {v : α}
    (hadd : ∀ x y, r' x y → r x y ∨ x = v ∧ ¬ReflTransGen r y v) : Acyclic r' := by
  -- A path to `v` can be cut at its first visit of `v`, and until then it has no new edge.
  have hto : ∀ y, ReflTransGen r' y v → ReflTransGen r y v := by
    intro y hy
    induction hy using ReflTransGen.head_induction_on with
    | refl => exact .refl
    | @head y z hyz _ ih =>
      rcases hadd y z hyz with hold | ⟨rfl, -⟩
      · exact .head hold ih
      · exact .refl
  have hsplit : ∀ x y, TransGen r' x y →
      TransGen r x y ∨ ∃ z, ¬ReflTransGen r z v ∧ ReflTransGen r' x v ∧ ReflTransGen r' z y := by
    intro x y hxy
    induction hxy with
    | single hxy =>
      rcases hadd _ _ hxy with hold | ⟨rfl, hnot⟩
      · exact .inl (.single hold)
      · exact .inr ⟨_, hnot, .refl, .refl⟩
    | tail hpath hlast ih =>
      rcases hadd _ _ hlast with hold | ⟨rfl, hnot⟩
      · rcases ih with ih | ⟨z, hz, hx, hpath⟩
        · exact .inl (.tail ih hold)
        · exact .inr ⟨z, hz, hx, .tail hpath hlast⟩
      · exact .inr ⟨_, hnot, hpath.to_reflTransGen, .refl⟩
  intro x hx
  rcases hsplit x x hx with hold | ⟨z, hnot, hxv, hzx⟩
  · exact h x hold
  · exact hnot (hto z (hzx.trans hxv))

-- In a finite set some point has no edge to the set.
theorem Acyclic.exists_sink (h : Acyclic r) {s : Set α} (hfinite : s.Finite) (hs : s.Nonempty) :
    ∃ x ∈ s, ∀ y ∈ s, ¬r x y := by
  have : Finite s := hfinite
  have htrans : IsTrans s fun x y => TransGen r y.1 x.1 := ⟨fun _ _ _ hxy hyz => hyz.trans hxy⟩
  have hirrefl : Std.Irrefl fun x y : s => TransGen r y.1 x.1 := ⟨fun x => h x.1⟩
  have hwf := Finite.wellFounded_of_trans_of_irrefl fun x y : s => TransGen r y.1 x.1
  obtain ⟨first, hfirst⟩ := hs
  obtain ⟨x, -, hmin⟩ := hwf.has_min Set.univ ⟨⟨first, hfirst⟩, trivial⟩
  exact ⟨x.1, x.2, fun y hy hxy => hmin ⟨y, hy⟩ trivial (.single hxy)⟩

end Glider.Lib

namespace Glider.Lib.DepthFirst

open Relation

variable {α : Type*} [DecidableEq α]

-- What a search has met, and what it is in the middle of.
structure Marks (α : Type*) where
  visited : List α
  stack : List α

def Marks.enter (m : Marks α) (current : α) : Marks α :=
  { visited := current :: m.visited, stack := current :: m.stack }

def Marks.leave (m : Marks α) (current : α) : Marks α :=
  { m with stack := m.stack.filter (· ≠ current) }

-- The points next to one point, each searched by `search` if it is new.
def scan (search : α → Marks α → Option (Bool × Marks α)) :
    List α → Marks α → Option (Bool × Marks α)
  | [], m => some (false, m)
  | dep :: rest, m =>
    if dep ∈ m.stack then some (true, m)
    else if dep ∈ m.visited then scan search rest m
    else
      match search dep m with
      | none => none
      | some (true, m') => some (true, m')
      | some (false, m') => scan search rest m'

-- Without fuel left there is no answer.
def detectCycle (next : α → List α) : ℕ → α → Marks α → Option (Bool × Marks α)
  | 0, _, _ => none
  | fuel + 1, current, m =>
    match scan (detectCycle next fuel) (next current) (m.enter current) with
    | none => none
    | some (true, m') => some (true, m')
    | some (false, m') => some (false, m'.leave current)

def hasLoop (next : α → List α) (fuel : ℕ) : List α → Marks α → Option Bool
  | [], _ => some false
  | x :: rest, m =>
    if x ∈ m.visited then hasLoop next fuel rest m
    else
      match detectCycle next fuel x m with
      | none => none
      | some (true, _) => some true
      | some (false, m') => hasLoop next fuel rest m'

def Edge (next : α → List α) (x y : α) : Prop := y ∈ next x

-- What is met and left is closed, so that no loop goes through it.
structure Clean (next : α → List α) (m : Marks α) : Prop where
  stack_visited : ∀ x ∈ m.stack, x ∈ m.visited
  closed : ∀ x ∈ m.visited, x ∉ m.stack → ∀ y ∈ next x, y ∈ m.visited ∧ y ∉ m.stack
  acyclic : ∀ x ∈ m.visited, x ∉ m.stack → ¬TransGen (Edge next) x x

section Clean

variable {next : α → List α} {m m' : Marks α} {current x y : α}

omit [DecidableEq α] in
theorem clean_start : Clean next (⟨[], []⟩ : Marks α) where
  stack_visited := fun _ h => nomatch h
  closed := fun _ h => nomatch h
  acyclic := fun _ h => nomatch h

omit [DecidableEq α] in
theorem Clean.enter (h : Clean next m) (hnew : current ∉ m.visited) :
    Clean next (m.enter current) := by
  have hold : ∀ x ∈ (m.enter current).visited, x ∉ (m.enter current).stack →
      x ∈ m.visited ∧ x ∉ m.stack := by
    intro x hx hstack
    have hne : x ≠ current := fun heq => hstack (heq ▸ List.mem_cons_self)
    exact ⟨(List.mem_cons.mp hx).resolve_left hne, fun hmem => hstack (List.mem_cons_of_mem _ hmem)⟩
  refine ⟨?_, ?_, ?_⟩
  · intro x hx
    rcases List.mem_cons.mp hx with rfl | hx
    · exact List.mem_cons_self
    · exact List.mem_cons_of_mem _ (h.stack_visited x hx)
  · intro x hx hstack y hy
    obtain ⟨hx, hstack⟩ := hold x hx hstack
    obtain ⟨hvisited, hleft⟩ := h.closed x hx hstack y hy
    refine ⟨List.mem_cons_of_mem _ hvisited, fun hmem => ?_⟩
    rcases List.mem_cons.mp hmem with rfl | hmem
    · exact hnew hvisited
    · exact hleft hmem
  · intro x hx hstack
    obtain ⟨hx, hstack⟩ := hold x hx hstack
    exact h.acyclic x hx hstack

omit [DecidableEq α] in
-- A path that starts at a point that is left stays among these.
theorem Clean.of_path (h : Clean next m) (hx : x ∈ m.visited) (hleft : x ∉ m.stack)
    (hpath : ReflTransGen (Edge next) x y) : y ∈ m.visited ∧ y ∉ m.stack := by
  induction hpath with
  | refl => exact ⟨hx, hleft⟩
  | tail _ hstep ih => exact h.closed _ ih.1 ih.2 _ hstep

theorem Clean.leave (h : Clean next m) (hcurrent : current ∈ m.stack)
    (hnext : ∀ y ∈ next current, y ∈ m.visited ∧ y ∉ m.stack) : Clean next (m.leave current) := by
  have hstack : ∀ {x}, x ∉ (m.leave current).stack → x = current ∨ x ∉ m.stack := by
    intro x hx
    by_cases heq : x = current
    · exact .inl heq
    · exact .inr fun hmem => hx (List.mem_filter.mpr ⟨hmem, by simpa using heq⟩)
  have hleft : ∀ {x}, x ∉ m.stack → x ∉ (m.leave current).stack :=
    fun hx hmem => hx (List.mem_filter.mp hmem).1
  refine ⟨fun x hx => h.stack_visited x (List.mem_filter.mp hx).1, ?_, ?_⟩
  · intro x hx hout y hy
    rcases hstack hout with rfl | hout
    · exact ⟨(hnext y hy).1, hleft (hnext y hy).2⟩
    · obtain ⟨hvisited, hy⟩ := h.closed x hx hout y hy
      exact ⟨hvisited, hleft hy⟩
  · intro x hx hout hloop
    rcases hstack hout with rfl | hout
    · obtain ⟨y, hstep, hback⟩ := TransGen.head'_iff.mp hloop
      exact (h.of_path (hnext y hstep).1 (hnext y hstep).2 hback).2 hcurrent
    · exact h.acyclic x hx hout hloop

end Clean

-- How many of the points with neighbours are still to be met.
def unmet (keys : List α) (m : Marks α) : ℕ := (keys.filter (· ∉ m.visited)).length

theorem unmet_le (keys : List α) {m m' : Marks α} (h : ∀ x ∈ m.visited, x ∈ m'.visited) :
    unmet keys m' ≤ unmet keys m := by
  apply List.Sublist.length_le
  apply List.monotone_filter_right
  intro x hx
  simp only [decide_not, Bool.not_eq_true', decide_eq_false_iff_not] at hx ⊢
  exact fun hmem => hx (h x hmem)

theorem unmet_enter {keys : List α} {m : Marks α} {current : α} (hkey : current ∈ keys)
    (hnew : current ∉ m.visited) : unmet keys (m.enter current) < unmet keys m := by
  induction keys with
  | nil => cases hkey
  | cons x rest ih =>
    have hle : unmet rest (m.enter current) ≤ unmet rest m :=
      unmet_le rest fun y hy => List.mem_cons_of_mem _ hy
    simp only [unmet, Marks.enter] at ih hle ⊢
    by_cases heq : x = current
    · rw [heq, List.filter_cons_of_neg (by simp), List.filter_cons_of_pos (by simpa using hnew),
        List.length_cons]
      omega
    · have hlt := ih ((List.mem_cons.mp hkey).resolve_left (Ne.symm heq))
      by_cases hx : x ∈ m.visited
      · rw [List.filter_cons_of_neg (by simp [hx]), List.filter_cons_of_neg (by simp [hx])]
        exact hlt
      · rw [List.filter_cons_of_pos (by simp [hx, heq]), List.filter_cons_of_pos (by simp [hx]),
          List.length_cons, List.length_cons]
        omega

-- What a search from a clean state gives.
structure Searched (next : α → List α) (m : Marks α) (current : α)
    (answer : Bool × Marks α) : Prop where
  loop : answer.1 = true → (∀ x ∈ m.stack, ReflTransGen (Edge next) x current) →
    ∃ x, TransGen (Edge next) x x
  clean : answer.1 = false → Clean next answer.2
  stack : answer.1 = false → answer.2.stack = m.stack
  visited : answer.1 = false → ∀ x ∈ m.visited, x ∈ answer.2.visited
  current : answer.1 = false → current ∈ answer.2.visited

section Search

variable {next : α → List α} {keys : List α} {fuel : ℕ}

theorem scan_searched (current : α) {search : α → Marks α → Option (Bool × Marks α)}
    (hsearch : ∀ dep m, Clean next m → dep ∉ m.visited → unmet keys m < fuel →
      ∃ answer, search dep m = some answer ∧ Searched next m dep answer)
    (deps : List α) (hdeps : ∀ dep ∈ deps, Edge next current dep) (m : Marks α)
    (hclean : Clean next m) (hfuel : deps ≠ [] → unmet keys m < fuel) :
    ∃ answer, scan search deps m = some answer ∧
      (answer.1 = true → (∀ x ∈ m.stack, ReflTransGen (Edge next) x current) →
        ∃ x, TransGen (Edge next) x x) ∧
      (answer.1 = false → Clean next answer.2 ∧ answer.2.stack = m.stack ∧
        (∀ x ∈ m.visited, x ∈ answer.2.visited) ∧
        ∀ dep ∈ deps, dep ∈ answer.2.visited ∧ dep ∉ answer.2.stack) := by
  induction deps generalizing m with
  | nil => exact ⟨(false, m), rfl, by simp, fun _ => ⟨hclean, rfl, fun _ h => h, by simp⟩⟩
  | cons dep rest ih =>
    have hdep := hdeps dep List.mem_cons_self
    have hrest : ∀ x ∈ rest, Edge next current x := fun x hx => hdeps x (List.mem_cons_of_mem _ hx)
    have hfuel := hfuel (List.cons_ne_nil _ _)
    rw [scan]
    by_cases hstack : dep ∈ m.stack
    · rw [if_pos hstack]
      exact ⟨(true, m), rfl, fun _ hreach => ⟨dep, .tail' (hreach dep hstack) hdep⟩, by simp⟩
    · rw [if_neg hstack]
      by_cases hvisited : dep ∈ m.visited
      · rw [if_pos hvisited]
        obtain ⟨answer, hanswer, htrue, hfalse⟩ := ih hrest m hclean fun _ => hfuel
        refine ⟨answer, hanswer, htrue, fun hno => ?_⟩
        obtain ⟨hclean', hsame, hmono, hmet⟩ := hfalse hno
        refine ⟨hclean', hsame, hmono, fun x hx => ?_⟩
        rcases List.mem_cons.mp hx with rfl | hx
        · exact ⟨hmono x hvisited, hsame ▸ hstack⟩
        · exact hmet x hx
      · rw [if_neg hvisited]
        obtain ⟨⟨found, m'⟩, hfound, hspec⟩ := hsearch dep m hclean hvisited hfuel
        rw [hfound]
        cases found with
        | true =>
          exact ⟨(true, m'), rfl,
            fun _ hreach => hspec.loop rfl fun x hx => (hreach x hx).tail hdep, by simp⟩
        | false =>
          have hsame : m'.stack = m.stack := hspec.stack rfl
          have hfuel' := lt_of_le_of_lt (unmet_le keys (hspec.visited rfl)) hfuel
          obtain ⟨answer, hanswer, htrue, hfalse⟩ := ih hrest m' (hspec.clean rfl)
            fun _ => hfuel'
          refine ⟨answer, hanswer, fun hyes hreach => htrue hyes (hsame ▸ hreach),
            fun hno => ?_⟩
          obtain ⟨hclean', hsame', hmono, hmet⟩ := hfalse hno
          refine ⟨hclean', hsame'.trans hsame,
            fun x hx => hmono x (hspec.visited rfl x hx), fun x hx => ?_⟩
          rcases List.mem_cons.mp hx with rfl | hx
          · exact ⟨hmono _ (hspec.current rfl), hsame'.trans hsame ▸ hstack⟩
          · exact hmet x hx

-- Only the keys have neighbours: each call that makes another has met one more of them.
theorem detectCycle_searched (hkeys : ∀ x, next x ≠ [] → x ∈ keys) (fuel : ℕ) :
    ∀ current m, Clean next m → current ∉ m.visited → unmet keys m < fuel →
      ∃ answer, detectCycle next fuel current m = some answer ∧
        Searched next m current answer := by
  induction fuel with
  | zero => exact fun _ _ _ _ h => absurd h (Nat.not_lt_zero _)
  | succ fuel ih =>
    intro current m hclean hnew hfuel
    have hout : current ∉ m.stack := fun hmem => hnew (hclean.stack_visited current hmem)
    obtain ⟨⟨found, m'⟩, hscan, htrue, hfalse⟩ := scan_searched current ih
      (next current) (fun _ h => h) (m.enter current) (hclean.enter hnew) fun hne => by
        have hlt := unmet_enter (hkeys current hne) hnew
        omega
    rw [detectCycle, hscan]
    cases found with
    | true =>
      refine ⟨(true, m'), rfl, fun _ hreach => htrue rfl fun x hx => ?_, (nomatch ·),
        (nomatch ·), (nomatch ·), (nomatch ·)⟩
      rcases List.mem_cons.mp hx with rfl | hx
      · exact .refl
      · exact hreach x hx
    | false =>
      obtain ⟨hclean', hsame, hmono, hmet⟩ := hfalse rfl
      have hin : current ∈ m'.stack := hsame ▸ List.mem_cons_self
      have hleave : (m'.leave current).stack = m.stack := by
        show m'.stack.filter (· ≠ current) = m.stack
        rw [hsame, Marks.enter, List.filter_cons_of_neg (by simp), List.filter_eq_self]
        intro x hx
        simpa using fun heq : x = current => hout (heq ▸ hx)
      exact ⟨_, rfl, (nomatch ·), fun _ => hclean'.leave hin hmet, fun _ => hleave,
        fun _ x hx => hmono x (List.mem_cons_of_mem _ hx),
        fun _ => hmono current List.mem_cons_self⟩

theorem hasLoop_spec (hkeys : ∀ x, next x ≠ [] → x ∈ keys) (l : List α) (m : Marks α)
    (hclean : Clean next m) (hstack : m.stack = []) (hfuel : unmet keys m < fuel) :
    ∃ answer, hasLoop next fuel l m = some answer ∧
      (answer = true → ∃ x, TransGen (Edge next) x x) ∧
      (answer = false → ∀ x, x ∈ l ∨ x ∈ m.visited → ¬TransGen (Edge next) x x) := by
  induction l generalizing m with
  | nil =>
    refine ⟨false, rfl, by simp, fun _ x hx => ?_⟩
    exact hclean.acyclic x (hx.resolve_left (by simp)) (by simp [hstack])
  | cons x rest ih =>
    rw [hasLoop]
    by_cases hvisited : x ∈ m.visited
    · rw [if_pos hvisited]
      obtain ⟨answer, hanswer, htrue, hfalse⟩ := ih m hclean hstack hfuel
      refine ⟨answer, hanswer, htrue, fun hno y hy => hfalse hno y ?_⟩
      rcases hy with hy | hy
      · rcases List.mem_cons.mp hy with rfl | hy
        · exact .inr hvisited
        · exact .inl hy
      · exact .inr hy
    · rw [if_neg hvisited]
      obtain ⟨⟨found, m'⟩, hfound, hspec⟩ :=
        detectCycle_searched hkeys fuel x m hclean hvisited hfuel
      rw [hfound]
      cases found with
      | true => exact ⟨true, rfl, fun _ => hspec.loop rfl (by simp [hstack]), by simp⟩
      | false =>
        have hsame : m'.stack = m.stack := hspec.stack rfl
        have hfuel' := lt_of_le_of_lt (unmet_le keys (hspec.visited rfl)) hfuel
        obtain ⟨answer, hanswer, htrue, hfalse⟩ := ih m' (hspec.clean rfl)
          (hsame.trans hstack) hfuel'
        refine ⟨answer, hanswer, htrue, fun hno y hy => hfalse hno y ?_⟩
        rcases hy with hy | hy
        · rcases List.mem_cons.mp hy with rfl | hy
          · exact .inr (hspec.current rfl)
          · exact .inl hy
        · exact .inr (hspec.visited rfl y hy)

-- With more fuel than keys the search answers, and its answer does not depend on their order.
theorem hasLoop_iff (hkeys : ∀ x, next x ≠ [] → x ∈ keys) (hfuel : keys.length < fuel) :
    ∃ answer, hasLoop next fuel keys ⟨[], []⟩ = some answer ∧
      (answer = true ↔ ¬Acyclic (Edge next)) := by
  have hunmet : unmet keys (⟨[], []⟩ : Marks α) < fuel :=
    lt_of_le_of_lt (List.length_filter_le _ _) hfuel
  obtain ⟨answer, hanswer, htrue, hfalse⟩ := hasLoop_spec hkeys keys ⟨[], []⟩ clean_start rfl hunmet
  refine ⟨answer, hanswer, ?_⟩
  constructor
  · intro hyes hacyclic
    obtain ⟨x, hx⟩ := htrue hyes
    exact hacyclic x hx
  · intro hcyclic
    by_contra hno
    refine hcyclic fun x hx => ?_
    obtain ⟨y, hstep, -⟩ := TransGen.head'_iff.mp hx
    exact hfalse (eq_false_of_ne_true hno) x (.inl (hkeys x (List.ne_nil_of_mem hstep))) hx

end Search

end Glider.Lib.DepthFirst

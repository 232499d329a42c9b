import Mathlib.Data.List.Induction
import Mathlib.Data.List.TakeWhile

namespace Glider.Lib

variable {α : Type*} (p : α → Bool)

-- A longest piece of a text all of whose letters satisfy `p`.
def IsRun (text word : List α) : Prop :=
  word ≠ [] ∧ (∀ a ∈ word, p a = true) ∧ ∃ front back, text = front ++ word ++ back ∧
    (∀ a, front.getLast? = some a → p a = false) ∧ ∀ a, back.head? = some a → p a = false

-- The longest pieces from left to right.
def runs (text : List α) : List (List α) := (text.splitOnP fun a => !p a).filter (!·.isEmpty)

section Runs

variable {p} {a : α} {word front rest : List α}

theorem runs_nil : runs p ([] : List α) = [] := by
  rw [runs, List.splitOnP_nil]
  rfl

theorem runs_append_cons (ha : p a = false) :
    runs p (front ++ a :: rest) = runs p front ++ runs p rest := by
  rw [runs, List.splitOnP_append_cons _ _ (by rw [ha]; rfl), List.filter_append, runs, runs]

theorem runs_cons (ha : p a = false) : runs p (a :: rest) = runs p rest := by
  have hsplit := @runs_append_cons _ p a [] rest ha
  rw [runs_nil] at hsplit
  exact hsplit

theorem runs_word (hne : word ≠ []) (hword : ∀ b ∈ word, p b = true) : runs p word = [word] := by
  rw [runs, List.splitOnP_eq_singleton fun b hb => by rw [hword b hb]; rfl]
  cases word with
  | nil => exact absurd rfl hne
  | cons b word => rfl

theorem runs_word_append (hne : word ≠ []) (hword : ∀ b ∈ word, p b = true)
    (hrest : ∀ b, rest.head? = some b → p b = false) : runs p (word ++ rest) = word :: runs p rest := by
  cases rest with
  | nil => rw [List.append_nil, runs_word hne hword, runs_nil]
  | cons b rest =>
    rw [runs_append_cons (hrest b rfl), runs_word hne hword, runs_cons (hrest b rfl)]
    rfl

-- A text is taken apart into words and single letters that belong to none.
theorem run_induction {motive : List α → Prop} (nil : motive [])
    (cons : ∀ a rest, p a = false → motive rest → motive (a :: rest))
    (word : ∀ word rest, word ≠ [] → (∀ b ∈ word, p b = true) →
      (∀ b, rest.head? = some b → p b = false) → motive rest → motive (word ++ rest))
    (text : List α) : motive text := by
  obtain ⟨n, hn⟩ : ∃ n, n = text.length := ⟨_, rfl⟩
  induction n using Nat.strongRecOn generalizing text with
  | ind n ih =>
    cases text with
    | nil => exact nil
    | cons a rest =>
      rw [List.length_cons] at hn
      by_cases ha : p a = true
      · have htake : (a :: rest).takeWhile p = a :: rest.takeWhile p := List.takeWhile_cons_of_pos ha
        have hdrop : (a :: rest).dropWhile p = rest.dropWhile p := List.dropWhile_cons_of_pos ha
        rw [← List.takeWhile_append_dropWhile (p := p) (l := a :: rest)]
        apply word
        · rw [htake]
          exact List.cons_ne_nil _ _
        · exact fun b hb => List.mem_takeWhile_imp hb
        · intro b hb
          have hnot := List.head?_dropWhile_not p (a :: rest)
          rw [hb] at hnot
          exact hnot
        · rw [hdrop]
          have hlen := (List.dropWhile_sublist p (l := rest)).length_le
          exact ih _ (by omega) _ rfl
      · exact cons a rest (Bool.eq_false_iff.mpr ha) (ih rest.length (by omega) rest rfl)

theorem mem_runs_iff {text : List α} : word ∈ runs p text ↔ IsRun p text word := by
  constructor
  · induction text using run_induction (p := p) with
    | nil =>
      rw [runs_nil]
      exact nofun
    | cons a rest ha ih =>
      rw [runs_cons ha]
      intro hmem
      obtain ⟨hne, hword, front, back, rfl, hfront, hback⟩ := ih hmem
      refine ⟨hne, hword, a :: front, back, rfl, fun b hb => ?_, hback⟩
      cases front with
      | nil =>
        obtain rfl := Option.some.inj hb
        exact ha
      | cons c front => exact hfront b hb
    | word first rest hne hfirst hrest ih =>
      rw [runs_word_append hne hfirst hrest]
      intro hmem
      rcases List.mem_cons.mp hmem with rfl | hmem
      · exact ⟨hne, hfirst, [], rest, rfl, nofun, hrest⟩
      · obtain ⟨hne', hword, front, back, rfl, hfront, hback⟩ := ih hmem
        refine ⟨hne', hword, first ++ front, back, by simp only [List.append_assoc], ?_, hback⟩
        intro b hb
        cases front with
        | nil =>
          -- two words never touch
          obtain ⟨c, word', rfl⟩ := List.exists_cons_of_ne_nil hne'
          have hc := hword c List.mem_cons_self
          rw [hrest c rfl] at hc
          cases hc
        | cons c front =>
          rw [List.getLast?_append, List.getLast?_cons, Option.some_or, ← List.getLast?_cons] at hb
          exact hfront b hb
  · rintro ⟨hne, hword, front, back, rfl, hfront, hback⟩
    rw [List.append_assoc]
    cases front using List.reverseRecOn with
    | nil =>
      rw [List.nil_append, runs_word_append hne hword hback]
      exact List.mem_cons_self
    | append_singleton front a =>
      have ha : p a = false := hfront a (List.getLast?_concat ..)
      rw [List.append_assoc, List.singleton_append, runs_append_cons ha,
        runs_word_append hne hword hback]
      exact List.mem_append_right _ List.mem_cons_self

end Runs

end Glider.Lib

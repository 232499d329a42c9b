import Mathlib.Data.List.Basic
import Mathlib.Data.List.Nodup

namespace Glider.Lib

variable {α β ε : Type}

-- The only element of a list. Otherwise the error is made from how many there are.
def only (l : List α) (error : ℕ → ε) : Except ε α :=
  match l with
  | [a] => .ok a
  | l => .error (error l.length)

theorem only_eq_ok {l : List α} {error : ℕ → ε} {a : α} : only l error = .ok a ↔ l = [a] := by
  unfold only
  split
  · next b => simp
  · next hl =>
    refine iff_of_false nofun ?_
    rintro rfl
    exact hl a rfl

-- Checks that are made one after the other.
theorem bind_eq_ok {x : Except ε α} {f : α → Except ε β} {b : β} :
    (x >>= f) = .ok b ↔ ∃ a, x = .ok a ∧ f a = .ok b := by
  cases x with
  | error e => exact iff_of_false nofun (by simp)
  | ok a => simp [bind, Except.bind]

theorem forM_eq_ok {f : α → Except ε Unit} {l : List α} :
    l.forM f = .ok () ↔ ∀ a ∈ l, f a = .ok () := by
  induction l with
  | nil => simp [pure, Except.pure]
  | cons a l ih =>
    change (f a >>= fun _ => l.forM f) = _ ↔ _
    rw [bind_eq_ok, List.forall_mem_cons, ← ih]
    exact ⟨fun ⟨_, hfirst, hrest⟩ => ⟨hfirst, hrest⟩, fun ⟨hfirst, hrest⟩ => ⟨(), hfirst, hrest⟩⟩

-- The first value that was there before.
def firstRepeat [DecidableEq α] (seen : List α) : List α → Option α
  | [] => none
  | a :: rest => if a ∈ seen then some a else firstRepeat (a :: seen) rest

theorem firstRepeat_eq_none [DecidableEq α] {seen l : List α} :
    firstRepeat seen l = none ↔ l.Nodup ∧ ∀ a ∈ l, a ∉ seen := by
  induction l generalizing seen with
  | nil => simp [firstRepeat]
  | cons a rest ih =>
    unfold firstRepeat
    split
    · next hseen => simp [hseen]
    · next hseen =>
      rw [ih, List.nodup_cons]
      constructor
      · rintro ⟨hrest, hnew⟩
        refine ⟨⟨fun ha => hnew a ha List.mem_cons_self, hrest⟩, ?_⟩
        intro b hb
        obtain rfl | hb := List.mem_cons.mp hb
        · exact hseen
        · exact fun hbseen => hnew b hb (List.mem_cons_of_mem a hbseen)
      · rintro ⟨⟨hfresh, hrest⟩, hnew⟩
        refine ⟨hrest, fun b hb hmem => ?_⟩
        obtain rfl | hmem := List.mem_cons.mp hmem
        · exact hfresh hb
        · exact hnew b (List.mem_cons_of_mem a hb) hmem

-- A key that is there once leads to its element.
theorem filter_eq_singleton {κ : Type} [DecidableEq κ] {key : α → κ} {l : List α}
    (hnodup : (l.map key).Nodup) {a : α} (ha : a ∈ l) :
    l.filter (fun b => key b == key a) = [a] := by
  induction l with
  | nil => cases ha
  | cons b l ih =>
    rw [List.map_cons, List.nodup_cons] at hnodup
    obtain rfl | ha := List.mem_cons.mp ha
    · have hnone : l.filter (fun b => key b == key a) = [] := by
        rw [List.filter_eq_nil_iff]
        intro b hb hkey
        exact hnodup.1 (List.mem_map.mpr ⟨b, hb, by simpa using hkey⟩)
      simp [hnone]
    · have hne : key b ≠ key a := fun hkey =>
        hnodup.1 (hkey ▸ List.mem_map_of_mem ha)
      simpa [hne] using ih hnodup.2 ha

-- What the steps of a loop keep holds at its end, and so does what one of them brings about.
theorem foldlM_keeps {f : β → α → Option β} {P : β → Prop}
    (hkeeps : ∀ b a b', f b a = some b' → P b → P b') {l : List α} {b b' : β}
    (h : l.foldlM f b = some b') (hb : P b) : P b' := by
  induction l generalizing b with
  | nil =>
    obtain rfl := Option.some.inj h
    exact hb
  | cons a l ih =>
    obtain ⟨c, hc, h⟩ := Option.bind_eq_some_iff.mp h
    exact ih h (hkeeps b a c hc hb)

theorem foldlM_reaches {f : β → α → Option β} {P : β → Prop}
    (hkeeps : ∀ b a b', f b a = some b' → P b → P b') {a : α}
    (hmakes : ∀ b b', f b a = some b' → P b') {l : List α} (ha : a ∈ l) {b b' : β}
    (h : l.foldlM f b = some b') : P b' := by
  induction l generalizing b with
  | nil => cases ha
  | cons a' l ih =>
    obtain ⟨c, hc, hrest⟩ := Option.bind_eq_some_iff.mp h
    obtain rfl | ha := List.mem_cons.mp ha
    · exact foldlM_keeps hkeeps hrest (hmakes b c hc)
    · exact ih ha hrest

-- What a regular expression says of a stretch of a text, with what stands before and after it.
structure Pattern where
  spans : (before text after : List Char) → Bool

namespace Pattern

-- The whole of a text matches.
def wholeMatch (p : Pattern) (text : String) : Bool := p.spans [] text.toList []

-- Some stretch of the text matches.
def search (p : Pattern) (text : String) : Bool :=
  let chars := text.toList
  (List.range (chars.length + 1)).any fun first =>
    (List.range (chars.length + 1)).any fun size =>
      p.spans (chars.take first) ((chars.drop first).take size) (chars.drop (first + size))

theorem search_of_wholeMatch {p : Pattern} {text : String} (h : p.wholeMatch text = true) :
    p.search text = true := by
  unfold search
  rw [List.any_eq_true]
  refine ⟨0, by simp, List.any_eq_true.mpr ⟨text.toList.length, by simp, ?_⟩⟩
  simpa [wholeMatch] using h

-- The expression of a text without special characters.
def literal (word : String) : Pattern := ⟨fun _ text _ => text == word.toList⟩

end Pattern

end Glider.Lib

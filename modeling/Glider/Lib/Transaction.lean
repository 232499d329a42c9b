import Mathlib.Data.List.Basic
import Mathlib.Data.Int.Notation

namespace Glider.Lib

-- Content that is stored, and the view that the open transaction has of it.
structure Session (γ : Type*) where
  stored : γ
  view : Option γ

abbrev ErrorCode := { code : ℤ // code ≠ 0 }

inductive Statement (γ : Type*) where
  | begin
  | change (effect : γ → Except ErrorCode γ)
  | commit
  | rollback

-- A statement that fails for a reason outside the content. Some failures end the transaction.
structure Failure where
  code : ErrorCode
  ends : Bool

namespace Session

variable {γ : Type*}

def opened (content : γ) : Session γ := ⟨content, none⟩

-- An open transaction is rolled back.
def close (s : Session γ) : γ := s.stored

def fail (s : Session γ) (failure : Failure) : Session γ :=
  if failure.ends then { s with view := none } else s

def SQLITE_ERROR : ErrorCode := ⟨1, by decide⟩

-- Outside a transaction a change is stored at once.
def apply (s : Session γ) : Statement γ → Except ErrorCode (Session γ)
  | .begin =>
    match s.view with
    | none => .ok { s with view := some s.stored }
    | some _ => .error SQLITE_ERROR
  | .change effect =>
    match s.view with
    | none => (effect s.stored).map opened
    | some content => (effect content).map fun content => { s with view := some content }
  | .commit =>
    match s.view with
    | none => .error SQLITE_ERROR
    | some content => .ok (opened content)
  | .rollback =>
    match s.view with
    | none => .error SQLITE_ERROR
    | some _ => .ok { s with view := none }

-- One statement after the other, up to the first that fails. The failures are those of the
-- statements with these numbers.
def exec (failures : ℕ → Option Failure) : ℕ → List (Statement γ) → Session γ →
    Option ErrorCode × Session γ
  | _, [], s => (none, s)
  | n, statement :: rest, s =>
    match failures n with
    | some failure => (some failure.code, s.fail failure)
    | none =>
      match s.apply statement with
      | .error code => (some code, s)
      | .ok s => exec failures (n + 1) rest s

variable {failures : ℕ → Option Failure} {n : ℕ} {s : Session γ}

@[simp] theorem stored_fail (s : Session γ) (failure : Failure) :
    (s.fail failure).stored = s.stored := by
  unfold fail
  split <;> rfl

-- Either the changes have all come about and no transaction is open, or what is stored is as before.
def AllOrNothing (stored content : γ) (effects : List (γ → Except ErrorCode γ))
    (result : Option ErrorCode × Session γ) : Prop :=
  (result.1 = none ∧
    ∃ content', effects.foldlM (fun content effect => effect content) content = .ok content' ∧
      result.2 = opened content') ∨
  (result.1 ≠ none ∧ result.2.stored = stored)

theorem exec_in_transaction (stored content : γ) (effects : List (γ → Except ErrorCode γ)) :
    AllOrNothing stored content effects
      (exec failures n (effects.map Statement.change ++ [.commit]) ⟨stored, some content⟩) := by
  induction effects generalizing n content with
  | nil =>
    rw [List.map_nil, List.nil_append, exec]
    cases failures n with
    | some failure => exact Or.inr ⟨by simp, stored_fail _ _⟩
    | none => exact Or.inl ⟨rfl, content, rfl, rfl⟩
  | cons effect rest ih =>
    rw [List.map_cons, List.cons_append, exec]
    cases failures n with
    | some failure => exact Or.inr ⟨by simp, stored_fail _ _⟩
    | none =>
      simp only [apply]
      cases heffect : effect content with
      | error code => exact Or.inr ⟨by simp [Except.map], rfl⟩
      | ok content' =>
        have hrest := @ih (n + 1) content'
        unfold AllOrNothing at hrest ⊢
        rw [List.foldlM_cons, heffect]
        exact hrest

-- A script that opens a transaction, makes its changes and commits them makes all of them or none.
theorem exec_transaction (content : γ) (effects : List (γ → Except ErrorCode γ)) :
    AllOrNothing content content effects
      (exec failures n (.begin :: effects.map Statement.change ++ [.commit]) (opened content)) := by
  rw [List.cons_append, exec]
  cases failures n with
  | some failure => exact Or.inr ⟨by simp, stored_fail _ _⟩
  | none => exact exec_in_transaction content content effects

theorem stored_exec_rollback (s : Session γ) :
    (exec failures n [.rollback] s).2.stored = s.stored := by
  rw [exec]
  cases failures n with
  | some failure => exact stored_fail _ _
  | none =>
    unfold apply
    cases s.view <;> rfl

end Session

end Glider.Lib

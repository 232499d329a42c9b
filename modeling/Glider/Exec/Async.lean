import Mathlib.Data.List.Basic
import Glider.Lib.Counts
import Glider.Lib.Transition

namespace Glider.Exec

open Glider.Lib

-- A task is its owner with what it runs. What a task is made of is left open here.
abbrev Task (τ : Type) := String × τ

structure Async (τ : Type) where
  stopWorker : Bool
  tasks : List (Task τ)
  maxQueueSize : ℕ
  activeTasks : Counts String
  blockedOwners : Counts String

inductive EnqueueResult where
  | Accepted
  | QueueFullOrStopping
  | Rejected
deriving DecidableEq

-- What the admission predicate of a call does when it is asked.
inductive Admission where
  | absent
  | returns (admitted : Bool)
  | throws

-- How a call of `emplaceTaskIf` ends. There is no result when the predicate throws.
structure Attempt where
  result : Option EnqueueResult
  evaluated : Bool

namespace Async

variable {τ : Type}

def create (maxQueueSize : ℕ) : Async τ :=
  ⟨false, [], maxQueueSize, Counts.empty, Counts.empty⟩

def refuses (a : Async τ) (command : String) : Bool :=
  a.stopWorker || a.blockedOwners.contains command || decide (a.maxQueueSize ≤ a.tasks.length)

def push (a : Async τ) (command : String) (task : τ) : Async τ :=
  { a with tasks := a.tasks ++ [(command, task)] }

def emplaceTaskIf (a : Async τ) (command : String) (task : τ) (admission : Admission) :
    Attempt × Async τ :=
  if a.refuses command then
    (⟨some .QueueFullOrStopping, false⟩, a)
  else
    match admission with
    | .absent => (⟨some .Accepted, false⟩, a.push command task)
    | .returns true => (⟨some .Accepted, true⟩, a.push command task)
    | .returns false => (⟨some .Rejected, true⟩, a)
    | .throws => (⟨none, true⟩, a)

def emplaceTask (a : Async τ) (command : String) (task : τ) : Bool × Async τ :=
  let r := a.emplaceTaskIf command task .absent
  (r.1.result == some .Accepted, r.2)

-- The locked part of `cancel`, with the tasks it takes out to destroy them.
def cancel (a : Async τ) (owner : String) : List (Task τ) × Async τ :=
  if owner.isEmpty then
    ([], a)
  else
    let parts := a.tasks.partition fun task => task.1 == owner
    (parts.1, { a with tasks := parts.2, blockedOwners := a.blockedOwners.increment owner })

-- What `drain` waits for, and what it does in the same locked section.
def drained (a : Async τ) (owner : String) (currentAllowance : ℕ) : Bool :=
  match a.activeTasks owner with
  | none => true
  | some active => decide (active ≤ currentAllowance)

def unblock (a : Async τ) (owner : String) : Async τ :=
  { a with blockedOwners := a.blockedOwners.decrement owner }

-- The worker loop: taking the front task, and the accounting once it has returned.
def takeFront (a : Async τ) : Option (Task τ × Async τ) :=
  match a.tasks with
  | [] => none
  | front :: rest =>
    some (front, { a with tasks := rest, activeTasks := a.activeTasks.increment front.1 })

def finish (a : Async τ) (owner : String) : Async τ :=
  match a.activeTasks owner with
  | none => a
  | some 0 => a
  | some (n + 1) =>
    { a with activeTasks := Function.update a.activeTasks owner (if n = 0 then none else some n) }

@[simp] theorem push_tasks (a : Async τ) (command : String) (task : τ) :
    (a.push command task).tasks = a.tasks ++ [(command, task)] := rfl

@[simp] theorem finish_tasks (a : Async τ) (owner : String) : (a.finish owner).tasks = a.tasks := by
  unfold finish
  split <;> rfl

theorem refuses_iff {a : Async τ} (h : a.blockedOwners.Positive) (command : String) :
    a.refuses command = false ↔ a.stopWorker = false ∧ a.blockedOwners.value command = 0 ∧
      a.tasks.length < a.maxQueueSize := by
  have hc := h.contains_iff command
  rw [refuses, Bool.or_eq_false_iff, Bool.or_eq_false_iff, decide_eq_false_iff_not, Nat.not_le,
    and_assoc, ← Bool.not_eq_true (a.blockedOwners.contains command), hc, Nat.pos_iff_ne_zero,
    not_not]

-- A call either adds the task and says so, or leaves the executor as it was.
theorem emplaceTaskIf_cases (a : Async τ) (command : String) (task : τ) (admission : Admission) :
    (a.refuses command = false ∧ (admission = .absent ∨ admission = .returns true) ∧
      ∃ evaluated, a.emplaceTaskIf command task admission =
        (⟨some .Accepted, evaluated⟩, a.push command task)) ∨
    (∃ attempt, attempt.result ≠ some .Accepted ∧
      (attempt.evaluated = true → admission ≠ .returns true) ∧
      (a.refuses command = true → attempt = ⟨some .QueueFullOrStopping, false⟩) ∧
      a.emplaceTaskIf command task admission = (attempt, a)) := by
  unfold emplaceTaskIf
  cases hr : a.refuses command with
  | true => exact .inr ⟨_, by simp, by simp, fun _ => rfl, rfl⟩
  | false =>
    rw [if_neg Bool.false_ne_true]
    cases admission with
    | absent => exact .inl ⟨rfl, .inl rfl, _, rfl⟩
    | throws => exact .inr ⟨_, by simp, by simp, by simp, rfl⟩
    | returns admitted =>
      cases admitted with
      | true => exact .inl ⟨rfl, .inr rfl, _, rfl⟩
      | false => exact .inr ⟨_, by simp, by simp, by simp, rfl⟩

theorem emplaceTask_of_room {a : Async τ} {command : String} (h : a.refuses command = false)
    (task : τ) : a.emplaceTask command task = (true, a.push command task) := by
  rw [emplaceTask, emplaceTaskIf, h]
  rfl

theorem emplaceTask_of_refuses {a : Async τ} {command : String} (h : a.refuses command = true)
    (task : τ) : a.emplaceTask command task = (false, a) := by
  rw [emplaceTask, emplaceTaskIf, h]
  rfl

-- The predicate is asked only when its consent adds the task; the result says whether it was added.
theorem emplaceTaskIf_admission (a : Async τ) (command : String) (task : τ)
    (admission : Admission) :
    ((a.emplaceTaskIf command task admission).1.evaluated = true → admission = .returns true →
      (a.emplaceTaskIf command task admission).2.tasks = a.tasks ++ [(command, task)]) ∧
    ((a.emplaceTaskIf command task admission).1.result = some .Accepted ↔
      (a.emplaceTaskIf command task admission).2.tasks = a.tasks ++ [(command, task)]) := by
  rcases a.emplaceTaskIf_cases command task admission with
    ⟨-, -, evaluated, he⟩ | ⟨attempt, hne, hev, -, he⟩
  · rw [he]
    exact ⟨fun _ _ => rfl, fun _ => rfl, fun _ => rfl⟩
  · rw [he]
    refine ⟨fun h1 h2 => absurd h2 (hev h1), fun h1 => absurd h1 hne, fun h1 => ?_⟩
    have hlen := congrArg List.length h1
    simp at hlen

theorem cancel_empty (a : Async τ) : a.cancel "" = ([], a) := rfl

theorem cancel_of_ne {a : Async τ} {owner : String} (h : owner ≠ "") :
    a.cancel owner = (a.tasks.filter (fun task => task.1 == owner),
      { a with tasks := a.tasks.filter (fun task => !(task.1 == owner)),
               blockedOwners := a.blockedOwners.increment owner }) := by
  have he : owner.isEmpty = false := by simpa using h
  simp only [cancel, he, Bool.false_eq_true, if_false, List.partition_eq_filter_filter]
  rfl

theorem drained_iff (a : Async τ) (owner : String) (currentAllowance : ℕ) :
    a.drained owner currentAllowance = true ↔ a.activeTasks.value owner ≤ currentAllowance := by
  unfold drained Counts.value
  cases a.activeTasks owner with
  | none | some active => simp

theorem finish_eq {a : Async τ} (h : a.activeTasks.Positive) (owner : String) :
    a.finish owner = { a with activeTasks := a.activeTasks.decrement owner } := by
  unfold finish Counts.decrement
  cases ha : a.activeTasks owner with
  | none => rfl
  | some n =>
    cases n with
    | zero => exact absurd ha (h owner)
    | succ n =>
      by_cases hn : n = 0
      · subst hn
        rfl
      · have hle : ¬n + 1 ≤ 1 := by omega
        simp only [if_neg hn, if_neg hle, Nat.add_sub_cancel]

end Async

end Glider.Exec

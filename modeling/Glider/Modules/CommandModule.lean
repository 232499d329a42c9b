import Mathlib.Data.Nat.Notation

namespace Glider.Modules

-- The object of a module. `executionLock` is the number of shared leases and whether the exclusive
-- lease is out.
structure CommandModule where
  sharedLeases : ℕ
  exclusiveLease : Bool
  acceptingExecutions : Bool
  isLoaded : Bool

-- Where a thread is in `acquireExecutionLease`: before the first load of the flag, before the lock,
-- and before the second load.
inductive Acquiring where
  | called
  | accepted
  | locked
deriving DecidableEq

inductive Progress where
  | goesOn (next : Acquiring)
  | granted
  | refused

namespace CommandModule

def create : CommandModule := ⟨0, false, false, false⟩

def stopExecutions (m : CommandModule) : CommandModule := { m with acceptingExecutions := false }

def enableExecutions (m : CommandModule) : CommandModule := { m with acceptingExecutions := true }

def acquireShared (m : CommandModule) : Option CommandModule :=
  if m.exclusiveLease then none else some { m with sharedLeases := m.sharedLeases + 1 }

def releaseShared (m : CommandModule) (count : ℕ) : CommandModule :=
  { m with sharedLeases := m.sharedLeases - count }

-- The next access of `acquireExecutionLease`. A lease that is refused goes back at once.
def acquireExecutionLease (m : CommandModule) : Acquiring → Option (Progress × CommandModule)
  | .called => some (if m.acceptingExecutions then .goesOn .accepted else .refused, m)
  | .accepted => m.acquireShared.map fun m' => (.goesOn .locked, m')
  | .locked => some (if m.acceptingExecutions then (.granted, m) else (.refused, m.releaseShared 1))

def acquireExclusive (m : CommandModule) : Option CommandModule :=
  if m.sharedLeases = 0 ∧ m.exclusiveLease = false then some { m with exclusiveLease := true }
  else none

def releaseExclusive (m : CommandModule) : CommandModule := { m with exclusiveLease := false }

-- The part of `unload` under the exclusive lease, and the part of `load` before the flag is set.
def close (m : CommandModule) : CommandModule := { m with isLoaded := false }

def openImage (m : CommandModule) : CommandModule := { m with isLoaded := true }

variable {m m' : CommandModule} {stage : Acquiring} {progress : Progress}

-- What the lease is worth at each point: a share is held from the lock on, until it is refused.
def shares : Acquiring → ℕ
  | .locked => 1
  | _ => 0

def sharesAfter : Progress → ℕ
  | .goesOn next => shares next
  | .granted => 1
  | .refused => 0

-- The access that a thread makes, with what it may rely on.
theorem acquireExecutionLease_cases (h : m.acquireExecutionLease stage = some (progress, m')) :
    (stage = .called ∧ m' = m ∧ (progress = .goesOn .accepted ∨ progress = .refused)) ∨
    (stage = .accepted ∧ progress = .goesOn .locked ∧
      m' = { m with sharedLeases := m.sharedLeases + 1 }) ∨
    (stage = .locked ∧ m.acceptingExecutions = true ∧ progress = .granted ∧ m' = m) ∨
    (stage = .locked ∧ progress = .refused ∧ m' = m.releaseShared 1) := by
  cases stage with
  | called =>
    obtain ⟨rfl, rfl⟩ := Prod.mk.inj (Option.some_inj.mp h)
    refine .inl ⟨rfl, rfl, ?_⟩
    cases m.acceptingExecutions with
    | true => exact .inl rfl
    | false => exact .inr rfl
  | accepted =>
    obtain ⟨locked, hl, heq⟩ := Option.map_eq_some_iff.mp h
    obtain ⟨rfl, rfl⟩ := Prod.mk.inj heq
    unfold acquireShared at hl
    split at hl
    · exact absurd hl nofun
    · exact .inr (.inl ⟨rfl, rfl, (Option.some_inj.mp hl).symm⟩)
  | locked =>
    have h' := Option.some_inj.mp h
    cases ha : m.acceptingExecutions with
    | true =>
      rw [ha, if_pos rfl] at h'
      obtain ⟨rfl, rfl⟩ := Prod.mk.inj h'
      exact .inr (.inr (.inl ⟨rfl, rfl, rfl, rfl⟩))
    | false =>
      rw [ha, if_neg Bool.false_ne_true] at h'
      obtain ⟨rfl, rfl⟩ := Prod.mk.inj h'
      exact .inr (.inr (.inr ⟨rfl, rfl, rfl⟩))

theorem acquireExecutionLease_flags (h : m.acquireExecutionLease stage = some (progress, m')) :
    m'.acceptingExecutions = m.acceptingExecutions ∧
    (progress = .granted → m.acceptingExecutions = true) := by
  rcases acquireExecutionLease_cases h with ⟨rfl, rfl, rfl | rfl⟩ | ⟨rfl, rfl, rfl⟩ |
    ⟨rfl, ha, rfl, rfl⟩ | ⟨rfl, rfl, rfl⟩
  · exact ⟨rfl, nofun⟩
  · exact ⟨rfl, nofun⟩
  · exact ⟨rfl, nofun⟩
  · exact ⟨rfl, fun _ => ha⟩
  · exact ⟨rfl, nofun⟩

theorem acquireExecutionLease_leases (h : m.acquireExecutionLease stage = some (progress, m'))
    (hpos : shares stage ≤ m.sharedLeases) :
    m'.sharedLeases + shares stage = m.sharedLeases + sharesAfter progress := by
  rcases acquireExecutionLease_cases h with ⟨rfl, rfl, rfl | rfl⟩ | ⟨rfl, rfl, rfl⟩ |
    ⟨rfl, -, rfl, rfl⟩ | ⟨rfl, rfl, rfl⟩
  · rfl
  · rfl
  · rfl
  · rfl
  · simp only [releaseShared, shares, sharesAfter] at hpos ⊢
    omega

theorem acquireExclusive_eq_some (h : m.acquireExclusive = some m') :
    m.sharedLeases = 0 ∧ m' = { m with exclusiveLease := true } := by
  unfold acquireExclusive at h
  split at h
  next hc => exact ⟨hc.1, (Option.some_inj.mp h).symm⟩
  · exact absurd h nofun

end CommandModule

end Glider.Modules

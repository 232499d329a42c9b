import Glider.Lib.Json
import Glider.Lib.Keyboard

namespace Glider.Builder

open Glider.Lib
open Bytes (ascii)

-- How `stage` ends when it stages nothing: with a reply, or by an exception.
inductive Exit where
  | refused (text : Bytes)
  | threw (what : Bytes)

-- What was written before an exit stays written.
abbrev Staging (σ α : Type) := EStateM Exit σ α

namespace Staging

variable {σ α β : Type}

def checked (x : Except Bytes α) : Staging σ α :=
  match x with
  | .ok a => pure a
  | .error what => throw (.threw what)

def refuse (text : Bytes) : Staging σ α := throw (.refused text)

theorem bind_eq_ok {x : Staging σ α} {f : α → Staging σ β} {s s' : σ} {b : β} :
    (x >>= f) s = .ok b s' ↔ ∃ a t, x s = .ok a t ∧ f a t = .ok b s' := by
  show EStateM.bind x f s = .ok b s' ↔ _
  unfold EStateM.bind
  cases x s with
  | ok a t | error e t => simp

theorem modify_eq_ok {f : σ → σ} {s s' : σ} {u : PUnit} :
    (modify f : Staging σ PUnit) s = .ok u s' ↔ f s = s' := by
  show EStateM.Result.ok _ _ = _ ↔ _
  simp

theorem checked_eq_ok {x : Except Bytes α} {s s' : σ} {a : α} :
    (checked x : Staging σ α) s = .ok a s' ↔ x = .ok a ∧ s = s' := by
  cases x with
  | ok b =>
    show EStateM.Result.ok b s = _ ↔ _
    simp
  | error what =>
    show EStateM.Result.error _ s = _ ↔ _
    simp

theorem pure_eq_ok {s s' : σ} {a b : α} :
    (pure a : Staging σ α) s = .ok b s' ↔ a = b ∧ s = s' := by
  show EStateM.Result.ok a s = _ ↔ _
  simp

theorem get_eq_ok {s s' t : σ} : (get : Staging σ σ) s = .ok t s' ↔ s = t ∧ s = s' := by
  show EStateM.Result.ok s s = _ ↔ _
  simp

end Staging

-- `fmt::join`.
def join (separator : String) (texts : List Bytes) : Bytes :=
  List.intercalate (ascii separator) texts

def boolText (b : Bool) : Bytes := if b then ascii "true" else ascii "false"

def intOfBool (b : Bool) : Int := if b then 1 else 0

end Glider.Builder

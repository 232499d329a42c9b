import Glider.Lib.Transition
import Mathlib.Data.List.Basic

namespace Glider.Lib

-- What a handler makes of an input: its next state, what it says, the message it renders and the
-- request it sends.
structure Reaction (σ τ ν ρ : Type*) where
  next : σ
  said : List τ
  shown : Option ν
  sent : Option ρ

namespace Keyboard

-- A press comes with the answers of the world outside.
inductive Input (κ β ε : Type*) where
  | command (c : κ)
  | press (k : ℕ) (button : β) (world : ε)

-- A handler with messages `ν` that have buttons `β`. Its plan is the part of the state that a
-- message may be about. A press is `none` where it reads what is not set.
structure Handler (σ τ κ β ε ν ρ π : Type*) where
  plan : σ → π
  buttons : ν → List β
  command : σ → κ → Reaction σ τ ν ρ
  press : σ → ν → β → ε → Option (Reaction σ τ ν ρ)

-- A handler and everything it has rendered. `since` counts what was rendered before the plan took
-- its present value; `answered` are the presses that sent a request.
structure Session (σ β ν ρ : Type*) where
  state : σ
  shown : List ν
  since : ℕ
  answered : List (ν × β × ρ)
  crashed : Bool

variable {σ τ κ β ε ν ρ π : Type*} [DecidableEq β] [DecidableEq π]

namespace Session

variable (h : Handler σ τ κ β ε ν ρ π)

def start (state : σ) : Session σ β ν ρ := ⟨state, [], 0, [], false⟩

def take (s : Session σ β ν ρ) (r : Reaction σ τ ν ρ) : Session σ β ν ρ :=
  { s with
    state := r.next
    shown := s.shown ++ r.shown.toList
    since := if h.plan r.next = h.plan s.state then s.since else s.shown.length }

def answer (s : Session σ β ν ρ) (pressed : ν) (button : β) (sent : Option ρ) :
    Session σ β ν ρ :=
  { s with answered := sent.toList.map (fun request => (pressed, button, request)) ++ s.answered }

-- Any message that was ever rendered may have been pressed while it was on screen.
def step : Transition (Session σ β ν ρ) (Input κ β ε)
  | s, .command c => if s.crashed then none else some (s.take h (h.command s.state c))
  | s, .press k button world =>
    match s.crashed, s.shown[k]? with
    | false, some message =>
      if button ∈ h.buttons message then
        match h.press s.state message button world with
        | none => some { s with crashed := true }
        | some r => some ((s.take h r).answer message button r.sent)
      else none
    | _, _ => none

end Session

section Honest

variable (agrees : ν → β → ρ → Prop)

-- Nothing unset was read, and every request is what the pressed message says.
structure Honest (s : Session σ β ν ρ) : Prop where
  alive : s.crashed = false
  agreed : ∀ a ∈ s.answered, agrees a.1 a.2.1 a.2.2

-- `allowed` has to know whether the plan has changed since the message was rendered.
def Allowed (allowed : σ → ν → β → Bool → Prop) (s : Session σ β ν ρ) : Input κ β ε → Prop
  | .command _ => True
  | .press k button _ => ∀ message ∈ s.shown[k]?, allowed s.state message button (decide (s.since ≤ k))

instance (allowed : σ → ν → β → Bool → Prop)
    [∀ state message button fresh, Decidable (allowed state message button fresh)]
    (s : Session σ β ν ρ) :
    (i : Input κ β ε) → Decidable (Allowed allowed s i)
  | .command _ => inferInstanceAs (Decidable True)
  | .press k button _ =>
    inferInstanceAs
      (Decidable (∀ message ∈ s.shown[k]?, allowed s.state message button (decide (s.since ≤ k))))

variable {agrees} (h : Handler σ τ κ β ε ν ρ π) (fits : π → ν → Prop)

-- What was rendered for the present plan fits it.
def Fresh (s : Session σ β ν ρ) : Prop :=
  ∀ k message, s.shown[k]? = some message → s.since ≤ k → fits (h.plan s.state) message

variable {h fits}

omit [DecidableEq β] in
theorem Fresh.take {s : Session σ β ν ρ} (hs : Fresh h fits s) {r : Reaction σ τ ν ρ}
    (hr : ∀ message ∈ r.shown, fits (h.plan r.next) message) : Fresh h fits (s.take h r) := by
  intro k message hk hsince
  simp only [Session.take] at hk hsince ⊢
  by_cases hlt : k < s.shown.length
  · rw [List.getElem?_append_left hlt] at hk
    by_cases hplan : h.plan r.next = h.plan s.state
    · rw [if_pos hplan] at hsince
      rw [hplan]
      exact hs k message hk hsince
    · rw [if_neg hplan] at hsince
      omega
  · rw [List.getElem?_append_right (by omega)] at hk
    exact hr message (Option.mem_toList.mp (List.mem_of_getElem? hk))

-- The rule: what is rendered fits the plan, and an allowed press of what fits it is in order.
theorem honest_of_guarded {allowed : σ → ν → β → Bool → Prop}
    (hcommand : ∀ state c, ∀ message ∈ (h.command state c).shown,
      fits (h.plan (h.command state c).next) message)
    (hpress : ∀ state message button world r, h.press state message button world = some r →
      ∀ message' ∈ r.shown, fits (h.plan r.next) message')
    (hallowed : ∀ state message button world fresh, button ∈ h.buttons message →
      (fresh = true → fits (h.plan state) message) → allowed state message button fresh →
      ∃ r, h.press state message button world = some r ∧
        ∀ request ∈ r.sent, agrees message button request)
    {state : σ} {inputs : List (Input κ β ε)} {s : Session σ β ν ρ}
    (hg : Transition.Guarded (Session.step h) (Allowed allowed) (Session.start state) inputs)
    (hp : Transition.path (Session.step h) (Session.start state) inputs = some s) :
    Honest agrees s := by
  suffices hgood : Honest agrees s ∧ Fresh h fits s from hgood.1
  refine Transition.path_invariant (fun s => Honest agrees s ∧ Fresh h fits s) ?_ ?_ hg hp
  · rintro s (c | ⟨k, button, world⟩) t ⟨⟨halive, hagreed⟩, hfresh⟩ hguard hstep
    · simp only [Session.step, halive, Bool.false_eq_true, if_false, Option.some.injEq] at hstep
      subst hstep
      exact ⟨⟨halive, hagreed⟩, hfresh.take (hcommand s.state c)⟩
    · simp only [Session.step, halive] at hstep
      cases hk : s.shown[k]? with
      | none => simp [hk] at hstep
      | some message =>
        by_cases hbutton : button ∈ h.buttons message
        · simp only [hk, hbutton, if_true] at hstep
          obtain ⟨r, hr, hsent⟩ := hallowed s.state message button world _ hbutton
            (fun hsince => hfresh k message hk (of_decide_eq_true hsince)) (hguard message hk)
          simp only [hr, Option.some.injEq] at hstep
          subst hstep
          refine ⟨⟨halive, ?_⟩, hfresh.take (hpress _ _ _ _ _ hr)⟩
          intro a ha
          rcases List.mem_append.mp ha with ha | ha
          · obtain ⟨request, hrequest, rfl⟩ := List.mem_map.mp ha
            exact hsent request (Option.mem_toList.mp hrequest)
          · exact hagreed a ha
        · simp [hk, hbutton] at hstep
  · refine ⟨⟨rfl, by simp [Session.start]⟩, ?_⟩
    intro k message hk
    simp [Session.start] at hk

end Honest

end Keyboard

end Glider.Lib

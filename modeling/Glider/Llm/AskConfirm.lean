import Mathlib.Logic.Function.Basic
import Glider.Lib.History
import Glider.Lib.Json
import Glider.Lib.Transition

namespace Glider.Llm.AskConfirm

open Glider.Lib
open Bytes (ascii)

def kAskConfirmPrefix : Bytes := ascii "ask_confirm:"

structure ConfirmationAnswer where
  choice : Bytes
  presser : Bytes
  deriving DecidableEq

-- What an executor is made with. `auth` says whether an `AuthContext` was supplied, `recorder`
-- whether there is something to record an approval with.
structure Setup where
  chatId : ℤ
  initiatingUserId : ℤ
  auth : Bool
  recorder : Bool

-- The part of a confirmation that never changes.
structure Request where
  setup : Setup
  token : Bytes
  question : Bytes
  action : Option (Bytes × Json)

def invalidInput (what : Bytes) : Bytes := ascii "Invalid tool input: " ++ what

def readAction (setup : Setup) (input : Json) : Except Bytes (Option (Bytes × Json)) :=
  let hasActionTool := input.contains (ascii "action_tool")
  let hasActionInput := input.contains (ascii "action_input")
  if hasActionTool ≠ hasActionInput then
    .error (ascii "action_tool and action_input must be supplied together")
  else if hasActionTool then do
    let actionTool ← (← input.at? (ascii "action_tool")).getString
    let actionInput ← input.at? (ascii "action_input")
    if actionInput.isObject = false then
      .error (ascii "action_input must be an object")
    else if setup.recorder = false then
      .error (ascii "this confirmation cannot bind an action")
    else
      .ok (some (actionTool, actionInput))
  else .ok none

def readInput (setup : Setup) (input : Json) : Except Bytes (Bytes × Option (Bytes × Json)) := do
  let question ← (← input.at? (ascii "question")).getString
  let action ← readAction setup input
  return (question, action)

-- `{chatId}_{counter}`, the counter having 64 bits.
def makeToken (chatId : ℤ) (counter : ℕ) : Bytes :=
  ascii (toString chatId) ++ ascii "_" ++ ascii (toString (counter % 2 ^ 64))

-- The rest of a callback's data behind the marker of this tool: a token and a choice.
def parseData (data : Bytes) : Option (Bytes × Bytes) :=
  if kAskConfirmPrefix <+: data then
    let data := data.drop kAskConfirmPrefix.length
    if 58 ∈ data then some (data.takeWhile (· ≠ 58), (data.dropWhile (· ≠ 58)).tail) else none
  else none

structure User where
  id : ℤ
  firstName : Bytes
  lastName : Option Bytes

def displayName (user : User) : Bytes :=
  match user.lastName with
  | some lastName => user.firstName ++ ascii " " ++ lastName
  | none => user.firstName

structure Query where
  data : Bytes
  sender : Option User

-- How far an executor has come. A reply comes with the error flag.
inductive Phase where
  | allocated
  | registered
  | sendFailed (what : Bytes)
  | closedAfterFailure (what : Bytes)
  | waiting
  | closing (resultSnapshot : Option ConfirmationAnswer)
  | erased (resultSnapshot : Option ConfirmationAnswer)
  | returned (reply : Bytes) (isError : Bool)
  | threw
  deriving DecidableEq

def Phase.left : Phase → Bool
  | returned _ _ | threw => true
  | _ => false

-- The registry may still lead to the confirmation.
def Phase.live : Phase → Bool
  | registered | sendFailed _ | closedAfterFailure _ | waiting | closing _ => true
  | _ => false

-- An executor with its `PendingConfirmation`.
structure Ask where
  request : Request
  closed : Bool
  result : Option ConfirmationAnswer
  phase : Phase

-- A callback that has found its confirmation; `authorized` is what the check has said.
structure Callback where
  query : Query
  choice : Bytes
  ask : ℕ
  authorized : Option Bool

structure Press where
  query : Query
  authorized : Bool

inductive Event where
  | accepted (ask : ℕ) (press : Press)
  | closed (ask : ℕ)
  | approval (ask : ℕ) (tool : Bytes) (input : Json)
  | callbackAnswer (text : Bytes) (alert : Bool)

structure State where
  counter : ℕ
  registry : Bytes → Option ℕ
  asks : ℕ → Option Ask
  callbacks : ℕ → Option Callback
  history : List Event

def State.start : State := ⟨0, fun _ => none, fun _ => none, fun _ => none, []⟩

-- The steps of any number of executors and callbacks, each named by its number. The locks are held
-- within a step only.
inductive Step where
  | begin (ask : ℕ) (setup : Setup) (input : Json)
  | emplace (ask : ℕ)
  | send (ask : ℕ) (error : Option Bytes)
  | closeAfterFailure (ask : ℕ)
  | eraseAfterFailure (ask : ℕ)
  | endWait (ask : ℕ)
  | erase (ask : ℕ)
  | conclude (ask : ℕ) (stopRequested : Bool) (bound : Option Bool)
  | deliver (callback : ℕ) (query : Query)
  | check (callback : ℕ) (authorized : Bool)
  | record (callback : ℕ)

namespace State

def setAsk (s : State) (i : ℕ) (ask : Ask) : State :=
  { s with asks := Function.update s.asks i (some ask) }

def setCallback (s : State) (k : ℕ) (callback : Option Callback) : State :=
  { s with callbacks := Function.update s.callbacks k callback }

def eraseToken (s : State) (token : Bytes) : State :=
  { s with registry := Function.update s.registry token none }

def log (s : State) (event : Event) : State := { s with history := event :: s.history }

def answerCallback (s : State) (text : Bytes) (alert : Bool) : State :=
  s.log (.callbackAnswer text alert)

def begin (s : State) (i : ℕ) (setup : Setup) (input : Json) : State :=
  match readInput setup input with
  | .error what =>
    s.setAsk i ⟨⟨setup, [], [], none⟩, false, none, .returned (invalidInput what) true⟩
  | .ok (question, action) =>
    { s with counter := s.counter + 1 }.setAsk i
      ⟨⟨setup, makeToken setup.chatId s.counter, question, action⟩, false, none, .allocated⟩

def emplace (s : State) (i : ℕ) (ask : Ask) : State :=
  let s := s.setAsk i { ask with phase := .registered }
  match s.registry ask.request.token with
  | some _ => s
  | none => { s with registry := Function.update s.registry ask.request.token (some i) }

def noResponse (stopRequested : Bool) : Phase :=
  if stopRequested then
    .returned (ascii ("confirmation cancelled because the /ask work was " ++
      "cancelled; do not execute the action")) true
  else
    .returned (ascii ("no_response: the human did not press a button within 90 " ++
      "seconds; treat this as unresolved, not as a decision - " ++
      "ask again or proceed cautiously")) false

-- The end of the executor; `bound` is what the recorder does when it is asked.
def conclude (s : State) (i : ℕ) (ask : Ask) (resultSnapshot : Option ConfirmationAnswer)
    (stopRequested : Bool) (bound : Option Bool) : State :=
  match resultSnapshot with
  | none => s.setAsk i { ask with phase := noResponse stopRequested }
  | some answer =>
    if answer.choice = ascii "y" then
      match ask.request.action with
      | none => s.setAsk i { ask with phase := .returned (ascii "yes") false }
      | some (tool, input) =>
        let s := s.log (.approval i tool input)
        match bound with
        | none => s.setAsk i { ask with phase := .threw }
        | some false =>
          s.setAsk i { ask with
            phase := .returned (ascii ("yes, but approval could not be bound to that " ++
              "action; do not execute it")) true }
        | some true => s.setAsk i { ask with phase := .returned (ascii "yes") false }
    else if answer.choice = ascii "n" then
      s.setAsk i { ask with phase := .returned (ascii "no") false }
    else s.setAsk i { ask with phase := .returned (ascii "cancel") false }

-- The first part of `handleCallback`, up to the lookup.
def deliver (s : State) (k : ℕ) (query : Query) : State :=
  match parseData query.data with
  | none => s
  | some (token, choice) =>
    match s.registry token with
    | none => s.answerCallback (ascii "This confirmation has expired.") true
    | some i => s.setCallback k (some ⟨query, choice, i, none⟩)

def check (s : State) (k : ℕ) (callback : Callback) (request : Request) (authorized : Bool) :
    State :=
  let isInitiator := callback.query.sender.map User.id = some request.setup.initiatingUserId
  let remainsAuthorized := request.setup.auth = false ∨ authorized
  if ¬isInitiator ∨ ¬remainsAuthorized then
    (s.setCallback k none).answerCallback
      (ascii "Only the initiating admin can answer this confirmation.") true
  else if callback.choice ≠ ascii "y" ∧ callback.choice ≠ ascii "n" ∧
      callback.choice ≠ ascii "c" then
    (s.setCallback k none).answerCallback (ascii "Invalid confirmation choice.") true
  else s.setCallback k (some { callback with authorized := some authorized })

def record (s : State) (k : ℕ) (callback : Callback) (ask : Ask) (authorized : Bool) : State :=
  let s := s.setCallback k none
  if ask.closed = false ∧ ask.result = none then
    let presser := (callback.query.sender.map displayName).getD []
    ((s.setAsk callback.ask { ask with
        result := some ⟨callback.choice, presser⟩
        closed := true }).log
      (.accepted callback.ask ⟨callback.query, authorized⟩)).answerCallback (ascii "Recorded.") false
  else
    s.answerCallback (ascii "This confirmation was already answered or has expired.") true

end State

def step : Transition State Step
  | s, .begin i setup input => if (s.asks i).isNone then some (s.begin i setup input) else none
  | s, .emplace i =>
    (s.asks i).bind fun ask =>
      if ask.phase = .allocated then some (s.emplace i ask) else none
  | s, .send i error =>
    (s.asks i).bind fun ask =>
      if ask.phase = .registered then
        match error with
        | none => some (s.setAsk i { ask with phase := .waiting })
        | some what => some (s.setAsk i { ask with phase := .sendFailed what })
      else none
  | s, .closeAfterFailure i =>
    (s.asks i).bind fun ask =>
      match ask.phase with
      | .sendFailed what =>
        some ((s.setAsk i { ask with
          closed := true
          phase := .closedAfterFailure what }).log (.closed i))
      | _ => none
  | s, .eraseAfterFailure i =>
    (s.asks i).bind fun ask =>
      match ask.phase with
      | .closedAfterFailure what =>
        some ((s.eraseToken ask.request.token).setAsk i { ask with
          phase := .returned (ascii "Failed to send confirmation prompt: " ++ what) true })
      | _ => none
  | s, .endWait i =>
    (s.asks i).bind fun ask =>
      if ask.phase = .waiting then
        some ((s.setAsk i { ask with
          closed := true
          phase := .closing ask.result }).log (.closed i))
      else none
  | s, .erase i =>
    (s.asks i).bind fun ask =>
      match ask.phase with
      | .closing resultSnapshot =>
        some ((s.eraseToken ask.request.token).setAsk i
          { ask with phase := .erased resultSnapshot })
      | _ => none
  | s, .conclude i stopRequested bound =>
    (s.asks i).bind fun ask =>
      match ask.phase with
      | .erased resultSnapshot => some (s.conclude i ask resultSnapshot stopRequested bound)
      | _ => none
  | s, .deliver k query => if (s.callbacks k).isNone then some (s.deliver k query) else none
  | s, .check k authorized =>
    (s.callbacks k).bind fun callback =>
      if callback.authorized.isNone then
        (s.asks callback.ask).map fun ask => s.check k callback ask.request authorized
      else none
  | s, .record k =>
    (s.callbacks k).bind fun callback =>
      callback.authorized.bind fun authorized =>
        (s.asks callback.ask).map fun ask => s.record k callback ask authorized

def State.request (s : State) (i : ℕ) : Option Request := (s.asks i).map Ask.request

-- A press on the confirmation's own token, by the user it was made for, who passed the check.
structure Press.Valid (p : Press) (r : Request) (choice : Bytes) : Prop where
  token : parseData p.query.data = some (r.token, choice)
  initiator : p.query.sender.map User.id = some r.setup.initiatingUserId
  authorized : r.setup.auth = true → p.authorized = true

-- What must have happened before a press is accepted and before an approval is recorded.
def Justified (request : ℕ → Option Request) : Event → List Event → Prop
  | .accepted i p, older =>
    .closed i ∉ older ∧ (∀ p', .accepted i p' ∉ older) ∧
      ∃ r choice, request i = some r ∧ p.Valid r choice
  | .approval i tool input, older =>
    ∃ r p, request i = some r ∧ .accepted i p ∈ older ∧ p.Valid r (ascii "y") ∧
      r.action = some (tool, input)
  | _, _ => True

-- The facts about one executor that its own steps rely on.
structure Ask.Good (ask : Ask) (i : ℕ) (history : List Event) : Prop where
  fresh : ask.closed = false → .closed i ∉ history ∧ ∀ p, .accepted i p ∉ history
  answered : ∀ answer, ask.result = some answer →
    ∃ p, .accepted i p ∈ history ∧ p.Valid ask.request answer.choice
  snapshot : ∀ resultSnapshot, ask.phase = .closing resultSnapshot ∨
    ask.phase = .erased resultSnapshot → resultSnapshot = ask.result ∧ ask.closed = true

structure Inv (s : State) : Prop where
  registry : ∀ token i, s.registry token = some i →
    ∃ ask, s.asks i = some ask ∧ ask.request.token = token ∧ ask.phase.live = true
  callback : ∀ k callback, s.callbacks k = some callback →
    ∃ r, s.request callback.ask = some r ∧
      parseData callback.query.data = some (r.token, callback.choice) ∧
      ∀ authorized, callback.authorized = some authorized →
        callback.query.sender.map User.id = some r.setup.initiatingUserId ∧
          (r.setup.auth = true → authorized = true)
  absent : ∀ i, s.asks i = none → .closed i ∉ s.history ∧ ∀ p, .accepted i p ∉ s.history
  good : ∀ i ask, s.asks i = some ask → ask.Good i s.history
  explained : Explained (Justified s.request) s.history

theorem Inv.start : Inv State.start where
  registry := by simp [State.start]
  callback := by simp [State.start]
  absent := by simp [State.start]
  good := by simp [State.start]
  explained := trivial

section Requests

variable {s t : State} {i : ℕ} {ask : Ask} {request request' : ℕ → Option Request}

-- Requests are made and then never change.
def Extends (request request' : ℕ → Option Request) : Prop :=
  ∀ i r, request i = some r → request' i = some r

theorem Justified.mono (h : Extends request request') {event : Event} {older : List Event}
    (hj : Justified request event older) : Justified request' event older := by
  cases event with
  | accepted i p =>
    obtain ⟨hopen, honce, r, choice, hr, hvalid⟩ := hj
    exact ⟨hopen, honce, r, choice, h i r hr, hvalid⟩
  | approval i tool input =>
    obtain ⟨r, p, hr, hrest⟩ := hj
    exact ⟨r, p, h i r hr, hrest⟩
  | closed i | callbackAnswer text alert => trivial

theorem extends_setAsk (h : ∀ old, s.asks i = some old → old.request = ask.request) :
    Extends s.request (s.setAsk i ask).request := by
  intro j r hr
  by_cases hj : j = i
  · subst hj
    obtain ⟨old, hold, rfl⟩ := Option.map_eq_some_iff.mp hr
    simp [State.request, State.setAsk, h old hold]
  · simpa [State.request, State.setAsk, Function.update_of_ne hj] using hr

end Requests

section Preservation

variable {s : State} {i k : ℕ} {ask : Ask} {event : Event}

-- The event does not open or close the confirmation `j`.
def Event.Spares (event : Event) (j : ℕ) : Prop := event ≠ .closed j ∧ ∀ p, event ≠ .accepted j p

theorem Ask.Good.cons {j : ℕ} {history : List Event} (h : ask.Good j history)
    (hspares : event.Spares j) : ask.Good j (event :: history) where
  fresh := by
    intro hclosed
    obtain ⟨hopen, hnone⟩ := h.fresh hclosed
    refine ⟨?_, fun p => ?_⟩
    · exact List.not_mem_cons_of_ne_of_not_mem hspares.1.symm hopen
    · exact List.not_mem_cons_of_ne_of_not_mem (hspares.2 p).symm (hnone p)
  answered := by
    intro answer hanswer
    obtain ⟨p, hp, hvalid⟩ := h.answered answer hanswer
    exact ⟨p, List.mem_cons_of_mem _ hp, hvalid⟩
  snapshot := h.snapshot

theorem Ask.Good.append {j : ℕ} {events history : List Event} (h : ask.Good j history)
    (hspares : ∀ e ∈ events, e.Spares j) : ask.Good j (events ++ history) := by
  induction events with
  | nil => exact h
  | cons event rest ih =>
    refine Ask.Good.cons (ih fun e he => ?_) (hspares event List.mem_cons_self)
    exact hspares e (List.mem_cons_of_mem event he)

theorem Inv.log_of_spares (h : Inv s) (hspares : ∀ j, event.Spares j)
    (hjust : Justified s.request event s.history) : Inv (s.log event) where
  registry := h.registry
  callback := h.callback
  absent := by
    intro j hj
    obtain ⟨hopen, hnone⟩ := h.absent j hj
    refine ⟨?_, fun p => ?_⟩
    · exact List.not_mem_cons_of_ne_of_not_mem (hspares j).1.symm hopen
    · exact List.not_mem_cons_of_ne_of_not_mem ((hspares j).2 p).symm (hnone p)
  good := fun j other hj => (h.good j other hj).cons (hspares j)
  explained := ⟨hjust, h.explained⟩

theorem Inv.answerCallback (h : Inv s) (text : Bytes) (alert : Bool) :
    Inv (s.answerCallback text alert) :=
  h.log_of_spares (fun j => ⟨by simp, by simp⟩) trivial

theorem asks_setAsk (s : State) (i : ℕ) (ask : Ask) : (s.setAsk i ask).asks i = some ask := by
  simp [State.setAsk]

theorem asks_setAsk_of_ne {j : ℕ} (hj : j ≠ i) : (s.setAsk i ask).asks j = s.asks j := by
  simp [State.setAsk, Function.update_of_ne hj]

-- An executor moves on without touching its request; the events are about no other one.
theorem Inv.setAsk_events (h : Inv s)
    (hrequest : ∀ old, s.asks i = some old → old.request = ask.request)
    (hlive : ∀ token, s.registry token = some i → ask.phase.live = true) (events : List Event)
    (hspares : ∀ e ∈ events, ∀ j, j ≠ i → e.Spares j) (hgood : ask.Good i (events ++ s.history))
    (hjust : Explained (Justified (s.setAsk i ask).request) (events ++ s.history)) :
    Inv { s.setAsk i ask with history := events ++ s.history } where
  registry := by
    intro token j hj
    obtain ⟨other, hother, htoken, halive⟩ := h.registry token j hj
    by_cases hji : j = i
    · subst hji
      exact ⟨ask, asks_setAsk s j ask, hrequest other hother ▸ htoken, hlive token hj⟩
    · exact ⟨other, (asks_setAsk_of_ne hji).trans hother, htoken, halive⟩
  callback := by
    intro k callback hk
    obtain ⟨r, hr, hrest⟩ := h.callback k callback hk
    exact ⟨r, extends_setAsk hrequest _ r hr, hrest⟩
  absent := by
    intro j hj
    by_cases hji : j = i
    · subst hji
      exact absurd ((asks_setAsk s j ask).symm.trans hj) (by simp)
    · obtain ⟨hopen, hnone⟩ := h.absent j ((asks_setAsk_of_ne hji).symm.trans hj)
      refine ⟨fun hmem => ?_, fun p hmem => ?_⟩
      · rcases List.mem_append.mp hmem with hmem | hmem
        · exact (hspares _ hmem j hji).1 rfl
        · exact hopen hmem
      · rcases List.mem_append.mp hmem with hmem | hmem
        · exact (hspares _ hmem j hji).2 p rfl
        · exact hnone p hmem
  good := by
    intro j other hj
    by_cases hji : j = i
    · subst hji
      obtain rfl : ask = other := Option.some.inj ((asks_setAsk s j ask).symm.trans hj)
      exact hgood
    · exact (h.good j other ((asks_setAsk_of_ne hji).symm.trans hj)).append
        fun e he => hspares e he j hji
  explained := hjust

theorem Inv.setAsk (h : Inv s) (hrequest : ∀ old, s.asks i = some old → old.request = ask.request)
    (hlive : ∀ token, s.registry token = some i → ask.phase.live = true)
    (hgood : ask.Good i s.history) : Inv (s.setAsk i ask) :=
  h.setAsk_events hrequest hlive [] (by simp) hgood
    (h.explained.mono fun _ _ => Justified.mono (extends_setAsk hrequest))

theorem Inv.setAsk_log (h : Inv s)
    (hrequest : ∀ old, s.asks i = some old → old.request = ask.request)
    (hlive : ∀ token, s.registry token = some i → ask.phase.live = true)
    (hspares : ∀ j, j ≠ i → event.Spares j) (hgood : ask.Good i (event :: s.history))
    (hjust : Justified (s.setAsk i ask).request event s.history) :
    Inv ((s.setAsk i ask).log event) :=
  h.setAsk_events hrequest hlive [event] (by simpa using hspares) hgood
    ⟨hjust, h.explained.mono fun _ _ => Justified.mono (extends_setAsk hrequest)⟩

theorem Inv.setCallback_none (h : Inv s) (k : ℕ) : Inv (s.setCallback k none) where
  registry := h.registry
  callback := by
    intro j callback hj
    by_cases hjk : j = k
    · subst hjk
      simp [State.setCallback] at hj
    · simp only [State.setCallback, Function.update_of_ne hjk] at hj
      exact h.callback j callback hj
  absent := h.absent
  good := h.good
  explained := h.explained

theorem Inv.setCallback (h : Inv s) {new : Callback}
    (hnew : ∃ r, s.request new.ask = some r ∧
      parseData new.query.data = some (r.token, new.choice) ∧
      ∀ authorized, new.authorized = some authorized →
        new.query.sender.map User.id = some r.setup.initiatingUserId ∧
          (r.setup.auth = true → authorized = true)) :
    Inv (s.setCallback k (some new)) where
  registry := h.registry
  callback := by
    intro j callback hj
    by_cases hjk : j = k
    · subst hjk
      simp only [State.setCallback, Function.update_self, Option.some.injEq] at hj
      subst hj
      exact hnew
    · simp only [State.setCallback, Function.update_of_ne hjk] at hj
      exact h.callback j callback hj
  absent := h.absent
  good := h.good
  explained := h.explained

theorem Inv.eraseToken (h : Inv s) (token : Bytes) : Inv (s.eraseToken token) where
  registry := by
    intro token' i hi
    by_cases ht : token' = token
    · subst ht
      simp [State.eraseToken] at hi
    · simp only [State.eraseToken, Function.update_of_ne ht] at hi
      exact h.registry token' i hi
  callback := h.callback
  absent := h.absent
  good := h.good
  explained := h.explained

-- Once its token is erased nothing leads to an executor any more.
theorem Inv.registry_eraseToken (h : Inv s) (hi : s.asks i = some ask) (token : Bytes) :
    (s.eraseToken ask.request.token).registry token ≠ some i := by
  intro hfound
  by_cases ht : token = ask.request.token
  · subst ht
    simp [State.eraseToken] at hfound
  · simp only [State.eraseToken, Function.update_of_ne ht] at hfound
    obtain ⟨other, hother, htoken, -⟩ := h.registry token i hfound
    rw [hi, Option.some.injEq] at hother
    exact ht (hother ▸ htoken.symm)

-- A move between two phases that keep no snapshot.
theorem Ask.Good.move {history : List Event} (h : ask.Good i history) {phase : Phase}
    (hphase : ∀ resultSnapshot, phase ≠ .closing resultSnapshot ∧ phase ≠ .erased resultSnapshot) :
    Ask.Good { ask with phase := phase } i history where
  fresh := h.fresh
  answered := h.answered
  snapshot := by
    intro resultSnapshot hsnapshot
    rcases hsnapshot with heq | heq
    · exact absurd heq (hphase resultSnapshot).1
    · exact absurd heq (hphase resultSnapshot).2

-- The executor closes its confirmation.
theorem Ask.Good.close {history : List Event} (h : ask.Good i history) {phase : Phase}
    (hphase : ∀ resultSnapshot, phase = .closing resultSnapshot ∨ phase = .erased resultSnapshot →
      resultSnapshot = ask.result) :
    Ask.Good { ask with
      closed := true
      phase := phase } i (.closed i :: history) where
  fresh := by simp
  answered := by
    intro answer hanswer
    obtain ⟨p, hp, hvalid⟩ := h.answered answer hanswer
    exact ⟨p, List.mem_cons_of_mem _ hp, hvalid⟩
  snapshot := fun resultSnapshot hsnapshot => ⟨hphase resultSnapshot hsnapshot, rfl⟩

theorem Inv.phase (h : Inv s) (hi : s.asks i = some ask) {phase : Phase}
    (hlive : ∀ token, s.registry token = some i → phase.live = true)
    (hphase : ∀ resultSnapshot, phase ≠ .closing resultSnapshot ∧ phase ≠ .erased resultSnapshot) :
    Inv (s.setAsk i { ask with phase := phase }) := by
  refine h.setAsk ?_ hlive ((h.good i ask hi).move hphase)
  intro old hold
  rw [hi, Option.some.injEq] at hold
  rw [hold]

theorem Inv.closing (h : Inv s) (hi : s.asks i = some ask) {phase : Phase}
    (hlive : phase.live = true)
    (hphase : ∀ resultSnapshot, phase = .closing resultSnapshot ∨ phase = .erased resultSnapshot →
      resultSnapshot = ask.result) :
    Inv ((s.setAsk i { ask with
      closed := true
      phase := phase }).log (.closed i)) := by
  refine h.setAsk_log ?_ (fun _ _ => hlive) ?_ ((h.good i ask hi).close hphase) trivial
  · intro old hold
    rw [hi, Option.some.injEq] at hold
    rw [hold]
  · intro j hj
    exact ⟨by simpa using hj.symm, by simp⟩

-- Nothing in the registry leads to an executor in these phases.
theorem Inv.not_registered (h : Inv s) (hi : s.asks i = some ask) (hphase : ask.phase.live = false)
    (token : Bytes) : s.registry token ≠ some i := by
  intro hfound
  obtain ⟨other, hother, -, hlive⟩ := h.registry token i hfound
  rw [hi, Option.some.injEq] at hother
  rw [← hother, hphase] at hlive
  cases hlive

theorem Inv.begin (h : Inv s) (hi : s.asks i = none) (setup : Setup) (input : Json) :
    Inv (s.begin i setup input) := by
  have hnew : ∀ old, s.asks i = some old → False := by simp [hi]
  have hunseen : ∀ token, s.registry token ≠ some i := by
    intro token hfound
    obtain ⟨other, hother, -⟩ := h.registry token i hfound
    exact hnew other hother
  unfold State.begin
  split
  · refine h.setAsk (fun old hold => (hnew old hold).elim) ?_ ?_
    · exact fun token hfound => absurd hfound (hunseen token)
    · exact ⟨fun _ => h.absent i hi, nofun, nofun⟩
  · have hcounted : Inv { s with counter := s.counter + 1 } :=
      ⟨h.registry, h.callback, h.absent, h.good, h.explained⟩
    refine hcounted.setAsk (fun old hold => (hnew old hold).elim) ?_ ?_
    · exact fun token hfound => absurd hfound (hunseen token)
    · exact ⟨fun _ => h.absent i hi, nofun, nofun⟩

theorem Inv.emplace (h : Inv s) (hi : s.asks i = some ask) : Inv (s.emplace i ask) := by
  have hset : Inv (s.setAsk i { ask with phase := .registered }) :=
    h.phase hi (fun _ _ => rfl) (by simp)
  unfold State.emplace
  simp only
  split
  · exact hset
  · refine ⟨?_, hset.callback, hset.absent, hset.good, hset.explained⟩
    intro token j hj
    by_cases ht : token = ask.request.token
    · subst ht
      simp only [Function.update_self, Option.some.injEq] at hj
      subst hj
      exact ⟨_, asks_setAsk s i _, rfl, rfl⟩
    · simp only [Function.update_of_ne ht] at hj
      exact hset.registry token j hj

theorem Inv.erasing (h : Inv s) (hi : s.asks i = some ask) {phase : Phase}
    (hgood : Ask.Good { ask with phase := phase } i s.history) :
    Inv ((s.eraseToken ask.request.token).setAsk i { ask with phase := phase }) := by
  refine (h.eraseToken ask.request.token).setAsk ?_ ?_ hgood
  · intro old hold
    obtain rfl : ask = old := Option.some.inj (hi.symm.trans hold)
    rfl
  · exact fun token hfound => absurd hfound (h.registry_eraseToken hi token)

-- The approval is logged last of all and names the action of the request.
theorem Inv.conclude (h : Inv s) (hi : s.asks i = some ask)
    {resultSnapshot : Option ConfirmationAnswer} (hphase : ask.phase = .erased resultSnapshot)
    (stopRequested : Bool) (bound : Option Bool) :
    Inv (s.conclude i ask resultSnapshot stopRequested bound) := by
  have hunseen : ∀ phase : Phase, ∀ token, s.registry token = some i → phase.live = true := by
    intro phase token hfound
    exact absurd hfound (h.not_registered hi (by rw [hphase]; rfl) token)
  have hmove : ∀ {u : State} {phase : Phase}, Inv u → u.asks i = some ask →
      u.registry = s.registry → (∀ resultSnapshot, phase ≠ .closing resultSnapshot ∧
        phase ≠ .erased resultSnapshot) → Inv (u.setAsk i { ask with phase := phase }) := by
    intro u phase hu hui hregistry hleft
    refine hu.phase hui ?_ hleft
    rw [hregistry]
    exact hunseen phase
  unfold State.conclude
  cases resultSnapshot with
  | none =>
    refine hmove h hi rfl ?_
    cases stopRequested <;> exact fun _ => ⟨nofun, nofun⟩
  | some answer =>
    change Inv (if _ then _ else _)
    split_ifs with hyes hno
    · cases haction : ask.request.action with
      | none => exact hmove h hi rfl fun _ => ⟨nofun, nofun⟩
      | some action =>
        obtain ⟨tool, input⟩ := action
        have hlogged : Inv (s.log (.approval i tool input)) := by
          refine h.log_of_spares (fun j => ⟨by simp, by simp⟩) ?_
          have hgood := h.good i ask hi
          obtain ⟨hresult, -⟩ := hgood.snapshot _ (Or.inr hphase)
          obtain ⟨p, hp, hvalid⟩ := hgood.answered answer hresult.symm
          refine ⟨ask.request, p, ?_, hp, hyes ▸ hvalid, haction⟩
          rw [State.request, hi]
          rfl
        rcases bound with _ | _ | _
        · exact hmove hlogged hi rfl fun _ => ⟨nofun, nofun⟩
        · exact hmove hlogged hi rfl fun _ => ⟨nofun, nofun⟩
        · exact hmove hlogged hi rfl fun _ => ⟨nofun, nofun⟩
    · exact hmove h hi rfl fun _ => ⟨nofun, nofun⟩
    · exact hmove h hi rfl fun _ => ⟨nofun, nofun⟩

theorem Inv.deliver (h : Inv s) (k : ℕ) (query : Query) : Inv (s.deliver k query) := by
  unfold State.deliver
  split
  · exact h
  · rename_i token choice hdata
    split
    · exact h.answerCallback _ _
    · rename_i i hfound
      obtain ⟨ask, hi, htoken, -⟩ := h.registry token i hfound
      refine h.setCallback ⟨ask.request, ?_, ?_, by simp⟩
      · rw [State.request, hi]
        rfl
      · rw [htoken]
        exact hdata

theorem Inv.check (h : Inv s) {callback : Callback} (hk : s.callbacks k = some callback)
    (hi : s.asks callback.ask = some ask) (authorized : Bool) :
    Inv (s.check k callback ask.request authorized) := by
  obtain ⟨r, hr, hdata, -⟩ := h.callback k callback hk
  obtain rfl : ask.request = r := by
    rw [State.request, hi] at hr
    exact Option.some.inj hr
  unfold State.check
  simp only
  split_ifs with hrefused hchoice
  · exact (h.setCallback_none k).answerCallback _ _
  · exact (h.setCallback_none k).answerCallback _ _
  · rw [not_or, not_not, not_not] at hrefused
    refine h.setCallback ⟨ask.request, hr, hdata, ?_⟩
    intro answer hanswer
    obtain rfl : authorized = answer := Option.some.inj hanswer
    refine ⟨hrefused.1, fun hauth => ?_⟩
    exact hrefused.2.resolve_left (by simp [hauth])

theorem Inv.record (h : Inv s) {callback : Callback} (hk : s.callbacks k = some callback)
    {authorized : Bool} (hauthorized : callback.authorized = some authorized)
    (hi : s.asks callback.ask = some ask) : Inv (s.record k callback ask authorized) := by
  obtain ⟨r, hr, hdata, hchecked⟩ := h.callback k callback hk
  obtain rfl : ask.request = r := by
    rw [State.request, hi] at hr
    exact Option.some.inj hr
  obtain ⟨hinitiator, hauth⟩ := hchecked authorized hauthorized
  have hvalid : Press.Valid ⟨callback.query, authorized⟩ ask.request callback.choice :=
    ⟨hdata, hinitiator, hauth⟩
  have hgood := h.good callback.ask ask hi
  have hset := h.setCallback_none k
  unfold State.record
  simp only
  split_ifs with hopen
  · obtain ⟨hfresh, hnone⟩ := hgood.fresh hopen.1
    refine Inv.answerCallback (hset.setAsk_log ?_ ?_ ?_ ?_ ?_) _ _
    · intro old hold
      obtain rfl : ask = old := Option.some.inj (hi.symm.trans hold)
      rfl
    · intro token hfound
      obtain ⟨other, hother, -, hlive⟩ := h.registry token _ hfound
      obtain rfl : ask = other := Option.some.inj (hi.symm.trans hother)
      exact hlive
    · intro j hj
      refine ⟨by simp, fun p => ?_⟩
      simpa using fun heq => absurd heq.symm hj
    · refine ⟨by simp, ?_, ?_⟩
      · intro answer hanswer
        obtain rfl := Option.some.inj hanswer
        exact ⟨_, List.mem_cons_self, hvalid⟩
      · intro resultSnapshot hsnapshot
        obtain ⟨-, hclosed⟩ := hgood.snapshot resultSnapshot hsnapshot
        rw [hopen.1] at hclosed
        cases hclosed
    · refine ⟨hfresh, hnone, ask.request, callback.choice, ?_, hvalid⟩
      simp [State.request, State.setAsk]
  · exact hset.answerCallback _ _

theorem Inv.step {t : State} (h : Inv s) (a : Step) (hstep : AskConfirm.step s a = some t) :
    Inv t := by
  cases a with
  | begin i setup input =>
    obtain ⟨hi, rfl⟩ := Transition.enabled_eq_some hstep
    exact h.begin (Option.isNone_iff_eq_none.mp hi) setup input
  | emplace i =>
    obtain ⟨ask, hi, hstep⟩ := Option.bind_eq_some_iff.mp hstep
    obtain ⟨-, rfl⟩ := Transition.enabled_eq_some hstep
    exact h.emplace hi
  | send i error =>
    obtain ⟨ask, hi, hstep⟩ := Option.bind_eq_some_iff.mp hstep
    split at hstep
    · cases error <;> cases hstep <;> exact h.phase hi (fun _ _ => rfl) (by simp)
    · cases hstep
  | closeAfterFailure i =>
    obtain ⟨ask, hi, hstep⟩ := Option.bind_eq_some_iff.mp hstep
    split at hstep <;> cases hstep
    exact h.closing hi rfl (by simp)
  | eraseAfterFailure i =>
    obtain ⟨ask, hi, hstep⟩ := Option.bind_eq_some_iff.mp hstep
    split at hstep <;> cases hstep
    exact h.erasing hi ((h.good i ask hi).move (by simp))
  | endWait i =>
    obtain ⟨ask, hi, hstep⟩ := Option.bind_eq_some_iff.mp hstep
    obtain ⟨-, rfl⟩ := Transition.enabled_eq_some hstep
    refine h.closing hi rfl ?_
    intro resultSnapshot hsnapshot
    simpa [eq_comm] using hsnapshot
  | erase i =>
    obtain ⟨ask, hi, hstep⟩ := Option.bind_eq_some_iff.mp hstep
    split at hstep <;> cases hstep
    rename_i resultSnapshot hphase
    have hgood := h.good i ask hi
    obtain ⟨hresult, hclosed⟩ := hgood.snapshot resultSnapshot (Or.inl hphase)
    refine h.erasing hi ⟨hgood.fresh, hgood.answered, ?_⟩
    intro other hsnapshot
    simp only [reduceCtorEq, Phase.erased.injEq, false_or] at hsnapshot
    exact ⟨hsnapshot ▸ hresult, hclosed⟩
  | conclude i stopRequested bound =>
    obtain ⟨ask, hi, hstep⟩ := Option.bind_eq_some_iff.mp hstep
    split at hstep <;> cases hstep
    rename_i resultSnapshot hphase
    exact h.conclude hi hphase stopRequested bound
  | deliver k query =>
    obtain ⟨-, rfl⟩ := Transition.enabled_eq_some hstep
    exact h.deliver k query
  | check k authorized =>
    obtain ⟨callback, hk, hstep⟩ := Option.bind_eq_some_iff.mp hstep
    split at hstep
    · obtain ⟨ask, hi, rfl⟩ := Option.map_eq_some_iff.mp hstep
      exact h.check hk hi authorized
    · cases hstep
  | record k =>
    obtain ⟨callback, hk, hstep⟩ := Option.bind_eq_some_iff.mp hstep
    obtain ⟨authorized, hauthorized, hstep⟩ := Option.bind_eq_some_iff.mp hstep
    obtain ⟨ask, hi, rfl⟩ := Option.map_eq_some_iff.mp hstep
    exact h.record hk hauthorized hi

end Preservation

-- What holds of the whole run.
structure Sound (s : State) : Prop where
  once : ∀ newer i p older, s.history = newer ++ .accepted i p :: older →
    ∀ p', .accepted i p' ∉ older
  open_ : ∀ newer i p older, s.history = newer ++ .accepted i p :: older → .closed i ∉ older
  approved : ∀ newer i tool input older, s.history = newer ++ .approval i tool input :: older →
    ∃ r p, s.request i = some r ∧ .accepted i p ∈ older ∧
      parseData p.query.data = some (r.token, ascii "y") ∧
      p.query.sender.map User.id = some r.setup.initiatingUserId ∧
      (r.setup.auth = true → p.authorized = true) ∧ r.action = some (tool, input)
  gone : ∀ i ask, s.asks i = some ask → ask.phase.left = true →
    ∀ token, s.registry token ≠ some i

theorem Inv.sound {s : State} (h : Inv s) : Sound s where
  once := fun newer i p older hh => (explained_iff.mp h.explained newer _ older hh).2.1
  open_ := fun newer i p older hh => (explained_iff.mp h.explained newer _ older hh).1
  approved := by
    intro newer i tool input older hh
    obtain ⟨r, p, hr, hp, hvalid, haction⟩ := explained_iff.mp h.explained newer _ older hh
    exact ⟨r, p, hr, hp, hvalid.token, hvalid.initiator, hvalid.authorized, haction⟩
  gone := by
    intro i ask hi hleft token
    refine h.not_registered hi ?_ token
    cases hphase : ask.phase <;> rw [hphase] at hleft <;> first | rfl | cases hleft

theorem confirmations_sound (steps : List Step) (s : State)
    (hp : Transition.path step State.start steps = some s) : Sound s :=
  (Transition.path_invariant_of_step Inv (fun _ a _ h hu => h.step a hu) Inv.start hp).sound

-- The user 5 is asked before a message is sent; user 6 presses too, and 5 presses twice.
def confirmedRun : List Step :=
  let input := Json.object [(ascii "question", .string (ascii "ok?")),
    (ascii "action_tool", .string (ascii "send_message")), (ascii "action_input", .object [])]
  let press := fun id => Query.mk (ascii "ask_confirm:1_0:y") (some ⟨id, ascii "A", none⟩)
  [.begin 0 ⟨1, 5, true, true⟩ input, .emplace 0, .send 0 none, .deliver 0 (press 6),
    .check 0 true, .deliver 1 (press 5), .deliver 2 (press 5), .check 1 true, .check 2 true,
    .record 2, .record 1, .endWait 0, .erase 0, .conclude 0 false (some true)]

theorem confirmations_sound_confirmedRun : ∃ s,
    Transition.path step State.start confirmedRun = some s ∧
      (s.history.any fun e => match e with
        | .approval 0 _ _ => true
        | _ => false) = true ∧ Sound s := by
  obtain ⟨s, hp, happroved⟩ := Transition.exists_path step State.start confirmedRun
    (fun s => (s.history.any fun e => match e with
      | .approval 0 _ _ => true
      | _ => false) = true) (by decide)
  exact ⟨s, hp, happroved, confirmations_sound confirmedRun s hp⟩

end Glider.Llm.AskConfirm

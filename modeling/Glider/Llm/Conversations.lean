import Glider.Llm.LMStudioBackend

namespace Glider.Llm.LMStudioBackend

open Glider.Lib Glider.Lib.Threads
open Bytes (ascii)
open LMStudioApi

section Statement

variable (lib : Library)

-- The model and the identifier of the last reply to a turn of a chat that was parsed.
def lastParsed (chatId : ChatId) : List Happening → Option (Bytes × Option Bytes)
  | [] => none
  | (t, .answers (.send _ _ _) reply) :: older =>
    match callIn t older, lib.parsed reply with
    | some (.chat _ model _ _ chatId'), some resp =>
      if chatId' = chatId then some (model, resp.response_id) else lastParsed chatId older
    | _, _ => lastParsed chatId older
  | _ :: older => lastParsed chatId older

-- A thread has a chat's lock and has not given it up.
def inTurn (t : ℕ) : List Happening → Prop
  | [] => False
  | (u, .answers (.lock _) _) :: older => u = t ∨ inTurn t older
  | (u, .answers (.unlock _) _) :: older => u ≠ t ∧ inTurn t older
  | _ :: older => inTurn t older

-- The identifier of the last reply, if it is one of the same model and carries one.
def resumed (model : Bytes) : Option (Bytes × Option Bytes) → Option Bytes
  | some (model', id) => if model' = model then id else none
  | none => none

-- The same, if it is not empty.
def continued (model : Bytes) (last : Option (Bytes × Option Bytes)) : Option Bytes :=
  (resumed model last).filter (· ≠ [])

def previousIdOf (payload : Json) : Option Json := payload.find (ascii "previous_response_id")

def TurnsApart (w : World) : Prop :=
  ∀ t u backend model prompt input backend' model' prompt' input' chatId,
    callIn t w.history = some (.chat backend model prompt input chatId) → inTurn t w.history →
    callIn u w.history = some (.chat backend' model' prompt' input' chatId) →
    inTurn u w.history → t = u

-- What a request that a thread is sending for a chat goes on from.
def Continues (resume : Bytes → Option (Bytes × Option Bytes) → Option Bytes) (w : World) : Prop :=
  ∀ t url payload authkey backend model prompt input chatId,
    w.asks t = some (.send url payload authkey) →
    callIn t w.history = some (.chat backend model prompt input chatId) →
    previousIdOf payload = (resume model (lastParsed lib chatId w.history)).map .string

-- A classifier request names no response, and a thread that makes one asks for nothing else and
-- leaves the conversations as they are.
def ClassifiersApart (w : World) : Prop :=
  ∀ t backend model prompt input,
    callIn t w.history = some (.classify backend model prompt input) →
    (∀ op, w.asks t = some op →
      ∃ url payload authkey, op = .send url payload authkey ∧ previousIdOf payload = none) ∧
    ∀ reply w', step lib w (.acts t reply) = some w' → w'.shared = w.shared

end Statement

-- A chat, the model it is asked of, and the mutex of its turns.
structure Turn where
  chatId : ChatId
  model : Bytes
  mutex : ℕ

inductive Stage where
  | called (chatId : ChatId) (model : Bytes)
  | handed (turn : Turn)
  | locked (turn : Turn)
  | sending (turn : Turn) (previous : Option Bytes)
  | replied (turn : Turn) (reply : Reply)
  | remembered (turn : Turn)
  | left (turn : Turn)
  | classifying
  | classified

namespace Stage

def next : Stage → (op : Op) → op.Answer → Stage
  | .called chatId model, .conversationMutex _, mutex => .handed ⟨chatId, model, mutex⟩
  | .handed turn, .lock _, _ => .locked turn
  | .locked turn, .previousResponseId _ _, previous => .sending turn previous
  | .sending turn _, .send _ _ _, reply => .replied turn reply
  | .replied turn _, .rememberResponseId _ _ _, _ => .remembered turn
  | .replied turn _, .unlock _, _ => .left turn
  | .remembered turn, .unlock _, _ => .left turn
  | .classifying, .send _ _ _, _ => .classified
  | m, _, _ => m

-- The chat and the model, where there is one.
def talk : Stage → Option (ChatId × Bytes)
  | .called chatId model => some (chatId, model)
  | .handed turn | .locked turn | .sending turn _ | .replied turn _ | .remembered turn
  | .left turn => some (turn.chatId, turn.model)
  | .classifying | .classified => none

-- The turn whose mutex was handed out.
def handedTurn : Stage → Option Turn
  | .handed turn | .locked turn | .sending turn _ | .replied turn _ | .remembered turn => some turn
  | _ => none

-- The turn that the lock is held for.
def lockedTurn : Stage → Option Turn
  | .locked turn | .sending turn _ | .replied turn _ | .remembered turn => some turn
  | _ => none

theorem handedTurn_of_lockedTurn {m : Stage} {turn : Turn} (h : m.lockedTurn = some turn) :
    m.handedTurn = some turn := by
  cases m with
  | locked _ | sending _ _ | replied _ _ | remembered _ => exact h
  | _ => cases h

theorem talk_next (m : Stage) (op : Op) (answer : op.Answer) :
    (m.next op answer).talk = m.talk := by
  cases m <;> cases op <;> rfl

def Allows (lib : Library) (m : Stage) : Op → Prop
  | .conversationMutex chatId => ∃ model, m = .called chatId model
  | .lock mutex => ∃ turn, m = .handed turn ∧ turn.mutex = mutex
  | .previousResponseId chatId model =>
    ∃ turn, m = .locked turn ∧ turn.chatId = chatId ∧ turn.model = model
  | .send _ payload _ =>
    m = .classifying ∧ previousIdOf payload = none ∨
      ∃ turn previous, m = .sending turn previous ∧ previousIdOf payload = previous.map .string
  | .rememberResponseId chatId model id =>
    ∃ turn reply resp, m = .replied turn reply ∧ lib.parsed reply = some resp ∧
      turn.chatId = chatId ∧ turn.model = model ∧ resp.response_id = id
  | .unlock mutex =>
    ∃ turn, turn.mutex = mutex ∧
      (m = .remembered turn ∨ ∃ reply, m = .replied turn reply ∧ lib.parsed reply = none)

end Stage

def discipline (lib : Library) : Discipline Call Op Op.Answer LMStudioApi.Failure Stage where
  monitor := ⟨Stage.Allows lib, Stage.next⟩
  start
    | .chat _ model _ _ chatId => .called chatId model
    | .classify _ _ _ _ => .classifying
  post _ _ := True

section Programs

variable {lib : Library} {α : Type}

abbrev Meets (lib : Library) (post : Stage → Except LMStudioApi.Failure α → Prop) (p : Routine α)
    (m : Stage) : Prop :=
  p.Meets (discipline lib).monitor post m

-- Where a turn can give up its lock.
def Finished (lib : Library) (turn : Turn) (m : Stage) : Prop :=
  m = .remembered turn ∨ ∃ reply, m = .replied turn reply ∧ lib.parsed reply = none

theorem meets_exchange (lib : Library) (backend : LMStudioBackend) (req : ChatRequest) {turn : Turn}
    (hmodel : req.model = turn.model) :
    Meets lib (fun m _ => Finished lib turn m) (backend.exchange lib req (some turn.chatId))
      (.sending turn req.previous_response_id) := by
  refine ⟨.inr ⟨turn, _, rfl, req.previous_response_id_to_json⟩, fun reply => ?_⟩
  change Meets lib (fun m _ => Finished lib turn m) _ (.replied turn reply)
  cases reply with
  | error e => exact .inr ⟨_, rfl, rfl⟩
  | ok raw =>
    dsimp only [Program.bind]
    cases hparsed : lib.parsed (.ok raw) with
    | none => exact .inr ⟨_, rfl, hparsed⟩
    | some resp =>
      refine ⟨⟨turn, _, resp, rfl, hparsed, rfl, hmodel.symm, rfl⟩, fun _ => ?_⟩
      exact .inl rfl

theorem meets_classification (lib : Library) (backend : LMStudioBackend) (req : ChatRequest)
    (hprevious : req.previous_response_id = none) :
    Meets lib (fun _ _ => True) (backend.exchange lib req none) .classifying := by
  refine ⟨.inl ⟨rfl, ?_⟩, fun reply => ?_⟩
  · rw [previousIdOf, req.previous_response_id_to_json, hprevious]
    rfl
  · cases reply with
    | error e => trivial
    | ok raw =>
      dsimp only [Program.bind]
      cases lib.parsed (.ok raw) with
      | none | some resp => trivial

theorem meets_guarded {turn : Turn} {p : Routine α} {m : Stage}
    (h : Meets lib (fun m _ => Finished lib turn m) p m) :
    Meets lib (fun _ _ => True) (guarded turn.mutex p) m := by
  refine Program.meets_bind.mpr (Program.meets_handle.mpr ?_)
  refine Program.meets_bind.mpr (Program.Meets.mono ?_ h)
  rintro m (e | a) hfinished
  · refine ⟨⟨turn, rfl, hfinished⟩, fun _ => trivial⟩
  · refine ⟨⟨turn, rfl, hfinished⟩, fun _ => trivial⟩

theorem governs : (discipline lib).Governs (system lib) := by
  rintro (⟨backend, model, prompt, input, chatId⟩ | ⟨backend, model, prompt, input⟩)
  · refine Program.meets_bind.mpr ⟨⟨model, rfl⟩, fun mutex => ⟨⟨_, rfl, rfl⟩, fun _ => ?_⟩⟩
    refine ⟨⟨_, rfl, rfl, rfl⟩, fun previous => ?_⟩
    have hprevious : (previous.orElse fun _ => none) = previous := by cases previous <;> rfl
    let turn : Turn := ⟨chatId, model, mutex⟩
    have hexchange : Meets lib (fun m _ => Finished lib turn m)
        (backend.exchange lib { ChatRequest.plain model input prompt with
          previous_response_id := previous.orElse fun _ => none } (some chatId))
        (.sending turn previous) := by
      have hmodel : (ChatRequest.plain model input prompt).model = turn.model := rfl
      have hmeets := meets_exchange lib backend { ChatRequest.plain model input prompt with
        previous_response_id := previous.orElse fun _ => none } hmodel
      rwa [hprevious] at hmeets ⊢
    refine Program.Meets.mono ?_ (meets_guarded hexchange)
    rintro m (e | a) - <;> trivial
  · have hexchange := meets_classification lib backend (makeClassifierRequest model prompt input) rfl
    refine Program.meets_bind.mpr (Program.Meets.mono ?_ hexchange)
    rintro m (e | a) - <;> trivial

end Programs

section Invariant

variable {lib : Library}

abbrev stage (lib : Library) (w : World) (t : ℕ) : Option Stage := (discipline lib).stage w t

-- What the map says of a chat, and what it is to say after the last reply.
def memory (s : Store) (chatId : ChatId) : Bytes × Bytes :=
  ((s.map chatId).map fun state => (state.model, state.responseId)).getD ([], [])

def memoryOf : Option (Bytes × Option Bytes) → Bytes × Bytes
  | some (model, some id) => (model, id)
  | _ => ([], [])

def mutexOf (s : Store) (chatId : ChatId) : Option ℕ :=
  (s.map chatId).map ConversationState.turnMutex

-- No two chats have the same mutex, and a new one is none of theirs.
structure Sound (s : Store) : Prop where
  made : ∀ chatId mutex, mutexOf s chatId = some mutex → mutex < s.made
  apart : ∀ chatId chatId' mutex, mutexOf s chatId = some mutex → mutexOf s chatId' = some mutex →
    chatId = chatId'

-- Every chat has a mutex of its own, and whoever is in a turn of the chat holds it.
structure Locks (lib : Library) (w : World) : Prop where
  sound : Sound w.shared
  handed : ∀ t m turn, stage lib w t = some m → m.handedTurn = some turn →
    mutexOf w.shared turn.chatId = some turn.mutex
  holds : ∀ t m turn, stage lib w t = some m → m.lockedTurn = some turn →
    w.shared.holder turn.mutex = some t
  spans : ∀ t, inTurn t w.history → ∃ m turn, stage lib w t = some m ∧ m.lockedTurn = some turn

-- A reply that was parsed is remembered before the turn is over.
structure Remembers (lib : Library) (w : World) : Prop where
  continues : ∀ t turn previous, stage lib w t = some (.sending turn previous) →
    previous = continued turn.model (lastParsed lib turn.chatId w.history)
  replied : ∀ t turn reply resp, stage lib w t = some (.replied turn reply) →
    lib.parsed reply = some resp →
    lastParsed lib turn.chatId w.history = some (turn.model, resp.response_id)
  kept : ∀ chatId,
    (∀ t turn reply, stage lib w t = some (.replied turn reply) → turn.chatId = chatId →
      lib.parsed reply = none) →
    memory w.shared chatId = memoryOf (lastParsed lib chatId w.history)

section Entries

variable {s : Store} {chatId : ChatId}

theorem entry_of_map {state : ConversationState} (h : s.map chatId = some state) :
    s.entry chatId = (state, s) := by
  rw [Store.entry, h]

theorem entry_of_none (h : s.map chatId = none) :
    s.entry chatId = (⟨[], [], s.made⟩, ⟨Function.update s.map chatId (some ⟨[], [], s.made⟩),
      s.made + 1, s.holder⟩) := by
  rw [Store.entry, h]

theorem holder_entry (s : Store) (chatId : ChatId) : (s.entry chatId).2.holder = s.holder := by
  cases h : s.map chatId with
  | some state => rw [entry_of_map h]
  | none => rw [entry_of_none h]

theorem mutexOf_entry_self (s : Store) (chatId : ChatId) :
    mutexOf (s.entry chatId).2 chatId = some (s.entry chatId).1.turnMutex := by
  cases h : s.map chatId with
  | some state => rw [entry_of_map h, mutexOf, h, Option.map_some]
  | none => simp only [entry_of_none h, mutexOf, Function.update_self, Option.map_some]

-- Only a chat that had no entry has a new mutex.
theorem mutexOf_entry {chatId' : ChatId} {mutex : ℕ}
    (h : mutexOf (s.entry chatId).2 chatId' = some mutex) :
    mutexOf s chatId' = some mutex ∨
      chatId' = chatId ∧ mutex = s.made ∧ (s.entry chatId).2.made = s.made + 1 := by
  cases hmap : s.map chatId with
  | some state =>
    rw [entry_of_map hmap] at h
    exact .inl h
  | none =>
    rw [entry_of_none hmap] at h ⊢
    obtain rfl | hne := eq_or_ne chatId' chatId
    · simp only [mutexOf, Function.update_self, Option.map_some, Option.some.injEq] at h
      exact .inr ⟨rfl, h.symm, rfl⟩
    · simp only [mutexOf, Function.update_of_ne hne] at h
      exact .inl h

theorem mutexOf_entry_of_some {chatId' : ChatId} {mutex : ℕ} (h : mutexOf s chatId' = some mutex) :
    mutexOf (s.entry chatId).2 chatId' = some mutex := by
  cases hmap : s.map chatId with
  | some state => rwa [entry_of_map hmap]
  | none =>
    have hne : chatId' ≠ chatId := by
      rintro rfl
      rw [mutexOf, hmap] at h
      cases h
    simp only [entry_of_none hmap, mutexOf, Function.update_of_ne hne]
    exact h

theorem made_le_entry (s : Store) (chatId : ChatId) : s.made ≤ (s.entry chatId).2.made := by
  cases h : s.map chatId with
  | some state => rw [entry_of_map h]
  | none =>
    rw [entry_of_none h]
    exact Nat.le_succ _

theorem Sound.entry (h : Sound s) (chatId : ChatId) : Sound (s.entry chatId).2 := by
  refine ⟨fun c mutex hc => ?_, fun c c' mutex hc hc' => ?_⟩
  · obtain hold | ⟨-, hnew, hmade⟩ := mutexOf_entry hc
    · exact Nat.lt_of_lt_of_le (h.made c mutex hold) (made_le_entry s chatId)
    · rw [hmade, hnew]
      exact Nat.lt_succ_self _
  · obtain hold | ⟨hcc, hnew, -⟩ := mutexOf_entry hc
    · obtain hold' | ⟨-, hnew', -⟩ := mutexOf_entry hc'
      · exact h.apart c c' mutex hold hold'
      · exact absurd hnew' (Nat.ne_of_lt (h.made c mutex hold))
    · obtain hold' | ⟨hcc', -, -⟩ := mutexOf_entry hc'
      · exact absurd hnew (Nat.ne_of_lt (h.made c' mutex hold'))
      · rw [hcc, hcc']

theorem mutexOf_rememberResponseId (s : Store) (chatId chatId' : ChatId) (model : Bytes)
    (id : Option Bytes) :
    mutexOf (s.rememberResponseId chatId model id) chatId' = mutexOf (s.entry chatId).2 chatId' := by
  obtain rfl | hne := eq_or_ne chatId' chatId
  · rw [mutexOf_entry_self]
    cases id <;> simp [mutexOf, Store.rememberResponseId]
  · simp [mutexOf, Store.rememberResponseId, Function.update_of_ne hne]

theorem Sound.rememberResponseId (h : Sound s) (chatId : ChatId) (model : Bytes)
    (id : Option Bytes) : Sound (s.rememberResponseId chatId model id) := by
  refine ⟨fun c mutex hc => ?_, fun c c' mutex hc hc' => ?_⟩
  · rw [mutexOf_rememberResponseId] at hc
    exact (h.entry chatId).made c mutex hc
  · rw [mutexOf_rememberResponseId] at hc hc'
    exact (h.entry chatId).apart c c' mutex hc hc'

theorem memory_entry (s : Store) (chatId chatId' : ChatId) :
    memory (s.entry chatId).2 chatId' = memory s chatId' := by
  cases h : s.map chatId with
  | some state => rw [entry_of_map h]
  | none =>
    rw [entry_of_none h]
    obtain rfl | hne := eq_or_ne chatId' chatId
    · simp [memory, h]
    · simp [memory, Function.update_of_ne hne]

theorem memory_rememberResponseId_self (s : Store) (chatId : ChatId) (model : Bytes)
    (id : Option Bytes) :
    memory (s.rememberResponseId chatId model id) chatId = memoryOf (some (model, id)) := by
  cases id <;> simp [memory, Store.rememberResponseId, memoryOf]

theorem memory_rememberResponseId_of_ne {chatId' : ChatId} (hne : chatId' ≠ chatId) (s : Store)
    (model : Bytes) (id : Option Bytes) :
    memory (s.rememberResponseId chatId model id) chatId' = memory s chatId' := by
  rw [← memory_entry s chatId chatId']
  simp [memory, Store.rememberResponseId, Function.update_of_ne hne]

theorem previousResponseId_eq {last : Option (Bytes × Option Bytes)} (model : Bytes)
    (h : memory s chatId = memoryOf last) :
    s.previousResponseId chatId model = continued model last := by
  have hstored : s.previousResponseId chatId model =
      if (memory s chatId).1 = model ∧ (memory s chatId).2 ≠ [] then some (memory s chatId).2
      else none := by
    cases hmap : s.map chatId <;> simp [Store.previousResponseId, memory, hmap]
  rw [hstored, h]
  rcases last with _ | ⟨model', _ | id⟩
  · simp [memoryOf, continued, resumed]
  · simp [memoryOf, continued, resumed]
  · by_cases hmodel : model' = model <;> by_cases hid : id = [] <;>
      simp [memoryOf, continued, resumed, Option.filter, hmodel, hid]

end Entries

section Steps

variable {w w' : World} {t u : ℕ} {m m' : Stage} {turn turn' : Turn}

theorem Locks.same (h : Locks lib w) (ht : stage lib w t = some m) (hu : stage lib w u = some m')
    (hturn : m.lockedTurn = some turn) (hturn' : m'.lockedTurn = some turn')
    (hchat : turn.chatId = turn'.chatId) : t = u := by
  have hmutex := h.handed t m turn ht (Stage.handedTurn_of_lockedTurn hturn)
  rw [hchat, h.handed u m' turn' hu (Stage.handedTurn_of_lockedTurn hturn'),
    Option.some.injEq] at hmutex
  have hheld := h.holds t m turn ht hturn
  rw [← hmutex, h.holds u m' turn' hu hturn'] at hheld
  exact (Option.some.inj hheld).symm

theorem inTurn_of_ne {op : Op} {answer : op.Answer} {history : List Happening} (hne : u ≠ t)
    (h : inTurn u ((t, .answers op answer) :: history)) : inTurn u history := by
  cases op with
  | lock mutex => exact h.resolve_left hne.symm
  | unlock mutex => exact h.2
  | _ => exact h

section Answers

variable {op : Op} {answer : op.Answer} {p : Option (Program Op Op.Answer LMStudioApi.Failure Unit)}
  {shared : Store}

-- What is left to show when a thread has its answer.
theorem Locks.answers (h : Locks lib w) (hstage : stage lib w t = some m) (hsound : Sound shared)
    (hmutex : ∀ chatId mutex, mutexOf w.shared chatId = some mutex →
      mutexOf shared chatId = some mutex)
    (hothers : ∀ u mutex, u ≠ t → w.shared.holder mutex = some u → shared.holder mutex = some u)
    (hhanded : ∀ turn, (m.next op answer).handedTurn = some turn →
      mutexOf shared turn.chatId = some turn.mutex)
    (hholds : ∀ turn, (m.next op answer).lockedTurn = some turn →
      shared.holder turn.mutex = some t)
    (hspans : inTurn t ((t, .answers op answer) :: w.history) →
      ∃ turn, (m.next op answer).lockedTurn = some turn) :
    Locks lib (w.record t (.answers op answer) p shared) := by
  refine ⟨hsound, fun u m' turn hu hturn => ?_, fun u m' turn hu hturn => ?_, fun u hspan => ?_⟩
  · obtain ⟨rfl, rfl⟩ | ⟨-, hold⟩ := Discipline.came_of_answers hstage hu
    · exact hhanded turn hturn
    · exact hmutex _ _ (h.handed u m' turn hold hturn)
  · obtain ⟨rfl, rfl⟩ | ⟨hne, hold⟩ := Discipline.came_of_answers hstage hu
    · exact hholds turn hturn
    · exact hothers u _ hne (h.holds u m' turn hold hturn)
  · obtain rfl | hne := eq_or_ne u t
    · obtain ⟨turn, hturn⟩ := hspans hspan
      exact ⟨_, turn, Discipline.stage_answers hstage .., hturn⟩
    · obtain ⟨m', turn, hold, hturn⟩ := h.spans u (inTurn_of_ne hne hspan)
      exact ⟨m', turn, (Discipline.stage_record_of_ne hne).trans hold, hturn⟩

-- A thread whose place among the locks stays as it is.
theorem Locks.quiet (h : Locks lib w) (hstage : stage lib w t = some m) (hsound : Sound shared)
    (hmutex : ∀ chatId mutex, mutexOf w.shared chatId = some mutex →
      mutexOf shared chatId = some mutex)
    (hholder : shared.holder = w.shared.holder)
    (hhanded : (m.next op answer).handedTurn = m.handedTurn)
    (hlocked : (m.next op answer).lockedTurn = m.lockedTurn)
    (hspans : inTurn t ((t, .answers op answer) :: w.history) → inTurn t w.history) :
    Locks lib (w.record t (.answers op answer) p shared) := by
  refine h.answers hstage hsound hmutex (fun u mutex _ hu => hholder ▸ hu) (fun turn hturn => ?_)
    (fun turn hturn => ?_) (fun hspan => ?_)
  · exact hmutex _ _ (h.handed t m turn hstage (hhanded ▸ hturn))
  · exact hholder ▸ h.holds t m turn hstage (hlocked ▸ hturn)
  · obtain ⟨m', turn, hm', hturn⟩ := h.spans t (hspans hspan)
    obtain rfl : m = m' := Option.some.inj (hstage.symm.trans hm')
    exact ⟨turn, hlocked ▸ hturn⟩

end Answers

theorem Locks.of_moves (hfollows : (discipline lib).Follows w) (h : Locks lib w) {i : Step}
    (hmoves : (discipline lib).Moves (system lib) w i w') : Locks lib w' := by
  cases hmoves with
  | begins hbegins =>
    rename_i call shared
    obtain rfl : w.shared = shared := Option.some.inj hbegins
    have hstart : ((discipline lib).start call).handedTurn = none := by cases call <;> rfl
    refine ⟨h.sound, fun u m' turn hu hturn => ?_, fun u m' turn hu hturn => ?_,
      fun u hspan => ?_⟩
    · obtain ⟨-, rfl⟩ | ⟨-, hold⟩ := Discipline.came_of_begun hu
      · cases hstart.symm.trans hturn
      · exact h.handed u m' turn hold hturn
    · obtain ⟨-, rfl⟩ | ⟨-, hold⟩ := Discipline.came_of_begun hu
      · cases hstart.symm.trans (Stage.handedTurn_of_lockedTurn hturn)
      · exact h.holds u m' turn hold hturn
    · obtain ⟨m', turn, hold, hturn⟩ := h.spans u hspan
      have hne : u ≠ w.started := Nat.ne_of_lt (hfollows.stage_lt hold)
      exact ⟨m', turn, (Discipline.stage_begun_of_ne hne ..).trans hold, hturn⟩
  | answers hstage hallows hact hrunning =>
    rename_i t reply op next shared answer m
    cases op with
    | conversationMutex chatId =>
      obtain ⟨model, rfl⟩ := hallows
      cases hact
      refine h.answers hstage (h.sound.entry chatId) (fun _ _ => mutexOf_entry_of_some)
        (fun u mutex _ hu => (congrFun (holder_entry ..) mutex).trans hu) (fun turn hturn => ?_)
        nofun (fun hspan => ?_)
      · obtain rfl := Option.some.inj hturn
        exact mutexOf_entry_self ..
      · obtain ⟨m', turn, hm', hturn⟩ := h.spans t hspan
        obtain rfl := Option.some.inj (hstage.symm.trans hm')
        cases hturn
    | lock mutex =>
      obtain ⟨turn, rfl, rfl⟩ := hallows
      obtain ⟨hfree, heq⟩ := Transition.enabled_eq_some hact
      cases heq
      refine h.answers hstage ⟨h.sound.made, h.sound.apart⟩ (fun _ _ hmutex => hmutex)
        (fun u mutex hne hu => ?_) (fun turn' hturn => ?_) (fun turn' hturn => ?_)
        (fun _ => ⟨turn, rfl⟩)
      · have hne : mutex ≠ turn.mutex := by
          rintro rfl
          cases hfree.symm.trans hu
        exact (Function.update_of_ne hne ..).trans hu
      · exact h.handed t _ turn' hstage hturn
      · obtain rfl := Option.some.inj hturn
        exact Function.update_self ..
    | previousResponseId chatId model =>
      obtain ⟨turn, rfl, rfl, rfl⟩ := hallows
      cases hact
      exact h.quiet hstage h.sound (fun _ _ hmutex => hmutex) rfl rfl rfl id
    | send url payload authkey =>
      cases hact
      obtain ⟨rfl, -⟩ | ⟨turn, previous, rfl, -⟩ := hallows
      · exact h.quiet hstage h.sound (fun _ _ hmutex => hmutex) rfl rfl rfl id
      · exact h.quiet hstage h.sound (fun _ _ hmutex => hmutex) rfl rfl rfl id
    | rememberResponseId chatId model id =>
      obtain ⟨turn, reply', resp, rfl, -⟩ := hallows
      cases hact
      refine h.quiet hstage (h.sound.rememberResponseId chatId model id) (fun c mutex hc => ?_)
        (holder_entry ..) rfl rfl fun hspan => hspan
      rw [mutexOf_rememberResponseId]
      exact mutexOf_entry_of_some hc
    | unlock mutex =>
      obtain ⟨turn, rfl, hfinished⟩ := hallows
      have hlocked : m.lockedTurn = some turn := by
        obtain rfl | ⟨reply, rfl, -⟩ := hfinished <;> rfl
      have hnext : m.next (.unlock turn.mutex) answer = .left turn := by
        obtain rfl | ⟨reply, rfl, -⟩ := hfinished <;> rfl
      cases hact
      refine h.answers hstage ⟨h.sound.made, h.sound.apart⟩ (fun _ _ hmutex => hmutex)
        (fun u mutex hne hu => ?_) (hnext ▸ nofun) (hnext ▸ nofun)
        (fun hspan => absurd rfl hspan.1)
      have hne : mutex ≠ turn.mutex := by
        rintro rfl
        exact hne (Option.some.inj (hu.symm.trans (h.holds t m turn hstage hlocked)))
      exact (Function.update_of_ne hne ..).trans hu
  | waits hstage hallows hact hrunning =>
    rename_i t reply op shared m
    cases op with
    | lock mutex =>
      obtain ⟨-, heq⟩ := Transition.enabled_eq_some hact
      cases heq
    | _ => cases hact
  | ends hstage hpost =>
    refine ⟨h.sound, fun u m' turn hu hturn => ?_, fun u m' turn hu hturn => ?_,
      fun u hspan => ?_⟩
    · exact h.handed u m' turn ((Discipline.stage_ends ..).symm.trans hu) hturn
    · exact h.holds u m' turn ((Discipline.stage_ends ..).symm.trans hu) hturn
    · obtain ⟨m', turn, hold, hturn⟩ := h.spans u hspan
      exact ⟨m', turn, (Discipline.stage_ends ..).trans hold, hturn⟩
  | hangsUp hstage hhangs hrunning => cases hhangs

-- The chat and the model of a thread are those of its call.
theorem call_of_stage (h : stage lib w t = some m) :
    match m.talk with
    | some (chatId, model) =>
      ∃ backend prompt input, callIn t w.history = some (.chat backend model prompt input chatId)
    | none => ∃ backend model prompt input,
        callIn t w.history = some (.classify backend model prompt input) := by
  let talks : Call → Option (ChatId × Bytes)
    | .chat _ model _ _ chatId => some (chatId, model)
    | .classify _ _ _ _ => none
  obtain ⟨call, hcall, htalk⟩ := Discipline.callIn_of_stage (d := discipline lib)
    (P := fun call m => m.talk = talks call) (by rintro (_ | _) <;> rfl)
    (fun call m op answer hm => (Stage.talk_next m op answer).trans hm) h
  rw [htalk]
  cases call with
  | chat backend model prompt input chatId => exact ⟨backend, prompt, input, hcall⟩
  | classify backend model prompt input => exact ⟨backend, model, prompt, input, hcall⟩

section Replies

variable {chatId : ChatId} {older : List Happening} {url authkey : Bytes} {payload : Json}
  {reply : Reply}

theorem lastParsed_send (lib : Library) (chatId : ChatId) (t : ℕ) (older : List Happening) :
    lastParsed lib chatId ((t, .answers (.send url payload authkey) reply) :: older) =
      match callIn t older, lib.parsed reply with
      | some (.chat _ model _ _ chatId'), some resp =>
        if chatId' = chatId then some (model, resp.response_id) else lastParsed lib chatId older
      | _, _ => lastParsed lib chatId older :=
  rfl

theorem lastParsed_send_self {backend : LMStudioBackend} {model prompt input : Bytes}
    {resp : ChatResponse} (hcall : callIn t older = some (.chat backend model prompt input chatId))
    (hparsed : lib.parsed reply = some resp) :
    lastParsed lib chatId ((t, .answers (.send url payload authkey) reply) :: older) =
      some (model, resp.response_id) := by
  simp [lastParsed_send, hcall, hparsed]

theorem lastParsed_send_of_ne {backend : LMStudioBackend} {model prompt input : Bytes}
    {chatId' : ChatId} (hcall : callIn t older = some (.chat backend model prompt input chatId'))
    (hne : chatId' ≠ chatId) :
    lastParsed lib chatId ((t, .answers (.send url payload authkey) reply) :: older) =
      lastParsed lib chatId older := by
  cases hparsed : lib.parsed reply <;> simp [lastParsed_send, hcall, hparsed, hne]

theorem lastParsed_send_of_none (hparsed : lib.parsed reply = none) :
    lastParsed lib chatId ((t, .answers (.send url payload authkey) reply) :: older) =
      lastParsed lib chatId older := by
  simp [lastParsed_send, hparsed]

theorem lastParsed_send_of_classify {backend : LMStudioBackend} {model prompt input : Bytes}
    (hcall : callIn t older = some (.classify backend model prompt input)) :
    lastParsed lib chatId ((t, .answers (.send url payload authkey) reply) :: older) =
      lastParsed lib chatId older := by
  simp [lastParsed_send, hcall]

end Replies

section Answers

variable {op : Op} {answer : op.Answer} {p : Option (Program Op Op.Answer LMStudioApi.Failure Unit)}
  {shared : Store}

-- A thread is not sending, and what is remembered and what there is to remember stay.
theorem Remembers.quiet (h : Remembers lib w) (hstage : stage lib w t = some m)
    (hlast : ∀ chatId, lastParsed lib chatId ((t, .answers op answer) :: w.history) =
      lastParsed lib chatId w.history)
    (hmemory : ∀ chatId, memory shared chatId = memory w.shared chatId)
    (hsending : ∀ turn previous, m.next op answer = .sending turn previous →
      previous = continued turn.model (lastParsed lib turn.chatId w.history))
    (hreplied : ∀ turn reply, m.next op answer = .replied turn reply → lib.parsed reply = none)
    (hwas : ∀ turn reply, m = .replied turn reply → lib.parsed reply = none) :
    Remembers lib (w.record t (.answers op answer) p shared) := by
  refine ⟨fun u turn previous hu => ?_, fun u turn reply resp hu hparsed => ?_,
    fun chatId hnone => ?_⟩
  · refine Eq.trans ?_ (congrArg (continued turn.model) (hlast turn.chatId).symm)
    obtain ⟨rfl, hnext⟩ | ⟨-, hold⟩ := Discipline.came_of_answers hstage hu
    · exact hsending turn previous hnext.symm
    · exact h.continues u turn previous hold
  · refine (hlast turn.chatId).trans ?_
    obtain ⟨rfl, hnext⟩ | ⟨-, hold⟩ := Discipline.came_of_answers hstage hu
    · cases hparsed.symm.trans (hreplied turn reply hnext.symm)
    · exact h.replied u turn reply resp hold hparsed
  · refine (hmemory chatId).trans ((h.kept chatId fun u turn reply hu hchat => ?_).trans
      (congrArg memoryOf (hlast chatId).symm))
    obtain rfl | hne := eq_or_ne u t
    · exact hwas turn reply (Option.some.inj (hstage.symm.trans hu))
    · exact hnone u turn reply ((Discipline.stage_record_of_ne hne).trans hu) hchat

-- The reply to a turn is all that is new of its chat, and nobody else is in a turn of the chat.
theorem Remembers.send (h : Remembers lib w) (hlocks : Locks lib w) {previous : Option Bytes}
    {url authkey : Bytes} {payload : Json} {reply : Reply}
    (hstage : stage lib w t = some (.sending turn previous)) :
    Remembers lib (w.record t (.answers (.send url payload authkey) reply) p w.shared) := by
  obtain ⟨backend, prompt, input, hcall⟩ := call_of_stage hstage
  have hlast {chatId : ChatId} (hne : chatId ≠ turn.chatId) :
      lastParsed lib chatId ((t, .answers (.send url payload authkey) reply) :: w.history) =
        lastParsed lib chatId w.history := lastParsed_send_of_ne hcall hne.symm
  have hother {u : ℕ} {m : Stage} {turn' : Turn} (hne : u ≠ t) (hu : stage lib w u = some m)
      (hturn : m.lockedTurn = some turn') : turn'.chatId ≠ turn.chatId :=
    fun hchat => hne (hlocks.same hu hstage hturn rfl hchat)
  refine ⟨fun u turn' previous' hu => ?_, fun u turn' reply' resp hu hparsed => ?_,
    fun chatId hnone => ?_⟩
  · obtain ⟨-, hnext⟩ | ⟨hne, hold⟩ := Discipline.came_of_answers hstage hu
    · cases hnext
    · refine (h.continues u turn' previous' hold).trans ?_
      exact congrArg (continued turn'.model) (hlast (hother hne hold rfl)).symm
  · obtain ⟨-, hnext⟩ | ⟨hne, hold⟩ := Discipline.came_of_answers hstage hu
    · obtain ⟨rfl, rfl⟩ := Stage.replied.inj hnext
      exact lastParsed_send_self hcall hparsed
    · exact (hlast (hother hne hold rfl)).trans (h.replied u turn' reply' resp hold hparsed)
  · have hkept := h.kept chatId fun u turn' reply' hu hchat => by
      obtain rfl | hne := eq_or_ne u t
      · cases hstage.symm.trans hu
      · exact hnone u turn' reply' ((Discipline.stage_record_of_ne hne).trans hu) hchat
    refine hkept.trans (congrArg memoryOf ?_)
    obtain rfl | hne := eq_or_ne chatId turn.chatId
    · have hreply := hnone t turn reply (Discipline.stage_answers hstage ..) rfl
      exact (lastParsed_send_of_none hreply).symm
    · exact (hlast hne).symm

theorem Remembers.remember (h : Remembers lib w) {reply : Reply} {resp : ChatResponse}
    (hstage : stage lib w t = some (.replied turn reply))
    (hparsed : lib.parsed reply = some resp) :
    Remembers lib (w.record t
      (.answers (.rememberResponseId turn.chatId turn.model resp.response_id) ()) p
      (w.shared.rememberResponseId turn.chatId turn.model resp.response_id)) := by
  refine ⟨fun u turn' previous hu => ?_, fun u turn' reply' resp' hu hparsed' => ?_,
    fun chatId hnone => ?_⟩
  · obtain ⟨-, hnext⟩ | ⟨-, hold⟩ := Discipline.came_of_answers hstage hu
    · cases hnext
    · exact h.continues u turn' previous hold
  · obtain ⟨-, hnext⟩ | ⟨-, hold⟩ := Discipline.came_of_answers hstage hu
    · cases hnext
    · exact h.replied u turn' reply' resp' hold hparsed'
  · obtain rfl | hne := eq_or_ne chatId turn.chatId
    · refine (memory_rememberResponseId_self ..).trans (congrArg memoryOf ?_)
      exact (h.replied t turn reply resp hstage hparsed).symm
    · refine (memory_rememberResponseId_of_ne hne ..).trans
        (h.kept chatId fun u turn' reply' hu hchat => ?_)
      obtain rfl | hnet := eq_or_ne u t
      · obtain ⟨rfl, -⟩ := Stage.replied.inj (Option.some.inj (hstage.symm.trans hu))
        exact absurd hchat.symm hne
      · exact hnone u turn' reply' ((Discipline.stage_record_of_ne hnet).trans hu) hchat

end Answers

theorem Remembers.of_moves (hfollows : (discipline lib).Follows w) (hlocks : Locks lib w)
    (h : Remembers lib w) {i : Step} (hmoves : (discipline lib).Moves (system lib) w i w') :
    Remembers lib w' := by
  cases hmoves with
  | begins hbegins =>
    rename_i call shared
    obtain rfl : w.shared = shared := Option.some.inj hbegins
    have hold {u : ℕ} {m : Stage} (hu : stage lib (w.begun call ((system lib).program call)
        w.shared) u = some m) (hm : m ≠ (discipline lib).start call) :
        stage lib w u = some m := by
      obtain ⟨-, heq⟩ | ⟨-, hold⟩ := Discipline.came_of_begun hu
      · exact absurd heq hm
      · exact hold
    refine ⟨fun u turn previous hu => ?_, fun u turn reply resp hu hparsed => ?_,
      fun chatId hnone => ?_⟩
    · exact h.continues u turn previous (hold hu (by cases call <;> nofun))
    · exact h.replied u turn reply resp (hold hu (by cases call <;> nofun)) hparsed
    · refine h.kept chatId fun u turn reply hu => hnone u turn reply ?_
      have hne : u ≠ w.started := Nat.ne_of_lt (hfollows.stage_lt hu)
      exact (Discipline.stage_begun_of_ne hne ..).trans hu
  | answers hstage hallows hact hrunning =>
    rename_i t reply op next shared answer m
    cases op with
    | conversationMutex chatId =>
      obtain ⟨model, rfl⟩ := hallows
      cases hact
      exact h.quiet hstage (fun _ => rfl) (memory_entry _ _) nofun nofun nofun
    | lock mutex =>
      obtain ⟨turn, rfl, rfl⟩ := hallows
      obtain ⟨-, heq⟩ := Transition.enabled_eq_some hact
      cases heq
      exact h.quiet hstage (fun _ => rfl) (fun _ => rfl) nofun nofun nofun
    | previousResponseId chatId model =>
      obtain ⟨turn, rfl, rfl, rfl⟩ := hallows
      cases hact
      refine h.quiet hstage (fun _ => rfl) (fun _ => rfl) (fun turn' previous hnext => ?_)
        nofun nofun
      obtain ⟨rfl, rfl⟩ := Stage.sending.inj hnext
      -- Nobody else is in a turn of the chat, so that no reply is waiting to be remembered.
      refine previousResponseId_eq _ (h.kept turn.chatId fun u turn' reply hu hchat => ?_)
      obtain rfl := hlocks.same hstage hu rfl rfl hchat.symm
      cases hstage.symm.trans hu
    | send url payload authkey =>
      cases hact
      obtain ⟨rfl, -⟩ | ⟨turn, previous, rfl, -⟩ := hallows
      · obtain ⟨backend, model, prompt, input, hcall⟩ := call_of_stage hstage
        exact h.quiet hstage (fun _ => lastParsed_send_of_classify hcall) (fun _ => rfl) nofun
          nofun nofun
      · exact h.send hlocks hstage
    | rememberResponseId chatId model id =>
      obtain ⟨turn, reply', resp, rfl, hparsed, rfl, rfl, rfl⟩ := hallows
      cases hact
      exact h.remember hstage hparsed
    | unlock mutex =>
      obtain ⟨turn, rfl, hfinished⟩ := hallows
      have hnext : m.next (.unlock turn.mutex) answer = .left turn := by
        obtain rfl | ⟨reply, rfl, -⟩ := hfinished <;> rfl
      cases hact
      refine h.quiet hstage (fun _ => rfl) (fun _ => rfl) (hnext ▸ nofun) (hnext ▸ nofun)
        fun turn' reply hm => ?_
      obtain rfl | ⟨reply', rfl, hnone⟩ := hfinished
      · cases hm
      · obtain ⟨-, rfl⟩ := Stage.replied.inj hm
        exact hnone
  | waits hstage hallows hact hrunning =>
    rename_i t reply op shared m
    cases op with
    | lock mutex =>
      obtain ⟨-, heq⟩ := Transition.enabled_eq_some hact
      cases heq
    | _ => cases hact
  | ends hstage hpost =>
    refine ⟨fun u turn previous hu => ?_, fun u turn reply resp hu hparsed => ?_,
      fun chatId hnone => ?_⟩
    · exact h.continues u turn previous ((Discipline.stage_ends ..).symm.trans hu)
    · exact h.replied u turn reply resp ((Discipline.stage_ends ..).symm.trans hu) hparsed
    · refine h.kept chatId fun u turn reply hu => hnone u turn reply ?_
      exact (Discipline.stage_ends ..).trans hu
  | hangsUp hstage hhangs hrunning => cases hhangs

-- Everything that holds of the world after any steps.
structure Inv (lib : Library) (w : World) : Prop where
  follows : (discipline lib).Follows w
  locks : Locks lib w
  remembers : Remembers lib w

theorem Inv.initial : Inv lib World.initial where
  follows := Discipline.Follows.initial _
  locks := ⟨⟨nofun, nofun⟩, fun _ _ _ => nofun, fun _ _ _ => nofun, nofun⟩
  remembers := ⟨fun _ _ _ => nofun, fun _ _ _ _ => nofun, fun _ _ => rfl⟩

theorem Inv.of_step (h : Inv lib w) {i : Step} (hstep : step lib w i = some w') : Inv lib w' :=
  have hmoves := Discipline.moves_of_step h.follows hstep
  ⟨h.follows.of_step governs hstep, h.locks.of_moves h.follows hmoves,
    h.remembers.of_moves h.follows h.locks hmoves⟩

theorem Inv.turnsApart (h : Inv lib w) : TurnsApart w := by
  intro t u backend model prompt input backend' model' prompt' input' chatId ht hspan hu hspan'
  have hchat {t : ℕ} {m : Stage} {turn : Turn} {backend : LMStudioBackend}
      {model prompt input : Bytes} (hstage : stage lib w t = some m)
      (hturn : m.lockedTurn = some turn)
      (hcall : callIn t w.history = some (.chat backend model prompt input chatId)) :
      turn.chatId = chatId := by
    have htalk : m.talk = some (turn.chatId, turn.model) := by
      cases m <;> cases hturn <;> rfl
    have hown := call_of_stage hstage
    rw [htalk] at hown
    obtain ⟨_, _, _, hown⟩ := hown
    cases hcall.symm.trans hown
    rfl
  obtain ⟨m, turn, hstage, hturn⟩ := h.locks.spans t hspan
  obtain ⟨m', turn', hstage', hturn'⟩ := h.locks.spans u hspan'
  exact h.locks.same hstage hstage' hturn hturn'
    ((hchat hstage hturn ht).trans (hchat hstage' hturn' hu).symm)

theorem Inv.continues (h : Inv lib w) : Continues lib continued w := by
  intro t url payload authkey backend model prompt input chatId hasks hcall
  obtain ⟨m, hstage, hallows⟩ := Discipline.allows_of_asks h.follows hasks
  have hown := call_of_stage hstage
  obtain ⟨rfl, -⟩ | ⟨turn, previous, rfl, hpayload⟩ := hallows
  · obtain ⟨_, _, _, _, hown⟩ := hown
    cases hcall.symm.trans hown
  · obtain ⟨_, _, _, hown⟩ := hown
    cases hcall.symm.trans hown
    rw [hpayload, h.remembers.continues t turn previous hstage]

-- The only operation that a thread with a classifier request can be at.
theorem send_of_classify {backend : LMStudioBackend} {model prompt input : Bytes}
    (hcall : callIn t w.history = some (.classify backend model prompt input))
    (hstage : stage lib w t = some m) {op : Op} (hallows : m.Allows lib op) :
    ∃ url payload authkey, op = .send url payload authkey ∧ previousIdOf payload = none := by
  have htalk : m.talk = none := by
    have hown := call_of_stage hstage
    cases htalk : m.talk with
    | none => rfl
    | some talk =>
      rw [htalk] at hown
      obtain ⟨_, _, _, hown⟩ := hown
      cases hcall.symm.trans hown
  cases op with
  | send url payload authkey =>
    obtain ⟨-, hnone⟩ | ⟨turn, previous, rfl, -⟩ := hallows
    · exact ⟨url, payload, authkey, rfl, hnone⟩
    · cases htalk
  | conversationMutex chatId =>
    obtain ⟨model, rfl⟩ := hallows
    cases htalk
  | lock mutex | previousResponseId chatId model =>
    obtain ⟨turn, rfl, -⟩ := hallows
    cases htalk
  | rememberResponseId chatId model id =>
    obtain ⟨turn, reply, resp, rfl, -⟩ := hallows
    cases htalk
  | unlock mutex =>
    obtain ⟨turn, -, rfl | ⟨reply, rfl, -⟩⟩ := hallows <;> cases htalk

theorem Inv.classifiersApart (h : Inv lib w) : ClassifiersApart lib w := by
  intro t backend model prompt input hcall
  refine ⟨fun op hasks => ?_, fun reply w' hstep => ?_⟩
  · obtain ⟨m, hstage, hallows⟩ := Discipline.allows_of_asks h.follows hasks
    exact send_of_classify hcall hstage hallows
  · cases Discipline.moves_of_step h.follows hstep with
    | answers hstage hallows hact hrunning =>
      obtain ⟨url, payload, authkey, rfl, -⟩ := send_of_classify hcall hstage hallows
      cases hact
      rfl
    | waits hstage hallows hact hrunning =>
      obtain ⟨url, payload, authkey, rfl, -⟩ := send_of_classify hcall hstage hallows
      cases hact

theorem Inv.of_path {steps : List Step}
    (h : Transition.path (step lib) World.initial steps = some w) : Inv lib w :=
  Transition.path_invariant_of_step (Inv lib) (fun _ _ _ hinv hstep => hinv.of_step hstep)
    Inv.initial h

end Steps

end Invariant

-- Whatever the threads do, a turn of a chat goes on from the last one of which a reply was parsed,
-- if that was of the same model and had an identifier that is not empty.
theorem turns_continue {lib : Library} {steps : List Step} {w : World}
    (h : Transition.path (step lib) World.initial steps = some w) :
    TurnsApart w ∧ Continues lib continued w ∧ ClassifiersApart lib w :=
  have hinv := Inv.of_path h
  ⟨hinv.turnsApart, hinv.continues, hinv.classifiersApart⟩

def replyWith (id : Bytes) : Bytes :=
  ascii "\x7b\"response_id\":\"" ++ id ++ ascii "\"\x7d"

-- The library, as far as one reply goes.
def libraryFor (id : Bytes) : Library where
  parse raw :=
    if raw = replyWith id then .ok (.object [(ascii "response_id", .string id)])
    else .error (.thrown (ascii "parse error"))
  floating _ := 0

def backend : LMStudioBackend := ⟨ascii "http://localhost:1234", []⟩

-- A turn that has its reply, and another one of the same chat that is sending.
def twoTurns (id : Bytes) : List Step :=
  let failed : Reply := .ok none
  [.begins (.chat backend (ascii "m") [] (ascii "a") 1), .acts 0 failed, .acts 0 failed,
    .acts 0 failed, .begins (.chat backend (ascii "m") [] (ascii "b") 1), .acts 1 failed,
    .acts 0 (.ok (some (replyWith id))), .acts 0 failed, .acts 0 failed, .acts 1 failed,
    .acts 1 failed]

theorem turns_continue_twoTurns :
    ∃ w, Transition.path (step (libraryFor (ascii "resp_1"))) World.initial
        (twoTurns (ascii "resp_1")) = some w ∧
      (w.asks 1 = some (.send (backend.url_ ++ kChatEndpoint)
        { ChatRequest.plain (ascii "m") (ascii "b") [] with
          previous_response_id := some (ascii "resp_1") }.to_json []) ∧
        TurnsApart w ∧ Continues (libraryFor (ascii "resp_1")) continued w ∧
        ClassifiersApart (libraryFor (ascii "resp_1")) w) := by
  obtain ⟨w, hpath, hasks⟩ := Transition.exists_path (step (libraryFor (ascii "resp_1")))
    World.initial (twoTurns (ascii "resp_1"))
    (fun w => w.asks 1 = some (.send (backend.url_ ++ kChatEndpoint)
      { ChatRequest.plain (ascii "m") (ascii "b") [] with
        previous_response_id := some (ascii "resp_1") }.to_json [])) (by decide +kernel)
  exact ⟨w, hpath, hasks, turns_continue hpath⟩

-- An empty identifier counts as none.
theorem empty_id_not_continued :
    ¬ ∀ (lib : Library) (steps : List Step) (w : World),
      Transition.path (step lib) World.initial steps = some w → Continues lib resumed w := by
  intro h
  obtain ⟨w, hpath, hasks, hcall, hlast⟩ := Transition.exists_path (step (libraryFor []))
    World.initial (twoTurns [])
    (fun w => w.asks 1 = some (.send (backend.url_ ++ kChatEndpoint)
      (ChatRequest.plain (ascii "m") (ascii "b") []).to_json []) ∧
      callIn 1 w.history = some (.chat backend (ascii "m") [] (ascii "b") 1) ∧
      lastParsed (libraryFor []) 1 w.history = some (ascii "m", some [])) (by decide +kernel)
  have hprevious := h _ _ w hpath 1 _ _ _ _ _ _ _ _ hasks hcall
  rw [hlast, previousIdOf, ChatRequest.previous_response_id_to_json] at hprevious
  exact absurd hprevious (by decide)

end Glider.Llm.LMStudioBackend

import Glider.Lib.History
import Glider.Lib.Json
import Glider.Llm.ToolSafety

namespace Glider.Llm.ToolLoop

open Glider.Lib
open Bytes (ascii)

def kMaxToolIterations : ℕ := 6

structure ToolCall where
  id : Bytes
  name : Bytes
  input : Json

-- The answer to one call, as it goes into the conversation.
structure ToolResult where
  id : Bytes
  content : Bytes
  isError : Bool

-- How a turn ends: with a text or without one, or by an exception that leaves `chat`.
inductive Ending where
  | returned (text : Option Bytes)
  | threw

-- What a loop makes of a parsed response: it ends there, or there is a message with calls.
inductive Reading where
  | ended (ending : Ending)
  | batch (lastText : Option Bytes) (message : Json) (calls : List Json)

-- The two loops are alike; what differs is how a provider writes things down.
structure Provider where
  initial : List Json
  payload : List Json → Json
  read : Json → Option Bytes → Reading
  -- The first pass over the calls, which makes sure of the id and of the name.
  callId : Json → Except Bytes Bytes
  -- The second pass, in which they are executed.
  call : (Bytes → Option Json) → Json → Except Bytes ToolCall
  answers : List ToolResult → List Json

inductive Transfer where
  | notSent
  | aborted
  | failed
  | reply (raw : Bytes)

inductive Outcome where
  | returned (text : Bytes) (isError : Bool)
  | threw (what : Bytes)
  | threwOther

-- Everything outside the loop: the answers of `cancelled_`, the transfers and the executions, each
-- in the order they are asked for, and the JSON library.
structure World where
  cancelled : ℕ → Bool
  transfer : ℕ → Transfer
  outcome : ℕ → Outcome
  parse : Bytes → Option Json
  dump : Json → Option Bytes

inductive Event where
  | polled (answer : Bool)
  | sent (payload : Json)
  | response (calls : List Json)
  | accepted (callIds : List Bytes)
  | executed (call : ToolCall)

structure Chat where
  polls : ℕ
  sends : ℕ
  runs : ℕ
  messages : List Json
  budget : ToolCallBudget
  lastText : Option Bytes
  history : List Event

namespace Chat

variable (p : Provider) (w : World)

def start : Chat := ⟨0, 0, 0, p.initial, .empty, none, []⟩

def log (t : Chat) (event : Event) : Chat := { t with history := event :: t.history }

def poll (t : Chat) : Bool × Chat :=
  (w.cancelled t.polls, { t with polls := t.polls + 1 }.log (.polled (w.cancelled t.polls)))

-- `send_json_get_reply`. A transfer in which the cancellation is observed has no reply.
def send (t : Chat) (payload : Json) : Option Bytes × Chat :=
  let next := { t with sends := t.sends + 1 }
  match w.transfer t.sends with
  | .notSent => (none, next)
  | .aborted => (none, (next.log (.sent payload)).log (.polled true))
  | .failed => (none, next.log (.sent payload))
  | .reply raw => (some raw, next.log (.sent payload))

def execute (t : Chat) (call : ToolCall) : Outcome × Chat :=
  (w.outcome t.runs, { t with runs := t.runs + 1 }.log (.executed call))

def toolFailed (what : Bytes) : Bytes := ascii "Tool execution failed: " ++ what

-- `executeUnlessCancelled` and what is made of its result.
def runCall (t : Chat) (call : ToolCall) : Except Ending ToolResult × Chat :=
  match t.poll w with
  | (true, t) => (.error (.returned t.lastText), t)
  | (false, t) =>
    match t.execute w call with
    | (.returned text isError, t) => (.ok ⟨call.id, boundedToolResult text, isError⟩, t)
    | (.threw what, t) => (.ok ⟨call.id, boundedToolResult (toolFailed what), true⟩, t)
    | (.threwOther, t) => (.error .threw, t)

-- The second pass over a batch.
def runCalls : List Json → Chat → Except Ending (List ToolResult) × Chat
  | [], t => (.ok [], t)
  | json :: rest, t =>
    match p.call w.parse json with
    | .error _ => (.error .threw, t)
    | .ok call =>
      match t.runCall w call with
      | (.error ending, t) => (.error ending, t)
      | (.ok result, t) =>
        match runCalls rest t with
        | (.error ending, t) => (.error ending, t)
        | (.ok results, t) => (.ok (result :: results), t)

def callIds (calls : List Json) : Except Bytes (List Bytes) :=
  calls.mapM p.callId

def malformed (what : Bytes) : Bytes :=
  ascii "Tool-call batch rejected: malformed call: " ++ what

def rejected (reason : Bytes) : Bytes :=
  ascii "Tool-call batch rejected: " ++ reason ++ ascii "."

-- A message with calls. Without an ending the loop goes on.
def takeBatch (t : Chat) (message : Json) (calls : List Json) : Option Ending × Chat :=
  let t := t.log (.response calls)
  match callIds p calls with
  | .error what => (some (.returned (some (malformed what))), t)
  | .ok ids =>
    match t.budget.acceptBatch ids with
    | (some reason, _) => (some (.returned (some (rejected reason))), t)
    | (none, budget) =>
      let t := { t with
        budget
        messages := t.messages ++ [message] }.log (.accepted ids)
      match runCalls p w calls t with
      | (.error ending, t) => (some ending, t)
      | (.ok results, t) => (none, { t with messages := t.messages ++ p.answers results })

def takeReply (t : Chat) (raw : Bytes) : Option Ending × Chat :=
  match t.poll w with
  | (true, t) => (some (.returned t.lastText), t)
  | (false, t) =>
    match w.parse raw with
    | none => (some (.returned none), t)
    | some response =>
      match p.read response t.lastText with
      | .ended ending => (some ending, t)
      | .batch lastText message calls => takeBatch p w { t with lastText } message calls

-- One turn of the `for` loop.
def iterate (t : Chat) : Option Ending × Chat :=
  match t.poll w with
  | (true, t) => (some (.returned t.lastText), t)
  | (false, t) =>
    match w.dump (p.payload t.messages) with
    | none => (some .threw, t)
    | some _ =>
      match t.send w (p.payload t.messages) with
      | (none, t) => (some (.returned none), t)
      | (some raw, t) => takeReply p w t raw

def limitReached : Bytes :=
  ascii "Tool call limit reached before completing the request."

def loop : ℕ → Chat → Ending × Chat
  | 0, t => (.returned (some (t.lastText.getD limitReached)), t)
  | iterations + 1, t =>
    match iterate p w t with
    | (some ending, t) => (ending, t)
    | (none, t) => loop iterations t

def run : Ending × Chat := loop p w kMaxToolIterations (start p)

end Chat

-- How the messages of a provider are read back.
structure Format where
  id? : Json → Option Bytes
  name? : Json → Option Bytes
  calls : Json → List Json
  assistant : Json → Prop
  results : Json → List (Bytes × Bytes)

structure Provider.Follows (p : Provider) (f : Format) : Prop where
  payload : ∀ messages, (p.payload messages).find (ascii "messages") = some (.array messages)
  initial : ∀ m ∈ p.initial, ¬f.assistant m
  callId : ∀ json id, p.callId json = .ok id ↔ f.id? json = some id ∧ (f.name? json).isSome = true
  call : ∀ parse json c, p.call parse json = .ok c → f.id? json = some c.id
  read : ∀ response text lastText message calls,
    p.read response text = .batch lastText message calls → f.calls message = calls ∧ calls ≠ []
  assistant : ∀ m, f.calls m ≠ [] → f.assistant m
  plain : ∀ results, ∀ m ∈ p.answers results, ¬f.assistant m
  answers : ∀ results, (p.answers results).flatMap f.results =
    results.map fun r => (r.id, r.content)

section History

-- The ids of all accepted calls, of all executed ones, and how many were executed since the last
-- response.
def used : List Event → List Bytes
  | [] => []
  | .accepted ids :: older => used older ++ ids
  | _ :: older => used older

def executed : List Event → List Bytes
  | [] => []
  | .executed call :: older => executed older ++ [call.id]
  | _ :: older => executed older

def burst : List Event → ℕ
  | [] => 0
  | .executed _ :: older => burst older + 1
  | .response _ :: _ => 0
  | _ :: older => burst older

variable (f : Format)

-- A batch that must not be executed, in view of the calls accepted before it.
def Bad (calls : List Json) (older : List Event) : Prop :=
  (∃ call ∈ calls, f.id? call = none ∨ f.name? call = none) ∨
    (∃ call ∈ calls, ∃ id ∈ used older, f.id? call = some id) ∨ ¬(calls.map f.id?).Nodup ∨
    kMaxToolCallsPerResponse < calls.length ∨
    kMaxToolCallsPerTurn < (used older).length + calls.length

-- Each message with calls is followed by one result for each of them, in their order, up to the
-- next message of the assistant.
def Answered (messages : List Json) : Prop :=
  ∀ before m after, messages = before ++ m :: after → f.calls m ≠ [] →
    ∃ answers rest, after = answers ++ rest ∧
      (answers.flatMap f.results).map (fun r => some r.1) = (f.calls m).map f.id? ∧
      (∀ r ∈ answers.flatMap f.results, r.2.length ≤ kMaxToolResultBytes) ∧
      (∀ a ∈ answers, ¬f.assistant a) ∧ ∀ next ∈ rest.head?, f.assistant next

def Fine (event : Event) (older : List Event) : Prop :=
  (∀ calls rest, older = .response calls :: rest → ¬Bad f calls rest) ∧
    match event with
    | .executed _ => .polled true ∉ older ∧ burst older < kMaxToolCallsPerResponse
    | .sent payload =>
      ∃ messages, payload.find (ascii "messages") = some (.array messages) ∧ Answered f messages
    | _ => True

-- The record of a turn at any time; `pending` are the ids of the batch that are still to come.
structure Orderly (h : List Event) (pending : List Bytes) : Prop where
  explained : Explained (Fine f) h
  batch : executed h ++ pending = used h
  burst : burst h + pending.length ≤ kMaxToolCallsPerResponse
  nodup : (used h).Nodup
  size : (used h).length ≤ kMaxToolCallsPerTurn
  nonempty : ∀ id ∈ used h, id ≠ []

-- The record of a turn that goes on.
structure Live (h : List Event) (pending : List Bytes) : Prop extends Orderly f h pending where
  unseen : .polled true ∉ h
  settled : ∀ calls rest, h = .response calls :: rest → ¬Bad f calls rest

variable {f} {h : List Event} {pending : List Bytes}

theorem Live.fine (hl : Live f h pending) {event : Event}
    (hevent : match event with
      | .executed _ => .polled true ∉ h ∧ ToolLoop.burst h < kMaxToolCallsPerResponse
      | .sent payload =>
        ∃ messages, payload.find (ascii "messages") = some (.array messages) ∧ Answered f messages
      | _ => True) : Explained (Fine f) (event :: h) :=
  ⟨⟨hl.settled, hevent⟩, hl.explained⟩

theorem live_nil : Live f [] [] where
  explained := trivial
  batch := rfl
  burst := by decide
  nodup := List.nodup_nil
  size := by decide
  nonempty := by simp [used]
  unseen := by simp
  settled := by simp

theorem Live.cancelled (hl : Live f h pending) : Orderly f (.polled true :: h) pending :=
  ⟨hl.fine trivial, hl.batch, hl.burst, hl.nodup, hl.size, hl.nonempty⟩

theorem Live.poll (hl : Live f h pending) : Live f (.polled false :: h) pending where
  toOrderly := ⟨hl.fine trivial, hl.batch, hl.burst, hl.nodup, hl.size, hl.nonempty⟩
  unseen := by simpa using hl.unseen
  settled := by simp

theorem Live.sent (hl : Live f h pending) {payload : Json} {messages : List Json}
    (hmessages : payload.find (ascii "messages") = some (.array messages))
    (hanswered : Answered f messages) : Live f (.sent payload :: h) pending where
  toOrderly := ⟨hl.fine ⟨messages, hmessages, hanswered⟩, hl.batch, hl.burst, hl.nodup, hl.size,
    hl.nonempty⟩
  unseen := by simpa using hl.unseen
  settled := by simp

theorem Live.response (hl : Live f h []) (calls : List Json) :
    Orderly f (.response calls :: h) [] where
  explained := hl.fine trivial
  batch := hl.batch
  burst := Nat.zero_le _
  nodup := hl.nodup
  size := hl.size
  nonempty := hl.nonempty

-- A batch with ids that fit is not a bad one.
structure Fits (f : Format) (h : List Event) (calls : List Json) (ids : List Bytes) : Prop where
  identified : calls.map f.id? = ids.map some
  named : ∀ call ∈ calls, (f.name? call).isSome = true
  response : ids.length ≤ kMaxToolCallsPerResponse
  turn : (used h).length + ids.length ≤ kMaxToolCallsPerTurn
  nodup : ids.Nodup
  fresh : ∀ id ∈ ids, id ≠ [] ∧ id ∉ used h

theorem Fits.length {calls : List Json} {ids : List Bytes} (hfits : Fits f h calls ids) :
    ids.length = calls.length := by
  have hlength := congrArg List.length hfits.identified
  simpa using hlength.symm

theorem Fits.not_bad {calls : List Json} {ids : List Bytes} (hfits : Fits f h calls ids) :
    ¬Bad f calls h := by
  have hid : ∀ call ∈ calls, ∃ id ∈ ids, f.id? call = some id := by
    intro call hcall
    have hmem : f.id? call ∈ ids.map some := hfits.identified ▸ List.mem_map_of_mem hcall
    obtain ⟨id, hid, heq⟩ := List.mem_map.mp hmem
    exact ⟨id, hid, heq.symm⟩
  have hresponse := hfits.response
  have hturn := hfits.turn
  rw [hfits.length] at hresponse hturn
  rintro (⟨call, hcall, hmissing⟩ | ⟨call, hcall, id, hused, heq⟩ | hdouble | hmany | hmany)
  · obtain ⟨id, -, hsome⟩ := hid call hcall
    have hname := hfits.named call hcall
    rcases hmissing with hnone | hnone
    · rw [hnone] at hsome
      cases hsome
    · rw [hnone] at hname
      cases hname
  · obtain ⟨id', hin, hsome⟩ := hid call hcall
    rw [heq, Option.some.injEq] at hsome
    exact (hfits.fresh id' hin).2 (hsome ▸ hused)
  · rw [hfits.identified] at hdouble
    exact hdouble (hfits.nodup.map fun _ _ => Option.some.inj)
  · omega
  · omega

theorem Live.accepted (hl : Live f h []) {calls : List Json} {ids : List Bytes}
    (hfits : Fits f h calls ids) : Live f (.accepted ids :: .response calls :: h) ids where
  explained := by
    refine ⟨⟨?_, trivial⟩, (hl.response calls).explained⟩
    intro calls' rest heq
    obtain ⟨hcalls, rfl⟩ := List.cons.inj heq
    obtain rfl := Event.response.inj hcalls
    exact hfits.not_bad
  batch := by
    have hbatch := hl.batch
    rw [List.append_nil] at hbatch
    simp only [executed, used, hbatch]
  burst := by simpa [ToolLoop.burst] using hfits.response
  nodup := by
    show (used h ++ ids).Nodup
    rw [List.nodup_append']
    refine ⟨hl.nodup, hfits.nodup, ?_⟩
    intro id hused hid
    exact (hfits.fresh id hid).2 hused
  size := by
    show (used h ++ ids).length ≤ kMaxToolCallsPerTurn
    rw [List.length_append]
    exact hfits.turn
  nonempty := by
    intro id hid
    rcases List.mem_append.mp hid with hid | hid
    · exact hl.nonempty id hid
    · exact (hfits.fresh id hid).1
  unseen := by simpa using hl.unseen
  settled := by simp

theorem Live.execute {call : ToolCall} {rest : List Bytes} (hl : Live f h (call.id :: rest)) :
    Live f (.executed call :: h) rest where
  explained := by
    refine hl.fine ⟨hl.unseen, ?_⟩
    have hburst := hl.burst
    rw [List.length_cons] at hburst
    omega
  batch := by
    rw [executed, List.append_assoc, List.singleton_append]
    exact hl.batch
  burst := by
    have hburst := hl.burst
    rw [List.length_cons] at hburst
    rw [ToolLoop.burst]
    omega
  nodup := hl.nodup
  size := hl.size
  nonempty := hl.nonempty
  unseen := by simpa using hl.unseen
  settled := by simp

end History

section Messages

-- The messages after the first ones: one with calls and the answers to it, again and again.
inductive Rounds (f : Format) : List Json → Prop
  | nil : Rounds f []
  | cons {m : Json} {answers rest : List Json} (hassistant : f.assistant m)
      (hids : (answers.flatMap f.results).map (fun r => some r.1) = (f.calls m).map f.id?)
      (hbound : ∀ r ∈ answers.flatMap f.results, r.2.length ≤ kMaxToolResultBytes)
      (hplain : ∀ a ∈ answers, ¬f.assistant a) (hrest : Rounds f rest) :
      Rounds f (m :: answers ++ rest)

variable {f : Format}

theorem Rounds.append {rounds rounds' : List Json} (h : Rounds f rounds) (h' : Rounds f rounds') :
    Rounds f (rounds ++ rounds') := by
  induction h with
  | nil => exact h'
  | cons hassistant hids hbound hplain hrest ih =>
    rw [List.append_assoc]
    exact .cons hassistant hids hbound hplain ih

theorem Rounds.head (h : Rounds f rounds) : ∀ next ∈ rounds.head?, f.assistant next := by
  cases h with
  | nil => simp
  | cons hassistant hids hbound hplain hrest => simpa using hassistant

-- Plain messages before are passed over.
theorem answered_append {plain messages : List Json} (hplain : ∀ a ∈ plain, ¬f.assistant a)
    (hcalls : ∀ m, f.calls m ≠ [] → f.assistant m) (h : Answered f messages) :
    Answered f (plain ++ messages) := by
  intro before m after heq hm
  rcases List.append_eq_append_iff.mp heq with ⟨between, rfl, rfl⟩ | ⟨between, rfl, hafter⟩
  · exact h between m after rfl hm
  · cases between with
    | nil => exact h [] m after hafter.symm hm
    | cons a between =>
      obtain ⟨rfl, -⟩ := List.cons.inj hafter
      exact absurd (hcalls m hm) (hplain m (by simp))

theorem Rounds.answered (hcalls : ∀ m, f.calls m ≠ [] → f.assistant m) {rounds : List Json}
    (h : Rounds f rounds) : Answered f rounds := by
  induction h with
  | nil =>
    intro before m after heq
    simp at heq
  | @cons m answers rest hassistant hids hbound hplain hrest ih =>
    intro before m' after heq hm'
    cases before with
    | nil =>
      obtain ⟨rfl, rfl⟩ := List.cons.inj heq
      exact ⟨answers, rest, rfl, hids, hbound, hplain, hrest.head⟩
    | cons first before =>
      obtain ⟨-, htail⟩ := List.cons.inj heq
      exact answered_append hplain hcalls ih before m' after htail hm'

end Messages

section Run

variable {p : Provider} {f : Format} {w : World} {t : Chat}

-- What a call leaves alone.
structure SameTalk (t t' : Chat) : Prop where
  messages : t'.messages = t.messages
  budget : t'.budget = t.budget
  used : used t'.history = used t.history

theorem SameTalk.trans {t t' t'' : Chat} (h : SameTalk t t') (h' : SameTalk t' t'') :
    SameTalk t t'' :=
  ⟨h'.messages.trans h.messages, h'.budget.trans h.budget, h'.used.trans h.used⟩

theorem runCall_spec {call : ToolCall} {rest : List Bytes}
    (hl : Live f t.history (call.id :: rest)) :
    (∀ ending, (t.runCall w call).1 = .error ending →
      ∃ pending, Orderly f (t.runCall w call).2.history pending) ∧
    ∀ result, (t.runCall w call).1 = .ok result →
      Live f (t.runCall w call).2.history rest ∧ SameTalk t (t.runCall w call).2 ∧
        result.id = call.id ∧ result.content.length ≤ kMaxToolResultBytes := by
  unfold Chat.runCall Chat.poll Chat.execute
  cases w.cancelled t.polls with
  | true => exact ⟨fun _ _ => ⟨_, hl.cancelled⟩, nofun⟩
  | false =>
    have hrun := hl.poll.execute
    simp only [Chat.log]
    cases w.outcome t.runs with
    | returned text isError | threw what =>
      refine ⟨nofun, ?_⟩
      rintro result ⟨⟩
      exact ⟨hrun, ⟨rfl, rfl, rfl⟩, rfl, length_boundedToolResult _⟩
    | threwOther => exact ⟨fun _ _ => ⟨_, hrun.toOrderly⟩, nofun⟩

-- A whole batch: every call has its result, or the turn is over.
theorem runCalls_spec (hp : p.Follows f) {calls : List Json} {ids : List Bytes}
    (hids : calls.map f.id? = ids.map some) (hl : Live f t.history ids) :
    (∀ ending, (Chat.runCalls p w calls t).1 = .error ending →
      ∃ pending, Orderly f (Chat.runCalls p w calls t).2.history pending) ∧
    ∀ results, (Chat.runCalls p w calls t).1 = .ok results →
      Live f (Chat.runCalls p w calls t).2.history [] ∧
        SameTalk t (Chat.runCalls p w calls t).2 ∧ results.map ToolResult.id = ids ∧
        ∀ r ∈ results, r.content.length ≤ kMaxToolResultBytes := by
  induction calls generalizing t ids with
  | nil =>
    obtain rfl : ids = [] := by simpa using hids.symm
    refine ⟨nofun, ?_⟩
    rintro results ⟨⟩
    exact ⟨hl, ⟨rfl, rfl, rfl⟩, rfl, by simp⟩
  | cons json rest ih =>
    obtain _ | ⟨id, ids⟩ := ids
    · simp at hids
    simp only [List.map_cons, List.cons.injEq] at hids
    obtain ⟨hid, hids⟩ := hids
    simp only [Chat.runCalls]
    cases hcall : p.call w.parse json with
    | error what => exact ⟨fun _ _ => ⟨_, hl.toOrderly⟩, nofun⟩
    | ok call =>
      have hsame : call.id = id := by
        rw [hp.call _ _ _ hcall, Option.some.injEq] at hid
        exact hid
      subst hsame
      obtain ⟨hfailed, hran⟩ := @runCall_spec f w t call ids hl
      simp only
      generalize t.runCall w call = ran at hfailed hran
      obtain ⟨answer, t'⟩ := ran
      cases answer with
      | error ending => exact ⟨fun _ _ => hfailed ending rfl, nofun⟩
      | ok result =>
        obtain ⟨hl', htalk, hresult, hbound⟩ := hran result rfl
        obtain ⟨hfailed', hran'⟩ := @ih t' ids hids hl'
        simp only
        generalize Chat.runCalls p w rest t' = ran' at hfailed' hran'
        obtain ⟨answer', t''⟩ := ran'
        cases answer' with
        | error ending => exact ⟨fun _ _ => hfailed' ending rfl, nofun⟩
        | ok results =>
          obtain ⟨hl'', htalk', hresults, hbounds⟩ := hran' results rfl
          refine ⟨nofun, ?_⟩
          rintro results' ⟨⟩
          refine ⟨hl'', htalk.trans htalk', ?_, ?_⟩
          · rw [List.map_cons, hresult, hresults]
          · exact List.forall_mem_cons.mpr ⟨hbound, hbounds⟩

-- The conversation between two turns of the loop.
structure Good (p : Provider) (f : Format) (t : Chat) : Prop where
  live : Live f t.history []
  rounds : ∃ rounds, t.messages = p.initial ++ rounds ∧ Rounds f rounds
  budget : t.budget = ⟨(used t.history).length, used t.history⟩

theorem Good.answered (hp : p.Follows f) (h : Good p f t) : Answered f t.messages := by
  obtain ⟨rounds, hmessages, hrounds⟩ := h.rounds
  rw [hmessages]
  exact answered_append hp.initial hp.assistant (hrounds.answered hp.assistant)

-- The ids of a batch are those of its calls, and each call has a name.
theorem callIds_eq_ok (hp : p.Follows f) {calls : List Json} {ids : List Bytes}
    (h : Chat.callIds p calls = .ok ids) :
    calls.map f.id? = ids.map some ∧ ∀ call ∈ calls, (f.name? call).isSome = true := by
  unfold Chat.callIds at h
  induction calls generalizing ids with
  | nil =>
    obtain rfl : [] = ids := Except.ok.inj h
    simp
  | cons json rest ih =>
    rw [List.mapM_cons] at h
    cases hid : p.callId json with
    | error what => simp [hid, bind, Except.bind] at h
    | ok id =>
      cases hrest : rest.mapM p.callId with
      | error what => simp [hid, hrest, bind, Except.bind] at h
      | ok tail =>
        obtain rfl : id :: tail = ids := by
          simpa [hid, hrest, bind, Except.bind, pure, Except.pure] using h
        obtain ⟨hfound, hname⟩ := (hp.callId json id).mp hid
        obtain ⟨hids, hnames⟩ := ih hrest
        refine ⟨?_, List.forall_mem_cons.mpr ⟨hname, hnames⟩⟩
        rw [List.map_cons, List.map_cons, hfound, hids]

theorem Good.takeBatch (hp : p.Follows f) (h : Good p f t) {message : Json} {calls : List Json}
    (hcalls : f.calls message = calls) (hnonempty : calls ≠ []) :
    (∀ ending, (Chat.takeBatch p w t message calls).1 = some ending →
      ∃ pending, Orderly f (Chat.takeBatch p w t message calls).2.history pending) ∧
    ((Chat.takeBatch p w t message calls).1 = none →
      Good p f (Chat.takeBatch p w t message calls).2) := by
  have hlogged := h.live.response calls
  unfold Chat.takeBatch
  simp only
  cases hcallIds : Chat.callIds p calls with
  | error what => exact ⟨fun _ _ => ⟨_, hlogged⟩, nofun⟩
  | ok ids =>
    obtain ⟨hids, hnames⟩ := callIds_eq_ok hp hcallIds
    have hbudget : (t.log (.response calls)).budget = ⟨(used t.history).length,
      used t.history⟩ := h.budget
    simp only
    generalize haccept : (t.log (.response calls)).budget.acceptBatch ids = accepted
    obtain ⟨refusal, budget⟩ := accepted
    cases refusal with
    | some reason => exact ⟨fun _ _ => ⟨_, hlogged⟩, nofun⟩
    | none =>
      have hnone : ((t.log (.response calls)).budget.acceptBatch ids).1 = none := by
        rw [haccept]
      have hnext := ToolCallBudget.acceptBatch_snd hnone
      rw [ToolCallBudget.acceptBatch_eq_none] at hnone
      rw [haccept, hbudget] at hnext
      rw [hbudget] at hnone
      obtain ⟨hresponse, hturn, hnodup, hfresh⟩ := hnone
      have hfits : Fits f t.history calls ids :=
        ⟨hids, hnames, hresponse, hturn, hnodup, hfresh⟩
      obtain ⟨hfailed, hran⟩ := @runCalls_spec p f w
        ({ t.log (.response calls) with
          budget
          messages := (t.log (.response calls)).messages ++ [message] }.log (.accepted ids))
        hp calls ids hids (h.live.accepted hfits)
      simp only
      generalize Chat.runCalls p w calls _ = ran at hfailed hran
      obtain ⟨answer, t'⟩ := ran
      cases answer with
      | error ending => exact ⟨fun _ _ => hfailed ending rfl, nofun⟩
      | ok results =>
        obtain ⟨hl, htalk, hresults, hbound⟩ := hran results rfl
        refine ⟨nofun, fun _ => ⟨hl, ?_, ?_⟩⟩
        · obtain ⟨rounds, hmessages, hrounds⟩ := h.rounds
          have hround : Rounds f (message :: p.answers results ++ []) := by
            refine .cons (hp.assistant message (hcalls ▸ hnonempty)) ?_ ?_
              (hp.plain results) .nil
            · rw [hp.answers, hcalls, hids, ← hresults, List.map_map, List.map_map]
              rfl
            · rw [hp.answers]
              intro r hr
              obtain ⟨result, hresult, rfl⟩ := List.mem_map.mp hr
              exact hbound result hresult
          rw [List.append_nil] at hround
          refine ⟨rounds ++ message :: p.answers results, ?_, hrounds.append hround⟩
          show t'.messages ++ p.answers results = _
          rw [htalk.messages, ← List.append_assoc, ← hmessages]
          simp [Chat.log]
        · show t'.budget = ⟨(used t'.history).length, used t'.history⟩
          have hused : used t'.history = used t.history ++ ids := htalk.used
          have hkept : t'.budget = budget := htalk.budget
          have hgrown : budget = ⟨(used t.history).length + ids.length, used t.history ++ ids⟩ :=
            hnext
          rw [hkept, hgrown, hused, List.length_append]

theorem Good.takeReply (hp : p.Follows f) (h : Good p f t) (raw : Bytes) :
    (∀ ending, (Chat.takeReply p w t raw).1 = some ending →
      ∃ pending, Orderly f (Chat.takeReply p w t raw).2.history pending) ∧
    ((Chat.takeReply p w t raw).1 = none → Good p f (Chat.takeReply p w t raw).2) := by
  unfold Chat.takeReply Chat.poll
  cases w.cancelled t.polls with
  | true => exact ⟨fun _ _ => ⟨_, h.live.cancelled⟩, nofun⟩
  | false =>
    have hpolled := h.live.poll
    simp only [Chat.log]
    cases w.parse raw with
    | none => exact ⟨fun _ _ => ⟨_, hpolled.toOrderly⟩, nofun⟩
    | some response =>
      simp only
      cases hread : p.read response t.lastText with
      | ended ending => exact ⟨fun _ _ => ⟨_, hpolled.toOrderly⟩, nofun⟩
      | batch lastText message calls =>
        obtain ⟨hcalls, hnonempty⟩ := hp.read _ _ _ _ _ hread
        have hgood : Good p f { t with
            polls := t.polls + 1
            lastText
            history := .polled false :: t.history } := ⟨hpolled, h.rounds, h.budget⟩
        exact hgood.takeBatch hp hcalls hnonempty

-- One turn of the loop keeps the conversation in order, or ends it.
theorem Good.iterate (hp : p.Follows f) (h : Good p f t) :
    (∀ ending, (Chat.iterate p w t).1 = some ending →
      ∃ pending, Orderly f (Chat.iterate p w t).2.history pending) ∧
    ((Chat.iterate p w t).1 = none → Good p f (Chat.iterate p w t).2) := by
  unfold Chat.iterate Chat.poll
  cases w.cancelled t.polls with
  | true => exact ⟨fun _ _ => ⟨_, h.live.cancelled⟩, nofun⟩
  | false =>
    have hpolled := h.live.poll
    simp only [Chat.log]
    cases w.dump (p.payload t.messages) with
    | none => exact ⟨fun _ _ => ⟨_, hpolled.toOrderly⟩, nofun⟩
    | some text =>
      have hsent := hpolled.sent (hp.payload t.messages) (h.answered hp)
      simp only [Chat.send, Chat.log]
      cases w.transfer t.sends with
      | notSent => exact ⟨fun _ _ => ⟨_, hpolled.toOrderly⟩, nofun⟩
      | aborted => exact ⟨fun _ _ => ⟨_, hsent.cancelled⟩, nofun⟩
      | failed => exact ⟨fun _ _ => ⟨_, hsent.toOrderly⟩, nofun⟩
      | reply raw =>
        have hgood : Good p f { t with
            polls := t.polls + 1
            sends := t.sends + 1
            history := .sent (p.payload t.messages) :: .polled false :: t.history } :=
          ⟨hsent, h.rounds, h.budget⟩
        exact hgood.takeReply hp raw

theorem Good.loop (hp : p.Follows f) (iterations : ℕ) (h : Good p f t) :
    ∃ pending, Orderly f (Chat.loop p w iterations t).2.history pending := by
  induction iterations generalizing t with
  | zero => exact ⟨[], h.live.toOrderly⟩
  | succ iterations ih =>
    obtain ⟨hended, hnext⟩ := @Good.iterate p f w t hp h
    unfold Chat.loop
    generalize Chat.iterate p w t = turn at hended hnext
    obtain ⟨ending, t'⟩ := turn
    cases ending with
    | some ending => exact hended ending rfl
    | none => exact ih (hnext rfl)

theorem good_start (p : Provider) (f : Format) : Good p f (Chat.start p) where
  live := live_nil
  rounds := ⟨[], by simp [Chat.start], .nil⟩
  budget := rfl

end Run

-- What holds of everything that happened in a turn, newest first.
structure Safe (f : Format) (history : List Event) : Prop where
  response : ∀ newer older, history = newer ++ older → burst older ≤ kMaxToolCallsPerResponse
  turn : (executed history).length ≤ kMaxToolCallsPerTurn
  distinct : (executed history).Nodup
  nonempty : ∀ id ∈ executed history, id ≠ []
  rejected : ∀ newer calls older, history = newer ++ .response calls :: older →
    Bad f calls older → newer = []
  cancelled : ∀ newer older, history = newer ++ .polled true :: older →
    ∀ call, .executed call ∉ newer
  answered : ∀ payload, .sent payload ∈ history →
    ∃ messages, payload.find (ascii "messages") = some (.array messages) ∧ Answered f messages

section Safety

variable {f : Format} {h : List Event} {pending : List Bytes}

theorem burst_le (he : Explained (Fine f) h) : burst h ≤ kMaxToolCallsPerResponse := by
  induction h with
  | nil => exact Nat.zero_le _
  | cons event older ih =>
    have hbefore := ih he.2
    cases event with
    | executed call => exact he.1.2.2
    | response calls => exact Nat.zero_le _
    | polled answer | sent payload | accepted ids => exact hbefore

theorem Orderly.safe (ho : Orderly f h pending) : Safe f h where
  response := by
    rintro newer older rfl
    exact burst_le ho.explained.of_append
  turn := by
    have hsize := ho.size
    rw [← ho.batch, List.length_append] at hsize
    omega
  distinct := by
    have hnodup := ho.nodup
    rw [← ho.batch] at hnodup
    exact hnodup.of_append_left
  nonempty := by
    intro id hid
    refine ho.nonempty id ?_
    rw [← ho.batch]
    exact List.mem_append_left _ hid
  rejected := by
    intro newer calls older heq hbad
    -- the event right after the response would have had to explain it
    rcases List.eq_nil_or_concat newer with rfl | ⟨front, event, rfl⟩
    · rfl
    · rw [List.concat_eq_append, List.append_assoc] at heq
      have hfine := explained_iff.mp ho.explained front event _ heq
      exact absurd hbad (hfine.1 calls older rfl)
  cancelled := by
    intro newer older heq call hmem
    obtain ⟨front, back, rfl⟩ := List.append_of_mem hmem
    have hfine := explained_iff.mp ho.explained front (.executed call)
      (back ++ .polled true :: older) (by rw [heq]; simp)
    exact hfine.2.1 (by simp)
  answered := by
    intro payload hmem
    obtain ⟨newer, older, heq⟩ := List.append_of_mem hmem
    exact (explained_iff.mp ho.explained newer _ older heq).2

-- Whatever the model answers, the tools do and the user cancels.
theorem run_safe {p : Provider} (hp : p.Follows f) (w : World) :
    Safe f (Chat.run p w).2.history := by
  obtain ⟨pending, ho⟩ := @Good.loop p f w (Chat.start p) hp kMaxToolIterations (good_start p f)
  exact ho.safe

end Safety

end Glider.Llm.ToolLoop

import Glider.Lib.Threads
import Glider.Llm.LMStudioApi

namespace Glider.Llm.LMStudioApi

open Glider.Lib
open Bytes (ascii)
open Json (optional find_cons find_append find_optional)

-- A float is kept as the text that is written for it.
abbrev FloatText := Bytes

inductive Reasoning where
  | off
  | low
  | medium
  | high
  | on

def Reasoning.text : Reasoning → Bytes
  | off => ascii "off"
  | low => ascii "low"
  | medium => ascii "medium"
  | high => ascii "high"
  | on => ascii "on"

namespace ChatRequest

structure InputObject where
  type : Bytes
  content : Bytes

structure Plugin where
  type : Bytes
  id : Bytes
  allowed_tools : Option (List Bytes)

inductive Input where
  | text (message : Bytes)
  | objects (items : List InputObject)

inductive Integrations where
  | monostate
  | names (ids : List Bytes)
  | plugins (items : List Plugin)

end ChatRequest

structure ChatRequest where
  model : Bytes
  input : ChatRequest.Input
  system_prompt : Option Bytes
  integrations : ChatRequest.Integrations
  stream : Option Bool
  temperature : Option FloatText
  top_p : Option FloatText
  top_k : Option Int32
  min_p : Option FloatText
  repeat_penalty : Option FloatText
  max_output_tokens : Option Int32
  reasoning : Option Reasoning
  context_length : Option Int32
  store : Option Bool
  previous_response_id : Option Bytes

namespace ChatResponse

structure Output where
  type : Bytes
  content : Bytes

structure Stats where
  input_tokens : Int32
  total_output_tokens : Int32
  reasoning_output_tokens : Int32
  tokens_per_second : FloatText
  time_to_first_token_seconds : FloatText
  model_load_time_seconds : Option FloatText

end ChatResponse

structure ChatResponse where
  model_instance_id : Bytes
  output : List ChatResponse.Output
  stats : ChatResponse.Stats
  response_id : Option Bytes

section Requests

namespace ChatRequest

-- A request of which nothing but the model and the texts is set.
def plain (model : Bytes) (input systemPrompt : Bytes) : ChatRequest :=
  ⟨model, .text input, some systemPrompt, .monostate, none, none, none, none, none, none, none,
    none, none, none, none⟩

def InputObject.to_json (p : InputObject) : Json :=
  .object [(ascii "type", .string p.type), (ascii "content", .string p.content)]

def Plugin.to_json (p : Plugin) : Json :=
  .object ([(ascii "type", .string p.type), (ascii "id", .string p.id)] ++
    optional (ascii "allowed_tools") (p.allowed_tools.map fun tools => .array (tools.map .string)))

def Input.to_json : Input → Json
  | .text message => .string message
  | .objects items => .array (items.map InputObject.to_json)

def Integrations.to_json : Integrations → Json
  | .monostate => .null
  | .names ids => .array (ids.map .string)
  | .plugins items => .array (items.map Plugin.to_json)

def to_json (p : ChatRequest) : Json :=
  .object ([(ascii "model", .string p.model), (ascii "input", p.input.to_json)] ++
    optional (ascii "system_prompt") (p.system_prompt.map .string) ++
    [(ascii "integrations", p.integrations.to_json)] ++
    optional (ascii "stream") (p.stream.map .bool) ++
    optional (ascii "temperature") (p.temperature.map .number) ++
    optional (ascii "top_p") (p.top_p.map .number) ++
    optional (ascii "top_k") (p.top_k.map ofInt32) ++
    optional (ascii "min_p") (p.min_p.map .number) ++
    optional (ascii "repeat_penalty") (p.repeat_penalty.map .number) ++
    optional (ascii "max_output_tokens") (p.max_output_tokens.map ofInt32) ++
    optional (ascii "reasoning") (p.reasoning.map fun r => .string r.text) ++
    optional (ascii "context_length") (p.context_length.map ofInt32) ++
    optional (ascii "store") (p.store.map .bool) ++
    optional (ascii "previous_response_id") (p.previous_response_id.map .string))

theorem previous_response_id_to_json (p : ChatRequest) :
    p.to_json.find (ascii "previous_response_id") = p.previous_response_id.map .string := by
  simp +decide [to_json, find_append, find_optional, find_cons]

end ChatRequest

def makeClassifierRequest (model systemPrompt userInput : Bytes) : ChatRequest :=
  { ChatRequest.plain model userInput systemPrompt with
    temperature := some (ascii "0.0")
    max_output_tokens := some 32
    reasoning := some .off
    store := some false }

end Requests

section Responses

variable (floating : Bytes → ℤ)

def getFloat (v : Json) : Read FloatText :=
  ofLibrary (v.getNumber id fun b => if b then ascii "1.0" else ascii "0.0")

namespace ChatResponse

def Output.from_json (j : Json) (p : Output) : Read Output := do
  let type ← getTo (fresh getString) j "type" p.type
  let content ← getTo (fresh getString) j "content" p.content
  return ⟨type, content⟩

def Stats.from_json (j : Json) (p : Stats) : Read Stats := do
  let input_tokens ← value (getInt floating) j "input_tokens" 0
  let total_output_tokens ← value (getInt floating) j "total_output_tokens" 0
  let reasoning_output_tokens ← value (getInt floating) j "reasoning_output_tokens" 0
  let tokens_per_second ← value getFloat j "tokens_per_second" (ascii "0.0")
  let time_to_first_token_seconds ← value getFloat j "time_to_first_token_seconds" (ascii "0.0")
  let model_load_time_seconds ←
    getTo (fresh (getOptional getFloat)) j "model_load_time_seconds" p.model_load_time_seconds
  return ⟨input_tokens, total_output_tokens, reasoning_output_tokens, tokens_per_second,
    time_to_first_token_seconds, model_load_time_seconds⟩

def zero : ChatResponse := ⟨[], [], ⟨0, 0, 0, ascii "0.0", ascii "0.0", none⟩, none⟩

def from_json (j : Json) (p : ChatResponse) : Read ChatResponse := do
  let model_instance_id ← getTo (fresh getString) j "model_instance_id" p.model_instance_id
  let output ← getTo (fresh (getVector fun v => Output.from_json v ⟨[], []⟩)) j "output" p.output
  let stats ← getTo (Stats.from_json floating) j "stats" p.stats
  let response_id ← getTo (fresh (getOptional getString)) j "response_id" p.response_id
  return ⟨model_instance_id, output, stats, response_id⟩

-- `j.get<ChatResponse>()`.
def get (j : Json) : Read ChatResponse := from_json floating j zero

end ChatResponse

end Responses

def kChatEndpoint : Bytes := ascii "/api/v1/chat"

end Glider.Llm.LMStudioApi

namespace Glider.Llm

-- A new one is built for every command.
structure LMStudioBackend where
  url_ : Lib.Bytes
  authkey_ : Lib.Bytes
  deriving DecidableEq

end Glider.Llm

namespace Glider.Llm.LMStudioBackend

open Glider.Lib
open Bytes (ascii)
open LMStudioApi

abbrev ChatId := Int64

-- The JSON library: what it makes of a text, and of a number that is no integer.
structure Library where
  parse : Bytes → Read Json
  floating : Bytes → ℤ

-- What the server has replied, if there was no failure. An exception comes from writing the
-- request.
abbrev Reply := Except LMStudioApi.Failure (Option Bytes)

def Library.parsed (lib : Library) : Reply → Option ChatResponse
  | .ok (some raw) => (lib.parse raw >>= ChatResponse.get lib.floating).toOption
  | _ => none

inductive Op where
  | conversationMutex (chatId : ChatId)
  | lock (mutex : ℕ)
  | previousResponseId (chatId : ChatId) (model : Bytes)
  | send (url : Bytes) (payload : Json) (authkey : Bytes)
  | rememberResponseId (chatId : ChatId) (model : Bytes) (id : Option Bytes)
  | unlock (mutex : ℕ)
  deriving DecidableEq

abbrev Op.Answer : Op → Type
  | .conversationMutex _ => ℕ
  | .previousResponseId _ _ => Option Bytes
  | .send _ _ _ => Reply
  | _ => Unit

abbrev Routine (α : Type) := Program Op Op.Answer LMStudioApi.Failure α

open Program (perform)

section Programs

variable (lib : Library) (backend : LMStudioBackend)

-- The request is sent, and what is read of the reply is remembered for the chat, if there is one.
def exchange (req : ChatRequest) (chatId : Option ChatId) : Routine (Option Bytes) := do
  match ← perform (Op.send (backend.url_ ++ kChatEndpoint) req.to_json backend.authkey_) with
  | .error e => Program.throw e
  | .ok raw =>
    match lib.parsed (.ok raw) with
    | none => pure none
    | some resp => do
        if let some chatId := chatId then
          perform (Op.rememberResponseId chatId req.model resp.response_id)
        pure ((resp.output.find? fun o => o.type = ascii "message").map (·.content))

-- The lock is given up at every way out.
def guarded {α : Type} (mutex : ℕ) (p : Routine α) : Routine α := do
  let result ← (Except.ok <$> p).handle fun e => Program.pure (.error e)
  perform (Op.unlock mutex)
  match result with
  | .ok a => pure a
  | .error e => Program.throw e

def runChat (req : ChatRequest) : Option ChatId → Routine (Option Bytes)
  | none => backend.exchange lib req none
  | some chatId => do
      let mutex ← perform (Op.conversationMutex chatId)
      perform (Op.lock mutex)
      let previous ← perform (Op.previousResponseId chatId req.model)
      let req := { req with
        previous_response_id := previous.orElse fun _ => req.previous_response_id }
      guarded mutex (backend.exchange lib req (some chatId))

def chat (model systemPrompt userInput : Bytes) (chatId : ChatId) : Routine (Option Bytes) :=
  backend.runChat lib (.plain model userInput systemPrompt) (some chatId)

def classify (model systemPrompt userInput : Bytes) : Routine (Option Bytes) :=
  backend.runChat lib (makeClassifierRequest model systemPrompt userInput) none

end Programs

structure ConversationState where
  model : Bytes
  responseId : Bytes
  turnMutex : ℕ

-- The map that all backends share, how many mutexes were made for it, and which thread has which.
structure Store where
  map : ChatId → Option ConversationState
  made : ℕ
  holder : ℕ → Option ℕ

namespace Store

def initial : Store := ⟨fun _ => none, 0, fun _ => none⟩

variable (s : Store) (chatId : ChatId)

-- `map[chatId]`.
def entry : ConversationState × Store :=
  match s.map chatId with
  | some state => (state, s)
  | none =>
    let state : ConversationState := ⟨[], [], s.made⟩
    (state, { s with map := Function.update s.map chatId (some state), made := s.made + 1 })

def previousResponseId (model : Bytes) : Option Bytes :=
  match s.map chatId with
  | some state =>
    if state.model = model ∧ state.responseId ≠ [] then some state.responseId else none
  | none => none

def rememberResponseId (model : Bytes) (id : Option Bytes) : Store :=
  let (state, s) := s.entry chatId
  let state :=
    match id with
    | some id => { state with model := model, responseId := id }
    | none => { state with model := [], responseId := [] }
  { s with map := Function.update s.map chatId (some state) }

end Store

inductive Call where
  | chat (backend : LMStudioBackend) (model systemPrompt userInput : Bytes) (chatId : ChatId)
  | classify (backend : LMStudioBackend) (model systemPrompt userInput : Bytes)
  deriving DecidableEq

-- The reply to a request is up to the surroundings. A mutex that is held is waited for.
def act (s : Store) (t : ℕ) : (op : Op) → Reply → Option (Store × Option op.Answer)
  | .conversationMutex chatId, _ => some ((s.entry chatId).2, some (s.entry chatId).1.turnMutex)
  | .lock mutex, _ =>
    if s.holder mutex = none then
      some ({ s with holder := Function.update s.holder mutex (some t) }, some ())
    else none
  | .previousResponseId chatId model, _ => some (s, some (s.previousResponseId chatId model))
  | .send _ _ _, reply => some (s, some reply)
  | .rememberResponseId chatId model id, _ => some (s.rememberResponseId chatId model id, some ())
  | .unlock mutex, _ => some ({ s with holder := Function.update s.holder mutex none }, some ())

-- What the caller makes of the answer is left to it.
def system (lib : Library) : System Store Call Reply Op Op.Answer LMStudioApi.Failure where
  program
    | .chat backend model systemPrompt userInput chatId => do
        let _ ← backend.chat lib model systemPrompt userInput chatId
    | .classify backend model systemPrompt userInput => do
        let _ ← backend.classify lib model systemPrompt userInput
  begins s _ _ := some s
  act := act
  ends s _ := s
  hangsUp _ _ := none

abbrev World := Threads Store Call Op Op.Answer LMStudioApi.Failure

abbrev Step := Move Call Reply

abbrev Happening := ℕ × Event Call Op Op.Answer LMStudioApi.Failure

def step (lib : Library) : Transition World Step := Threads.step (system lib)

def World.initial : World := Threads.initial Store.initial

end Glider.Llm.LMStudioBackend

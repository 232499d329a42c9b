import Glider.Llm.ToolLoop

namespace Glider.Llm

open Glider.Lib
open Bytes (ascii)
open ToolLoop (Provider Format Reading ToolCall ToolResult)

structure Tool where
  name : Bytes
  description : Bytes
  inputSchema : Json

def field (key : String) (value : Json) : Bytes × Json := (ascii key, value)

def text (s : String) : Json := .string (ascii s)

def kMaxTokens : Json := .number (ascii "1024")

def kMaxToolTokens : Json := .number (ascii "4096")

namespace OpenAI

def message (role : String) (content : Bytes) : Json :=
  .object [field "role" (text role), field "content" (.string content)]

def initial (systemPrompt userInput : Bytes) : List Json :=
  [message "system" systemPrompt, message "user" userInput]

def toolJson (tool : Tool) : Json :=
  .object [field "type" (text "function"), field "function" (.object
    [field "name" (.string tool.name), field "description" (.string tool.description),
      field "parameters" tool.inputSchema])]

def payload (model : Bytes) (tools : List Tool) (messages : List Json) : Json :=
  .object ([field "model" (.string model), field "messages" (.array messages),
    field "max_tokens" (if tools.isEmpty then kMaxTokens else kMaxToolTokens)] ++
      if tools.isEmpty then [] else [field "tools" (.array (tools.map toolJson))])

-- The three texts of an error envelope. One that is there and is no text throws.
def errorDetail (error : Json) : Except Bytes Unit := do
  let _ ← error.valueString (ascii "message") []
  let _ ← error.valueString (ascii "type") []
  let _ ← error.valueString (ascii "code") []

def logIfApiError (response : Json) : Except Bytes Bool :=
  match response.find (ascii "error") with
  | some (.object members) => do
      errorDetail (.object members)
      return true
  | _ => .ok false

-- `respJson["choices"][0]["message"]` where there are choices. What is missing becomes `null`.
def choiceMessage : Json → Option Json
  | .array (.null :: _) => some .null
  | .array (.object members :: _) => some (((Json.object members).find (ascii "message")).getD .null)
  | _ => none

def toolCalls (message : Json) : List Json :=
  match message.find (ascii "tool_calls") with
  | some (.array calls) => calls
  | _ => []

-- `get<int>()` of a member, with a default.
def valueInt (j : Json) (key : String) : Except Bytes Unit :=
  match j with
  | .object _ =>
    match j.find (ascii key) with
    | none => .ok ()
    | some (.number _) => .ok ()
    | some (.bool _) => .ok ()
    | some other => .error (ascii "type must be number, but is " ++ other.typeName)
  | _ => .error (ascii "cannot use value() with " ++ j.typeName)

-- What is logged about an answer with neither a text nor calls.
def logEmpty (response choice : Json) : Except Bytes Unit := do
  let _ ← choice.valueString (ascii "finish_reason") (ascii "unknown")
  valueInt ((response.find (ascii "usage")).getD (.object [])) "completion_tokens"

-- The choice as it is after the access to its message.
def choice : Json → Json
  | .array (.object members :: _) => .object members
  | _ => .object []

def readMessage (response choices message : Json) (lastText : Option Bytes) : Reading :=
  let lastText := (message.text? (ascii "content")).or lastText
  match toolCalls message with
  | [] =>
    match lastText with
    | some text => .ended (.returned (some text))
    | none =>
      match logEmpty response (choice choices) with
      | .ok _ => .ended (.returned none)
      | .error _ => .ended .threw
  | call :: rest => .batch lastText message (call :: rest)

def read (response : Json) (lastText : Option Bytes) : Reading :=
  match logIfApiError response with
  | .error _ => .ended .threw
  | .ok true => .ended (.returned lastText)
  | .ok false =>
    match response.find (ascii "choices") with
    | none => .ended (.returned none)
    | some choices =>
      if choices.empty then .ended (.returned none)
      else
        match choiceMessage choices with
        | none => .ended .threw
        | some message => readMessage response choices message lastText

def callId (call : Json) : Except Bytes Bytes := do
  let id ← call.atString (ascii "id")
  let function ← call.at? (ascii "function")
  let _ ← function.atString (ascii "name")
  return id

def arguments (parse : Bytes → Option Json) (function : Json) : Json :=
  match function.atString (ascii "arguments") with
  | .ok raw => (parse raw).getD (.object [])
  | .error _ => .object []

def call (parse : Bytes → Option Json) (call : Json) : Except Bytes ToolCall := do
  let id ← call.atString (ascii "id")
  let function ← call.at? (ascii "function")
  let name ← function.atString (ascii "name")
  return ⟨id, name, arguments parse function⟩

def answer (result : ToolResult) : Json :=
  .object [field "role" (text "tool"), field "tool_call_id" (.string result.id),
    field "content" (.string result.content)]

def provider (model systemPrompt userInput : Bytes) (tools : List Tool) : Provider where
  initial := initial systemPrompt userInput
  payload := payload model tools
  read := read
  callId := callId
  call := call
  answers results := results.map answer

def format : Format where
  id? call := call.text? (ascii "id")
  name? call := (call.find (ascii "function")).bind fun function => function.text? (ascii "name")
  calls := toolCalls
  assistant m := m.text? (ascii "role") = some (ascii "assistant") ∨ toolCalls m ≠ []
  results m :=
    if m.text? (ascii "role") = some (ascii "tool") then
      match m.text? (ascii "tool_call_id"), m.text? (ascii "content") with
      | some id, some content => [(id, content)]
      | _, _ => []
    else []

theorem callId_eq_ok {json : Json} {id : Bytes} :
    callId json = .ok id ↔ format.id? json = some id ∧ (format.name? json).isSome = true := by
  simp only [callId, format, ← Json.toOption_atString, ← Json.toOption_at?]
  cases json.atString (ascii "id") with
  | error what => simp [bind, Except.bind, Except.toOption]
  | ok found =>
    cases json.at? (ascii "function") with
    | error what => simp [bind, Except.bind, Except.toOption]
    | ok function =>
      cases hname : function.atString (ascii "name") with
      | error what => simp [hname, bind, Except.bind, Except.toOption]
      | ok name => simp [hname, bind, Except.bind, pure, Except.pure, Except.toOption]

theorem id?_of_call {parse : Bytes → Option Json} {json : Json} {c : ToolCall}
    (h : call parse json = .ok c) : format.id? json = some c.id := by
  simp only [call, bind, Except.bind, pure, Except.pure] at h
  cases hid : json.atString (ascii "id") with
  | error what => simp [hid] at h
  | ok id =>
    cases hat : json.at? (ascii "function") with
    | error what => simp [hid, hat] at h
    | ok function =>
      cases hname : function.atString (ascii "name") with
      | error what => simp [hid, hat, hname] at h
      | ok name =>
        simp only [hid, hat, hname, Except.ok.injEq] at h
        subst h
        show json.text? (ascii "id") = some id
        rw [← Json.toOption_atString, hid]
        rfl

theorem read_eq_batch {response : Json} {before lastText : Option Bytes} {message : Json}
    {calls : List Json} (h : read response before = .batch lastText message calls) :
    toolCalls message = calls ∧ calls ≠ [] := by
  unfold read at h
  repeat' split at h
  all_goals try cases h
  unfold readMessage at h
  simp only at h
  split at h
  · repeat' split at h
    all_goals cases h
  · next found call rest hcalls =>
    obtain ⟨-, rfl, rfl⟩ := Reading.batch.inj h
    exact ⟨hcalls, by simp⟩

theorem not_assistant {m : Json} {role : Bytes} (hrole : m.text? (ascii "role") = some role)
    (hcalls : toolCalls m = []) (hne : role ≠ ascii "assistant") : ¬format.assistant m := by
  rintro (hassistant | hnonempty)
  · rw [hrole, Option.some.injEq] at hassistant
    exact hne hassistant
  · exact hnonempty hcalls

theorem provider_follows (model systemPrompt userInput : Bytes) (tools : List Tool) :
    (provider model systemPrompt userInput tools).Follows format where
  payload messages := rfl
  initial := by
    intro m hm
    simp only [provider, initial, List.mem_cons, List.not_mem_nil, or_false] at hm
    rcases hm with rfl | rfl
    · exact not_assistant rfl rfl (by decide)
    · exact not_assistant rfl rfl (by decide)
  callId _ _ := callId_eq_ok
  call _ _ _ := id?_of_call
  read _ _ _ _ _ := read_eq_batch
  assistant _ := Or.inr
  plain := by
    intro results m hm
    obtain ⟨result, -, rfl⟩ := List.mem_map.mp hm
    exact not_assistant rfl rfl (by decide)
  answers := by
    intro results
    induction results with
    | nil => rfl
    | cons result rest ih =>
      simp only [provider, List.map_cons, List.flatMap_cons] at ih ⊢
      rw [ih]
      rfl

end OpenAI

namespace Anthropic

def initial (userInput : Bytes) : List Json :=
  [.object [field "role" (text "user"), field "content" (.string userInput)]]

def toolJson (tool : Tool) : Json :=
  .object [field "name" (.string tool.name), field "description" (.string tool.description),
    field "input_schema" tool.inputSchema]

def kMaxTokens : Json := .number (ascii "4096")

def payload (model systemPrompt : Bytes) (tools : List Tool) (messages : List Json) : Json :=
  .object ([field "model" (.string model), field "max_tokens" kMaxTokens,
    field "system" (.string systemPrompt), field "messages" (.array messages)] ++
      if tools.isEmpty then [] else [field "tools" (.array (tools.map toolJson))])

-- The pass over the blocks of an answer: the last text and the calls.
def readBlocks : List Json → Option Bytes → Except Bytes (Option Bytes × List Json)
  | [], lastText => .ok (lastText, [])
  | block :: rest, lastText => do
      let type ← block.valueString (ascii "type") []
      if type = ascii "text" then
        let text ← block.valueString (ascii "text") []
        readBlocks rest (some text)
      else if type = ascii "tool_use" then
        let (lastText, toolUseBlocks) ← readBlocks rest lastText
        return (lastText, block :: toolUseBlocks)
      else readBlocks rest lastText

def message (content : List Json) : Json :=
  .object [field "role" (text "assistant"), field "content" (.array content)]

def read (response : Json) (lastText : Option Bytes) : Reading :=
  match response.find (ascii "content") with
  | some (.array content) =>
    match readBlocks content lastText with
    | .error _ => .ended .threw
    | .ok (lastText, []) => .ended (.returned lastText)
    | .ok (lastText, block :: rest) => .batch lastText (message content) (block :: rest)
  | _ => .ended (.returned none)

def callId (block : Json) : Except Bytes Bytes := do
  let id ← block.atString (ascii "id")
  let _ ← block.atString (ascii "name")
  return id

def call (_parse : Bytes → Option Json) (block : Json) : Except Bytes ToolCall := do
  let id ← block.atString (ascii "id")
  let name ← block.atString (ascii "name")
  return ⟨id, name, (block.find (ascii "input")).getD (.object [])⟩

def resultBlock (result : ToolResult) : Json :=
  .object [field "type" (text "tool_result"), field "tool_use_id" (.string result.id),
    field "content" (.string result.content), field "is_error" (.bool result.isError)]

def answers (results : List ToolResult) : List Json :=
  [.object [field "role" (text "user"), field "content" (.array (results.map resultBlock))]]

def provider (model systemPrompt userInput : Bytes) (tools : List Tool) : Provider where
  initial := initial userInput
  payload := payload model systemPrompt tools
  read := read
  callId := callId
  call := call
  answers := answers

def blocks (m : Json) (type : Bytes) : List Json :=
  match m.find (ascii "content") with
  | some (.array content) => content.filter fun block => block.text? (ascii "type") = some type
  | _ => []

def result? (block : Json) : Option (Bytes × Bytes) := do
  let id ← block.text? (ascii "tool_use_id")
  let content ← block.text? (ascii "content")
  return (id, content)

def format : Format where
  id? call := call.text? (ascii "id")
  name? call := call.text? (ascii "name")
  calls m := blocks m (ascii "tool_use")
  assistant m :=
    m.text? (ascii "role") = some (ascii "assistant") ∨ blocks m (ascii "tool_use") ≠ []
  results m := (blocks m (ascii "tool_result")).filterMap result?

theorem callId_eq_ok {json : Json} {id : Bytes} :
    callId json = .ok id ↔ format.id? json = some id ∧ (format.name? json).isSome = true := by
  simp only [callId, format, ← Json.toOption_atString]
  cases json.atString (ascii "id") with
  | error what => simp [bind, Except.bind, Except.toOption]
  | ok found =>
    cases json.atString (ascii "name") with
    | error what => simp [bind, Except.bind, Except.toOption]
    | ok name => simp [bind, Except.bind, pure, Except.pure, Except.toOption]

theorem id?_of_call {parse : Bytes → Option Json} {json : Json} {c : ToolCall}
    (h : call parse json = .ok c) : format.id? json = some c.id := by
  simp only [call, bind, Except.bind, pure, Except.pure] at h
  cases hid : json.atString (ascii "id") with
  | error what => simp [hid] at h
  | ok id =>
    cases hname : json.atString (ascii "name") with
    | error what => simp [hid, hname] at h
    | ok name =>
      simp only [hid, hname, Except.ok.injEq] at h
      subst h
      show json.text? (ascii "id") = some id
      rw [← Json.toOption_atString, hid]
      rfl

theorem isToolUse {block : Json} {type : Bytes}
    (h : block.valueString (ascii "type") [] = .ok type) :
    block.text? (ascii "type") = some (ascii "tool_use") ↔ type = ascii "tool_use" := by
  have htype := Json.text?_of_valueString h
  cases hfound : block.text? (ascii "type") with
  | none =>
    rw [hfound, Option.getD_none] at htype
    subst htype
    simp only [reduceCtorEq, false_iff]
    decide
  | some found =>
    rw [hfound, Option.getD_some] at htype
    rw [htype, Option.some.injEq]

-- The calls that are collected are the blocks that say so.
theorem readBlocks_eq_ok {content calls : List Json} {before lastText : Option Bytes}
    (h : readBlocks content before = .ok (lastText, calls)) :
    content.filter (fun block => block.text? (ascii "type") = some (ascii "tool_use")) = calls := by
  induction content generalizing before lastText calls with
  | nil =>
    obtain ⟨-, rfl⟩ := Prod.mk.inj (Except.ok.inj h)
    rfl
  | cons block rest ih =>
    simp only [readBlocks, bind, Except.bind, pure, Except.pure] at h
    cases htype : block.valueString (ascii "type") [] with
    | error what => simp [htype] at h
    | ok type =>
      have hcall := isToolUse htype
      simp only [htype] at h
      by_cases htext : type = ascii "text"
      · have hne : ¬type = ascii "tool_use" := by
          rw [htext]
          decide
        rw [if_pos htext] at h
        rw [List.filter_cons_of_neg (by simpa [hcall] using hne)]
        cases hvalue : block.valueString (ascii "text") [] with
        | error what => simp [hvalue] at h
        | ok text =>
          rw [hvalue] at h
          exact ih h
      · rw [if_neg htext] at h
        by_cases huse : type = ascii "tool_use"
        · rw [if_pos huse] at h
          rw [List.filter_cons_of_pos (by simpa [hcall] using huse)]
          cases hrest : readBlocks rest before with
          | error what => simp [hrest] at h
          | ok found =>
            rw [hrest] at h
            obtain ⟨-, rfl⟩ := Prod.mk.inj (Except.ok.inj h)
            rw [ih hrest]
        · rw [if_neg huse] at h
          rw [List.filter_cons_of_neg (by simpa [hcall] using huse)]
          exact ih h

theorem read_eq_batch {response : Json} {before lastText : Option Bytes} {m : Json}
    {calls : List Json} (h : read response before = .batch lastText m calls) :
    format.calls m = calls ∧ calls ≠ [] := by
  unfold read at h
  split at h
  · next content hcontent =>
    split at h
    · cases h
    · cases h
    · next found block rest hblocks =>
      obtain ⟨-, rfl, rfl⟩ := Reading.batch.inj h
      exact ⟨readBlocks_eq_ok hblocks, by simp⟩
  · cases h

theorem not_assistant {m : Json} {role : Bytes} (hrole : m.text? (ascii "role") = some role)
    (hcalls : format.calls m = []) (hne : role ≠ ascii "assistant") : ¬format.assistant m := by
  rintro (hassistant | hnonempty)
  · rw [hrole, Option.some.injEq] at hassistant
    exact hne hassistant
  · exact hnonempty hcalls

theorem filter_resultBlock (type : Bytes) (results : List ToolResult) :
    (results.map resultBlock).filter (fun block => block.text? (ascii "type") = some type) =
      if ascii "tool_result" = type then results.map resultBlock else [] := by
  have htype : ∀ result, (resultBlock result).text? (ascii "type") = some (ascii "tool_result") :=
    fun _ => rfl
  induction results with
  | nil => simp
  | cons result rest ih =>
    rw [List.map_cons, List.filter_cons, ih, htype]
    split <;> simp_all

theorem provider_follows (model systemPrompt userInput : Bytes) (tools : List Tool) :
    (provider model systemPrompt userInput tools).Follows format where
  payload messages := rfl
  initial := by
    intro m hm
    obtain rfl := List.mem_singleton.mp hm
    exact not_assistant rfl rfl (by decide)
  callId _ _ := callId_eq_ok
  call parse _ _ := @id?_of_call parse _ _
  read _ _ _ _ _ := read_eq_batch
  assistant _ := Or.inr
  plain := by
    intro results m hm
    obtain rfl := List.mem_singleton.mp hm
    refine not_assistant rfl ?_ (by decide)
    exact filter_resultBlock (ascii "tool_use") results
  answers := by
    intro results
    show (blocks _ (ascii "tool_result")).filterMap result? ++ [] = _
    have hblocks := filter_resultBlock (ascii "tool_result") results
    rw [if_pos rfl] at hblocks
    rw [List.append_nil]
    show ((results.map resultBlock).filter _).filterMap result? = _
    have hresult : result? ∘ resultBlock = some ∘ fun r => (r.id, r.content) := rfl
    rw [hblocks, List.filterMap_map, hresult, List.filterMap_eq_map]

end Anthropic

-- Both loops, whatever the model answers, the tools do and the user cancels.
theorem tool_loops_safe (model systemPrompt userInput : Bytes) (tools : List Tool)
    (w : ToolLoop.World) :
    ToolLoop.Safe OpenAI.format (ToolLoop.Chat.run
      (OpenAI.provider model systemPrompt userInput tools) w).2.history ∧
    ToolLoop.Safe Anthropic.format (ToolLoop.Chat.run
      (Anthropic.provider model systemPrompt userInput tools) w).2.history :=
  ⟨ToolLoop.run_safe (OpenAI.provider_follows model systemPrompt userInput tools) w,
    ToolLoop.run_safe (Anthropic.provider_follows model systemPrompt userInput tools) w⟩

end Glider.Llm

import Glider.Llm.Providers

namespace Glider.Llm

open Glider.Lib
open Bytes (ascii)

namespace ToolLoop

open Chat

section Escapes

variable (p : Provider) (w : World) (walkable : Json → Option Bytes → Bool)

-- The turns of the loop, as they begin.
def Chat.turns : ℕ → Chat → List Chat
  | 0, _ => []
  | iterations + 1, t =>
    t :: match iterate p w t with
      | (none, t) => turns iterations t
      | (some _, _) => []

-- An execution threw something that is no `std::exception`, and that was the end.
def ThrewOther (t : Chat) : Prop :=
  ∃ call older run, t.history = .executed call :: older ∧ t.runs = run + 1 ∧
    w.outcome run = .threwOther

-- `chat` returns, unless the executor throws what nobody catches.
def NoJsonEscapes : Prop := (run p w).1 = .threw → ThrewOther w (run p w).2

-- The payload of the turn can be written, and the response, if one is read, can be walked through.
def Handles (t : Chat) : Prop :=
  w.cancelled t.polls = false → w.dump (p.payload t.messages) ≠ none ∧
    ∀ raw, w.transfer t.sends = .reply raw → w.cancelled (t.polls + 1) = false →
      ∀ response ∈ w.parse raw, walkable response t.lastText = true

-- What the loop relies on: the walk throws just when the response is not walkable, and a call that
-- has passed the first pass passes the second one.
structure Provider.Walks : Prop where
  read : ∀ response lastText, p.read response lastText ≠ .ended .threw ↔
    walkable response lastText = true
  call : ∀ parse json id, p.callId json = .ok id → ∃ c, p.call parse json = .ok c

variable {p w walkable} {t : Chat}

theorem runCall_threw {call : ToolCall} (h : (t.runCall w call).1 = .error .threw) :
    ThrewOther w (t.runCall w call).2 := by
  unfold runCall at h ⊢
  cases hcancelled : w.cancelled t.polls with
  | true => simp [poll, hcancelled] at h
  | false =>
    simp only [poll, hcancelled, execute] at h ⊢
    cases houtcome : w.outcome t.runs with
    | returned text isError | threw what => simp [log, houtcome] at h
    | threwOther =>
      simp only [log, houtcome]
      exact ⟨call, _, t.runs, rfl, rfl, houtcome⟩

theorem calls_of_callIds (hp : p.Walks walkable) {calls : List Json} {ids : List Bytes}
    (h : callIds p calls = .ok ids) : ∀ json ∈ calls, ∃ c, p.call w.parse json = .ok c := by
  unfold callIds at h
  induction calls generalizing ids with
  | nil => simp
  | cons json rest ih =>
    rw [List.mapM_cons] at h
    cases hid : p.callId json with
    | error what => simp [hid, bind, Except.bind] at h
    | ok id =>
      cases hrest : rest.mapM p.callId with
      | error what => simp [hid, hrest, bind, Except.bind] at h
      | ok tail => exact List.forall_mem_cons.mpr ⟨hp.call w.parse json id hid, ih hrest⟩

theorem runCalls_threw {calls : List Json}
    (hcalls : ∀ json ∈ calls, ∃ c, p.call w.parse json = .ok c)
    (h : (runCalls p w calls t).1 = .error .threw) : ThrewOther w (runCalls p w calls t).2 := by
  induction calls generalizing t with
  | nil => cases h
  | cons json rest ih =>
    obtain ⟨⟨call, hcall⟩, hrest⟩ := List.forall_mem_cons.mp hcalls
    simp only [runCalls, hcall] at h ⊢
    have hrun (h : (t.runCall w call).1 = .error .threw) := runCall_threw h
    generalize t.runCall w call = ran at h hrun ⊢
    obtain ⟨ending | result, t'⟩ := ran
    · obtain rfl := Except.error.inj h
      exact hrun rfl
    · dsimp only at h ⊢
      have htail := ih (t := t') hrest
      generalize runCalls p w rest t' = tail at h htail ⊢
      obtain ⟨ending | results, t''⟩ := tail
      · dsimp only at h ⊢
        exact htail h
      · cases h

theorem takeBatch_threw (hp : p.Walks walkable) {message : Json} {calls : List Json}
    (h : (takeBatch p w t message calls).1 = some .threw) :
    ThrewOther w (takeBatch p w t message calls).2 := by
  unfold takeBatch at h ⊢
  cases hids : callIds p calls with
  | error what => simp [hids] at h
  | ok ids =>
    simp only [hids] at h ⊢
    split at h
    · cases h
    · next budget hbudget =>
      generalize log _ _ = accepted at h ⊢
      have hruns := runCalls_threw (t := accepted) (calls_of_callIds (w := w) hp hids)
      generalize runCalls p w calls accepted = ran at h hruns ⊢
      obtain ⟨ending | results, t'⟩ := ran
      · dsimp only at h ⊢
        obtain rfl := Option.some.inj h
        exact hruns rfl
      · cases h

theorem not_threwOther_of_polled {answer : Bool} {older : List Event}
    (h : t.history = .polled answer :: older) : ¬ThrewOther w t := by
  rintro ⟨call, older', run, hhistory, -⟩
  cases h.symm.trans hhistory

-- What the reply makes of the turn.
theorem takeReply_escapes (hp : p.Walks walkable) (raw : Bytes) :
    ((takeReply p w t raw).1 = some .threw → ThrewOther w (takeReply p w t raw).2) ↔
      (w.cancelled t.polls = false →
        ∀ response ∈ w.parse raw, walkable response t.lastText = true) := by
  unfold takeReply poll
  cases w.cancelled t.polls with
  | true => simp
  | false =>
    cases hparse : w.parse raw with
    | none => simp
    | some response =>
      simp only [Option.mem_def, Option.some.injEq, forall_eq', forall_const, log,
        ← hp.read response t.lastText]
      cases hread : p.read response t.lastText with
      | batch lastText message calls =>
        exact ⟨fun _ h => (by cases h), fun _ h => takeBatch_threw hp h⟩
      | ended ending =>
        constructor
        · rintro h heq
          obtain rfl := Reading.ended.inj heq
          exact not_threwOther_of_polled rfl (h rfl)
        · rintro hne h
          obtain rfl := Option.some.inj h
          exact absurd rfl hne

-- A turn lets no exception out just when it handles what it meets.
theorem iterate_escapes (hp : p.Walks walkable) :
    ((iterate p w t).1 = some .threw → ThrewOther w (iterate p w t).2) ↔
      Handles p w walkable t := by
  unfold iterate Handles poll
  cases w.cancelled t.polls with
  | true => simp
  | false =>
    simp only [log]
    cases hdump : w.dump (p.payload t.messages) with
    | none =>
      simp only [ne_eq, not_true_eq_false, false_and, forall_const, iff_false]
      exact not_threwOther_of_polled rfl
    | some written =>
      simp only [send, log]
      cases htransfer : w.transfer t.sends with
      | notSent | aborted | failed => simp
      | reply raw =>
        simp only [ne_eq, reduceCtorEq, not_false_eq_true, true_and, forall_const,
          Transfer.reply.injEq, forall_eq']
        exact takeReply_escapes hp raw

theorem loop_escapes (hp : p.Walks walkable) (iterations : ℕ) :
    ((loop p w iterations t).1 = .threw → ThrewOther w (loop p w iterations t).2) ↔
      ∀ turn ∈ turns p w iterations t, Handles p w walkable turn := by
  induction iterations generalizing t with
  | zero => simp [loop, turns]
  | succ iterations ih =>
    have hturn := iterate_escapes (t := t) (w := w) hp
    rw [loop, turns, List.forall_mem_cons, ← hturn]
    generalize iterate p w t = turn
    obtain ⟨_ | ending, t'⟩ := turn
    · simpa using ih
    · simp

theorem run_escapes (hp : p.Walks walkable) :
    NoJsonEscapes p w ↔ ∀ t ∈ turns p w kMaxToolIterations (start p), Handles p w walkable t :=
  loop_escapes hp kMaxToolIterations

end Escapes

end ToolLoop

-- A member that is absent, or as it is expected.
def fits (j : Json) (key : String) (good : Json → Bool) : Bool := (j.find (ascii key)).all good

def isText (j : Json) : Bool := j.string?.isSome

def isNumeric : Json → Bool
  | .number _ | .bool _ => true
  | _ => false

theorem valueString_isOk_iff {members : List (Bytes × Json)} {key : String} (default : Bytes) :
    (∃ s, (Json.object members).valueString (ascii key) default = .ok s) ↔
      fits (.object members) key isText = true := by
  simp only [Json.valueString, fits, Json.find]
  cases members.find? fun m => m.1 = ascii key with
  | none => simp
  | some m => cases m with | mk k value => cases value <;> simp [Json.getString, isText, Json.string?]

namespace OpenAI

open ToolLoop

def errorFits (error : Json) : Bool :=
  fits error "message" isText && fits error "type" isText && fits error "code" isText

def usageFits (response : Json) : Bool :=
  match response.find (ascii "usage") with
  | none => true
  | some (.object members) => fits (.object members) "completion_tokens" isNumeric
  | some _ => false

-- With a text or with calls, nothing else of the choice is looked at.
def choiceFits (response : Json) (lastText : Option Bytes) : Json → Bool
  | .array (.null :: _) => lastText.isSome || usageFits response
  | .array (.object members :: _) =>
    let message := ((Json.object members).find (ascii "message")).getD .null
    (message.text? (ascii "content")).isSome || lastText.isSome || toolCalls message ≠ [] ||
      fits (.object members) "finish_reason" isText && usageFits response
  | _ => false

def walkable (response : Json) (lastText : Option Bytes) : Bool :=
  match response.find (ascii "error") with
  | some (.object members) => errorFits (.object members)
  | _ => ((response.find (ascii "choices")).getD .null).empty ||
      choiceFits response lastText ((response.find (ascii "choices")).getD .null)

theorem errorDetail_isOk_iff {members : List (Bytes × Json)} :
    (∃ u, errorDetail (.object members) = .ok u) ↔ errorFits (.object members) = true := by
  simp only [errorFits, Bool.and_eq_true, ← valueString_isOk_iff []]
  unfold errorDetail
  cases Json.valueString (.object members) (ascii "message") [] <;>
    cases Json.valueString (.object members) (ascii "type") [] <;>
    cases Json.valueString (.object members) (ascii "code") [] <;>
    simp [bind, Except.bind, pure, Except.pure]

theorem valueInt_isOk_iff {response : Json} :
    (∃ u, valueInt ((response.find (ascii "usage")).getD (.object [])) "completion_tokens" = .ok u) ↔
      usageFits response = true := by
  unfold usageFits valueInt
  cases response.find (ascii "usage") with
  | none => simp [Json.find]
  | some usage =>
    cases usage with
    | object members =>
      simp only [Option.getD_some, fits]
      cases (Json.object members).find (ascii "completion_tokens") with
      | none => simp
      | some tokens => cases tokens <;> simp [isNumeric]
    | null | bool _ | number _ | string _ | array _ => simp

theorem logEmpty_isOk_iff (response : Json) (members : List (Bytes × Json)) :
    (∃ u, logEmpty response (.object members) = .ok u) ↔
      (fits (.object members) "finish_reason" isText && usageFits response) = true := by
  rw [Bool.and_eq_true, ← valueString_isOk_iff (ascii "unknown"), ← valueInt_isOk_iff,
    logEmpty]
  cases Json.valueString (.object members) (ascii "finish_reason") (ascii "unknown") with
  | error what | ok reason => simp [bind, Except.bind]

theorem readMessage_threw_iff {choices : Json} (response message : Json) (lastText : Option Bytes)
    {members : List (Bytes × Json)} (hchoice : choice choices = .object members) :
    readMessage response choices message lastText ≠ .ended .threw ↔
      ((message.text? (ascii "content")).isSome || lastText.isSome || toolCalls message ≠ [] ||
        fits (.object members) "finish_reason" isText && usageFits response) = true := by
  have hempty := logEmpty_isOk_iff response members
  rw [Bool.or_eq_true, ← hempty, readMessage, hchoice]
  cases hcalls : toolCalls message with
  | cons call rest => simp
  | nil =>
    cases message.text? (ascii "content") with
    | some text => simp
    | none =>
      cases lastText with
      | some text => simp
      | none =>
        cases logEmpty response (.object members) with
        | error what | ok u => simp

theorem choice_threw_iff {response choices : Json} {lastText : Option Bytes}
    (hnonempty : choices.empty = false) :
    (match choiceMessage choices with
      | none => Reading.ended .threw
      | some message => readMessage response choices message lastText) ≠ .ended .threw ↔
      choiceFits response lastText choices = true := by
  cases choices with
  | array items =>
    cases items with
    | nil => cases hnonempty
    | cons item rest =>
      cases item with
      | null =>
        have hchoice : choice (.array (.null :: rest)) = .object [] := rfl
        have hread := readMessage_threw_iff response .null lastText hchoice
        simpa [choiceFits, choiceMessage, fits, Json.find, Json.text?, toolCalls] using hread
      | object members => exact readMessage_threw_iff response _ lastText rfl
      | bool _ | number _ | string _ | array _ => simp [choiceMessage, choiceFits]
  | null | bool _ | number _ | string _ | object _ => simp [choiceMessage, choiceFits]

theorem read_threw_iff (response : Json) (lastText : Option Bytes) :
    read response lastText ≠ .ended .threw ↔ walkable response lastText = true := by
  have hchoices : (match response.find (ascii "choices") with
      | none => Reading.ended (.returned none)
      | some choices =>
        if choices.empty then .ended (.returned none)
        else
          match choiceMessage choices with
          | none => .ended .threw
          | some message => readMessage response choices message lastText) ≠ .ended .threw ↔
      (((response.find (ascii "choices")).getD .null).empty ||
        choiceFits response lastText ((response.find (ascii "choices")).getD .null)) = true := by
    cases response.find (ascii "choices") with
    | none => simp [Json.empty]
    | some choices =>
      cases hempty : choices.empty with
      | true => simp [hempty]
      | false => simpa [hempty] using choice_threw_iff hempty
  unfold read logIfApiError walkable
  cases response.find (ascii "error") with
  | none => exact hchoices
  | some error =>
    cases error with
    | object members =>
      dsimp only
      rw [← errorDetail_isOk_iff]
      cases errorDetail (.object members) with
      | error what => simp [bind, Except.bind]
      | ok u => simp [bind, Except.bind, pure, Except.pure]
    | null | bool _ | number _ | string _ | array _ => exact hchoices

theorem call_of_callId {parse : Bytes → Option Json} {json : Json} {id : Bytes}
    (h : callId json = .ok id) : ∃ c, call parse json = .ok c := by
  unfold callId at h
  unfold call
  cases hid : json.atString (ascii "id") with
  | error what => simp [hid, bind, Except.bind] at h
  | ok found =>
    cases hfunction : json.at? (ascii "function") with
    | error what => simp [hid, hfunction, bind, Except.bind] at h
    | ok function =>
      cases hname : function.atString (ascii "name") with
      | error what => simp [hid, hfunction, hname, bind, Except.bind] at h
      | ok name => simp [hname, bind, Except.bind, pure, Except.pure]

theorem provider_walks (model systemPrompt userInput : Bytes) (tools : List Tool) :
    (provider model systemPrompt userInput tools).Walks walkable where
  read := read_threw_iff
  call _ _ _ := call_of_callId

end OpenAI

namespace Anthropic

open ToolLoop

def blockFits : Json → Bool
  | .object members =>
    fits (.object members) "type" isText &&
      ((Json.object members).text? (ascii "type") ≠ some (ascii "text") ||
        fits (.object members) "text" isText)
  | _ => false

def walkable (response : Json) (_lastText : Option Bytes) : Bool :=
  match response.find (ascii "content") with
  | some (.array content) => content.all blockFits
  | _ => true

-- The type of a block as the pass reads it, and as its member says.
theorem text?_type_iff {block : Json} {type : Bytes}
    (h : block.valueString (ascii "type") [] = .ok type) :
    block.text? (ascii "type") = some (ascii "text") ↔ type = ascii "text" := by
  rw [← Json.text?_of_valueString h]
  cases block.text? (ascii "type") with
  | some found => simp
  | none =>
    simp only [reduceCtorEq, Option.getD_none, false_iff]
    decide

theorem readBlocks_isOk_iff {content : List Json} (lastText : Option Bytes) :
    (∃ found, readBlocks content lastText = .ok found) ↔ content.all blockFits = true := by
  induction content generalizing lastText with
  | nil => simp [readBlocks]
  | cons block rest ih =>
    rw [List.all_cons, Bool.and_eq_true, readBlocks]
    cases block with
    | object members =>
      rw [blockFits, Bool.and_eq_true, ← valueString_isOk_iff []]
      cases hvalue : Json.valueString (.object members) (ascii "type") [] with
      | error what => simp [bind, Except.bind]
      | ok type =>
        have hsame := text?_type_iff hvalue
        by_cases htext : type = ascii "text"
        · rw [Bool.or_eq_true, ← valueString_isOk_iff []]
          cases Json.valueString (.object members) (ascii "text") [] with
          | error what => simp [bind, Except.bind, htext, hsame]
          | ok text => simpa [bind, Except.bind, htext, hsame] using ih (some text)
        · cases hrest : readBlocks rest lastText with
          | error what => simp [bind, Except.bind, htext, hsame, hrest, ← ih lastText]
          | ok found =>
            have hfits := (ih lastText).mp ⟨found, hrest⟩
            by_cases huse : type = ascii "tool_use"
            · subst huse
              simp [bind, Except.bind, pure, Except.pure, htext, hsame, hfits]
            · simp [bind, Except.bind, htext, huse, hsame, hfits]
    | null | bool _ | number _ | string _ | array _ =>
      simp [Json.valueString, blockFits, bind, Except.bind]

theorem read_threw_iff (response : Json) (lastText : Option Bytes) :
    read response lastText ≠ .ended .threw ↔ walkable response lastText = true := by
  unfold read walkable
  cases response.find (ascii "content") with
  | none => simp
  | some content =>
    cases content with
    | array items =>
      dsimp only
      rw [← readBlocks_isOk_iff lastText]
      cases readBlocks items lastText with
      | error what => simp
      | ok found =>
        obtain ⟨lastText, calls⟩ := found
        cases calls <;> simp
    | null | bool _ | number _ | string _ | object _ => simp

theorem call_of_callId (parse : Bytes → Option Json) {json : Json} {id : Bytes}
    (h : callId json = .ok id) : ∃ c, call parse json = .ok c := by
  unfold callId at h
  unfold call
  cases hid : json.atString (ascii "id") with
  | error what => simp [hid, bind, Except.bind] at h
  | ok found =>
    cases hname : json.atString (ascii "name") with
    | error what => simp [hid, hname, bind, Except.bind] at h
    | ok name => simp [bind, Except.bind, pure, Except.pure]

theorem provider_walks (model systemPrompt userInput : Bytes) (tools : List Tool) :
    (provider model systemPrompt userInput tools).Walks walkable where
  read := read_threw_iff
  call parse _ _ := call_of_callId parse

end Anthropic

-- In either loop an exception of the JSON library leaves `chat` just when a turn meets a payload
-- that cannot be written, or a response of another shape than it walks through.
theorem noJsonEscapes_iff (model systemPrompt userInput : Bytes) (tools : List Tool)
    (w : ToolLoop.World) :
    (ToolLoop.NoJsonEscapes (OpenAI.provider model systemPrompt userInput tools) w ↔
      ∀ t ∈ ToolLoop.Chat.turns (OpenAI.provider model systemPrompt userInput tools) w
          ToolLoop.kMaxToolIterations
          (ToolLoop.Chat.start (OpenAI.provider model systemPrompt userInput tools)),
        ToolLoop.Handles (OpenAI.provider model systemPrompt userInput tools) w OpenAI.walkable t) ∧
    (ToolLoop.NoJsonEscapes (Anthropic.provider model systemPrompt userInput tools) w ↔
      ∀ t ∈ ToolLoop.Chat.turns (Anthropic.provider model systemPrompt userInput tools) w
          ToolLoop.kMaxToolIterations
          (ToolLoop.Chat.start (Anthropic.provider model systemPrompt userInput tools)),
        ToolLoop.Handles (Anthropic.provider model systemPrompt userInput tools) w
          Anthropic.walkable t) :=
  ⟨ToolLoop.run_escapes (OpenAI.provider_walks model systemPrompt userInput tools),
    ToolLoop.run_escapes (Anthropic.provider_walks model systemPrompt userInput tools)⟩

-- A server that answers every request with one and the same document.
def answering (body : Bytes) (document : Json) : ToolLoop.World where
  cancelled _ := false
  transfer _ := .reply body
  outcome _ := .returned [] false
  parse raw := if raw = body then some document else none
  dump _ := some []

-- Choices that are an object, and a block that is a number.
theorem json_escapes :
    ¬ToolLoop.NoJsonEscapes (OpenAI.provider [] [] [] [])
        (answering (ascii "\x7b\"choices\":\x7b\"a\":1\x7d\x7d")
          (.object [field "choices" (.object [field "a" (.number (ascii "1"))])])) ∧
      ¬ToolLoop.NoJsonEscapes (Anthropic.provider [] [] [] [])
        (answering (ascii "\x7b\"content\":[1]\x7d")
          (.object [field "content" (.array [.number (ascii "1")])])) := by
  constructor
  · intro h
    exact ToolLoop.not_threwOther_of_polled rfl (h rfl)
  · intro h
    exact ToolLoop.not_threwOther_of_polled rfl (h rfl)

end Glider.Llm

import Glider.Lib.Decimal
import Glider.Lib.Word
import Mathlib.Logic.Function.Basic

namespace Glider.Llm

open Glider.Lib
open Bytes (ascii)

structure Button where
  text : Bytes
  callbackData : Bytes

abbrev Keyboard := List (List Button)

namespace KeyboardBuilder

-- The buttons in rows of `x`, the last of which may be shorter.
def rows (x : ℕ) (list : List Button) : Keyboard :=
  (List.range (list.length / x + if list.length % x = 0 then 0 else 1)).map fun i =>
    (list.drop (i * x)).take x

def addKeyboard (x : ℕ) (keyboard : Keyboard) (list : List Button) : Keyboard :=
  if list.length = 0 then keyboard else keyboard ++ rows x list

end KeyboardBuilder

end Glider.Llm

namespace Glider.Llm.ModelPicker

open Glider.Lib
open Bytes (ascii)
open KeyboardBuilder (addKeyboard)

abbrev ChatId := ℤ

abbrev UserId := ℤ

-- What the steady clock shows, in nanoseconds.
abbrev Time := ℕ

def kCallbackPrefix : Bytes := ascii "ask_model:"

def kPageSize : ℕ := 8

-- No vector of strings is longer.
structure ModelIds where
  items : List Bytes
  size_lt : items.length < 2 ^ 58
  deriving DecidableEq

structure ModelPickerState where
  modelIds : ModelIds
  page : ℕ
  initiatingUserId : UserId
  generation : Bytes
  expiresAt : Time
  deriving DecidableEq

-- The two maps that are shared, and the counter of the pickers.
structure Store where
  selectedModel : ChatId → Option Bytes
  pickers : ChatId → Option ModelPickerState
  generationCounter : ℕ

structure Message where
  chatId : ChatId
  text : Option Bytes
  deriving DecidableEq

structure CallbackQuery where
  id : Bytes
  from_ : Option UserId
  message : Option Message
  data : Bytes
  deriving DecidableEq

section Pages

-- `{prefix}{generation}:s:{index}` and `{prefix}{generation}:p:{page}`.
def selectData (generation : Bytes) (i : ℕ) : Bytes :=
  kCallbackPrefix ++ generation ++ ascii ":s:" ++ Decimal.digits i

def pageData (generation : Bytes) (page : ℕ) : Bytes :=
  kCallbackPrefix ++ generation ++ ascii ":p:" ++ Decimal.digits page

def label (id : Bytes) : Bytes := if 30 < id.length then id.take 27 ++ ascii "..." else id

-- The arguments that a page is built of.
structure Page where
  ids : ModelIds
  page : ℕ
  generation : Bytes
  deriving DecidableEq

namespace Page

variable (p : Page)

def start : ℕ := u64 (p.page * kPageSize)

def stop : ℕ := min (u64 (p.start + kPageSize)) p.ids.items.length

-- The models that the loop goes over.
def indices : List ℕ := List.range' p.start (p.stop - p.start)

def selection (i : ℕ) : Button :=
  ⟨label (p.ids.items.getD i []), selectData p.generation i⟩

def prevButton : Option Button :=
  if 0 < p.page then some ⟨ascii "<< Prev", pageData p.generation (p.page - 1)⟩ else none

def nextButton : Option Button :=
  if p.stop < p.ids.items.length then
    some ⟨ascii "Next >>", pageData p.generation (u64 (p.page + 1))⟩
  else none

end Page

def buildModelPage (p : Page) : Keyboard :=
  let keyboard := p.indices.foldl (fun keyboard i => addKeyboard 2 keyboard [p.selection i]) []
  let navRow := p.prevButton.toList ++ p.nextButton.toList
  if navRow = [] then keyboard else addKeyboard 2 keyboard navRow

end Pages

-- What is handed to the outbound lane. A markup comes as the arguments that it is built of.
inductive Queued where
  | answer (callbackId text : Bytes) (alert : Bool)
  | edit (message : Message) (text : Bytes) (replyMarkup : Option Page)

-- `absl::SimpleAtoi` for `std::size_t`, as far as it is documented: a number is read from its
-- digits if it fits, and what is read fits.
structure SimpleAtoi where
  read : Bytes → Option ℕ
  read_digits : ∀ n < 2 ^ 64, read (Decimal.digits n) = some n
  read_lt : ∀ text n, read text = some n → n < 2 ^ 64

section Handler

def consumePrefix (expected data : Bytes) : Option Bytes :=
  if expected <+: data then some (data.drop expected.length) else none

-- What stands before the first colon, and what behind it.
def splitGeneration (data : Bytes) : Option (Bytes × Bytes) :=
  if 58 ∈ data then some (data.takeWhile (· ≠ 58), (data.dropWhile (· ≠ 58)).tail) else none

variable (atoi : SimpleAtoi)

def setSelectedModel (s : Store) (chatId : ChatId) (model : Bytes) : Store :=
  { s with selectedModel := Function.update s.selectedModel chatId (some model) }

-- The picker of a chat, if it is still the one of the generation.
def Store.change (s : Store) (chatId : ChatId) (generation : Bytes)
    (f : ModelPickerState → Option ModelPickerState) : Store :=
  match s.pickers chatId with
  | some state =>
    if state.generation = generation then
      { s with pickers := Function.update s.pickers chatId (f state) }
    else s
  | none => s

-- A press that has passed every check, with its copy of the picker.
structure Press where
  query : CallbackQuery
  msg : Message
  state : ModelPickerState
  generation : Bytes
  data : Bytes
  deriving DecidableEq

-- The listener up to where it has its copy. The clock is read again before an expired picker is
-- removed.
def check (now again : Time) (query : CallbackQuery) (s : Store) :
    Store × Except (List Queued) Press :=
  match consumePrefix kCallbackPrefix query.data, query.message with
  | none, _ | _, none => (s, .error [])
  | some data, some msg =>
    match splitGeneration data with
    | none => (s, .error [.answer query.id (ascii "Invalid model picker.") true])
    | some (generation, data) =>
      let expired := Queued.answer query.id (ascii "This model picker has expired.") true
      match s.pickers msg.chatId with
      | none => (s, .error [expired])
      | some state =>
        if state.generation ≠ generation ∨ state.expiresAt ≤ now then
          if state.expiresAt ≤ again then
            ({ s with pickers := Function.update s.pickers msg.chatId none },
              .error [expired])
          else (s, .error [expired])
        else if query.from_ ≠ some state.initiatingUserId then
          (s, .error [.answer query.id
            (ascii "Only the user who opened this picker can use it.") true])
        else (s, .ok ⟨query, msg, state, generation, data⟩)

section Acts

variable (s : Store) (press : Press) (data : Bytes)

def select : Store × List Queued :=
  match (atoi.read data).bind fun index => press.state.modelIds.items[index]? with
  | none => (s, [.answer press.query.id (ascii "Invalid selection.") true])
  | some model =>
    ((setSelectedModel s press.msg.chatId model).change press.msg.chatId press.generation
        fun _ => none,
      [.edit press.msg (ascii "Selected model: " ++ model) none,
        .answer press.query.id (ascii "Model selected.") false])

def turnPage : Store × List Queued :=
  match atoi.read data with
  | none => (s, [.answer press.query.id (ascii "Invalid page.") true])
  | some page =>
    (s.change press.msg.chatId press.generation fun state => some { state with page := page },
      [.edit press.msg (press.msg.text.getD [])
          (some ⟨press.state.modelIds, page, press.generation⟩),
        .answer press.query.id [] false])

-- The rest of the listener. Between the checks and here the picker may have been replaced.
def act : Store × List Queued :=
  match consumePrefix (ascii "s:") press.data, consumePrefix (ascii "p:") press.data with
  | some data, _ => select atoi s press data
  | none, some data => turnPage atoi s press data
  | none, none => (s, [])

end Acts

end Handler

-- Five minutes.
def lifetime : Time := 5 * 60 * 10 ^ 9

def startPicker (now : Time) (chatId : ChatId) (initiatingUserId : UserId) (modelIds : ModelIds)
    (s : Store) : Store × Page :=
  let generation := Hexadecimal.digits s.generationCounter
  ({ s with
      pickers := Function.update s.pickers chatId
        (some ⟨modelIds, 0, initiatingUserId, generation, now + lifetime⟩)
      generationCounter := s.generationCounter + 1 },
    ⟨modelIds, 0, generation⟩)

end Glider.Llm.ModelPicker

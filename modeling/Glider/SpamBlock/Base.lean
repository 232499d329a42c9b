import Glider.Lib.Assoc
import Glider.Lib.Bytes
import Glider.Lib.Threads
import Glider.Lib.Word
import Mathlib.Data.List.Perm.Basic
import Mathlib.Data.List.MinMax

namespace Glider.SpamBlock

open Glider.Lib

abbrev ChatId := ℤ

abbrev UserId := ℤ

abbrev MessageId := ℤ

inductive Config where
  | OFF
  | LOGGING_ONLY
  | PURGE
  | PURGE_AND_MUTE
  deriving DecidableEq

-- Of a chat and of a sender the identifier, of an animation and of a sticker its `fileUniqueId`.
structure Message where
  messageId : MessageId
  chat : Option ChatId
  from_ : Option UserId
  text : Option Bytes
  animation : Option Bytes
  sticker : Option Bytes
  forwardOrigin : Bool

abbrev Entry := MessageId × Bytes

abbrev UserMessagesMap := Assoc UserId (List Entry)

abbrev ChatMessages := Assoc ChatId UserMessagesMap

structure Store where
  chat_messages_data : ChatMessages
  chat_messages_count : ℕ
  config : Config

def sSpamDetectThreshold : ℤ := 5

namespace SameMessageMatcher

def kThreshold : ℤ := 3

-- How often the most frequent content occurs. There is no such content without any message.
def count (messages : List Entry) : Option ℤ := do
  let kSameMessageMap ← messages.foldlM (fun (map : Assoc Bytes ℤ) (elem : Entry) => do
    let n ← checkedInt ((map.find? elem.2).getD 0 + 1)
    pure (map.insert elem.2 n)) .empty
  (kSameMessageMap.members.map Prod.snd).max?

end SameMessageMatcher

namespace MessageCountMatcher

def kThreshold : ℤ := 5

def count (messages : List Entry) : Option ℤ := some (toInt32 messages.length)

end MessageCountMatcher

namespace Matcher

def detect (count : List Entry → Option ℤ) (threshold : ℤ) (messages : List Entry) : Option Bool :=
  (count messages).map fun n => decide (threshold ≤ n)

end Matcher

-- The messages of a chat, as an `int`.
@[irreducible]
def accumulate (perChatMap : List (UserId × List Entry)) : Option ℤ :=
  perChatMap.foldlM (fun index messages => checkedInt (index + toInt32 messages.2.length)) 0

@[irreducible]
def offends (messages : List Entry) : Option Bool := do
  if ← Matcher.detect MessageCountMatcher.count MessageCountMatcher.kThreshold messages then
    pure true
  else
    Matcher.detect SameMessageMatcher.count SameMessageMatcher.kThreshold messages

-- The members of a hash map in the order that they are gone through.
abbrev Iteration {α : Type} (members : List α) := { order : List α // order.Perm members }

inductive Outcome where
  | returned
  | threw (what : Option Bytes)

-- The accesses to what is shared, each under the mutex or atomic, and the functions that a subclass
-- may override.
inductive Op where
  | getConfig
  | exchangeConfig (config : Config)
  | shouldBeSkipped (message : Message)
  | record (chatId : ChatId) (userId : UserId) (entry : Entry)
  | onMessageAdded (count : ℕ)
  | swap
  | chats (pending : ChatMessages)
  | users (perChatMap : UserMessagesMap)
  | onDetected (chat : ChatId) (user : UserId) (messageIds : List MessageId)

abbrev Op.Answer : Op → Type
  | .getConfig => Config
  | .exchangeConfig _ => Config
  | .shouldBeSkipped _ => Bool
  | .record _ _ _ => ℕ
  | .onMessageAdded _ => Unit
  | .swap => ChatMessages
  | .chats pending => Iteration pending.members
  | .users perChatMap => Iteration perChatMap.members
  | .onDetected _ _ _ => Outcome

-- The behaviour is undefined.
inductive Undefined where
  | reached

abbrev Routine (α : Type) := Program Op Op.Answer Undefined α

section Programs

open Program (perform)

def defined {α : Type} : Option α → Routine α
  | some a => .pure a
  | none => .throw .reached

-- What is thrown is logged.
def detectUser (chat : ChatId) (user : UserId × List Entry) : Routine Unit := do
  let msgids := user.2.map Prod.fst
  if ← defined (offends user.2) then
    let _ ← perform (Op.onDetected chat user.1 msgids)

def detectUsers (chat : ChatId) (users : List (UserId × List Entry)) : Routine Unit := do
  let count ← defined (accumulate users)
  if sSpamDetectThreshold ≤ count then
    users.forM (detectUser chat)

def detectChat (chat : ChatId × UserMessagesMap) : Routine Unit := do
  let users ← perform (Op.users chat.2)
  detectUsers chat.1 users.1

def consumeAndDetect : Routine Unit := do
  let pending ← perform Op.swap
  let chats ← perform (Op.chats pending)
  chats.1.forM detectChat

def Message.data (message : Message) : Bytes :=
  match message.text, message.animation, message.sticker with
  | some text, _, _ => text
  | none, some animation, _ => animation
  | none, none, some sticker => sticker
  | none, none, none => []

-- An animation, a text or a sticker that was not forwarded.
def Message.Cared (message : Message) : Prop :=
  ¬ (message.animation.isNone ∧ message.text.isNone ∧ message.sticker.isNone ∨
    message.forwardOrigin)

instance (message : Message) : Decidable message.Cared := inferInstanceAs (Decidable (¬ _))

def addMessage (message : Option Message) : Routine Unit := do
  let config ← perform Op.getConfig
  if config ≠ .OFF then
    match message with
    | none => pure ()
    | some message =>
      match message.chat, message.from_ with
      | some chatId, some userId =>
        let skipped ← perform (Op.shouldBeSkipped message)
        if ¬ skipped ∧ message.Cared then
          let count ← perform (Op.record chatId userId (message.messageId, message.data))
          perform (Op.onMessageAdded count)
      | _, _ => pure ()

def setConfig (config : Config) : Routine Unit := do
  let _ ← perform (Op.exchangeConfig config)

end Programs

-- `chat_messages_data[chatId][userId].emplace_back(messageId, messageData)`.
def ChatMessages.record (data : ChatMessages) (chatId : ChatId) (userId : UserId) (entry : Entry) :
    ChatMessages :=
  let perChatMap := (data.find? chatId).getD .empty
  data.insert chatId
    (perChatMap.insert userId ((perChatMap.find? userId).getD [] ++ [entry]))

-- What the surroundings choose.
inductive Choice where
  | none
  | skipped (skipped : Bool)
  | chats (order : List (ChatId × UserMessagesMap))
  | users (order : List (UserId × List Entry))
  | detected (outcome : Outcome)

def act (s : Store) (_ : ℕ) : (op : Op) → Choice → Option (Store × Option op.Answer)
  | .getConfig, _ => some (s, some s.config)
  | .exchangeConfig config, _ => some ({ s with config := config }, some s.config)
  | .shouldBeSkipped _, .skipped skipped => some (s, some skipped)
  | .record chatId userId entry, _ =>
    some ({ s with
        chat_messages_data := s.chat_messages_data.record chatId userId entry
        chat_messages_count := s.chat_messages_count + 1 },
      some (s.chat_messages_count + 1))
  | .onMessageAdded _, _ => some (s, some ())
  | .swap, _ =>
    some ({ s with chat_messages_data := .empty, chat_messages_count := 0 },
      some s.chat_messages_data)
  | .chats pending, .chats order =>
    if h : order.Perm pending.members then some (s, some ⟨order, h⟩) else none
  | .users perChatMap, .users order =>
    if h : order.Perm perChatMap.members then some (s, some ⟨order, h⟩) else none
  | .onDetected _ _ _, .detected outcome => some (s, some outcome)
  | _, _ => none

inductive Call where
  | addMessage (message : Option Message)
  | consumeAndDetect
  | setConfig (config : Config)

def system : System Store Call Choice Op Op.Answer Undefined where
  program
    | .addMessage message => addMessage message
    | .consumeAndDetect => consumeAndDetect
    | .setConfig config => setConfig config
  begins s _ _ := some s
  act := act
  ends s _ := s
  hangsUp _ _ := none

abbrev World := Threads Store Call Op Op.Answer Undefined

abbrev Step := Move Call Choice

abbrev Happening := ℕ × Event Call Op Op.Answer Undefined

def step : Transition World Step := Threads.step system

def World.initial : World := Threads.initial ⟨.empty, 0, .PURGE⟩

end Glider.SpamBlock

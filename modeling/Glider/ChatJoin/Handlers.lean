import Glider.Lib.Bytes
import Glider.Lib.Threads
import Mathlib.Algebra.Order.Ring.Nat

namespace Glider.ChatJoin

open Glider.Lib
open Bytes (ascii)

structure User where
  id : ℤ
  firstName : Bytes
  lastName : Option Bytes
  deriving DecidableEq

-- `fmt::formatter<User::Ptr>`.
def User.format (user : User) : Bytes :=
  user.firstName ++ (user.lastName.elim [] fun lastName => ascii " " ++ lastName) ++
    ascii s!" (id: {user.id})"

structure ChatJoinRequest where
  chat : ℤ
  from_ : User
  date : ℕ
  deriving DecidableEq

structure Message where
  messageId : ℕ
  chat : ℤ
  deriving DecidableEq

structure CallbackQuery where
  id : Bytes
  from_ : User
  data : Bytes

inductive ChatMember where
  | owner
  | administrator
  | member
  | restricted
  | left
  | banned
  deriving DecidableEq

-- Only chat administrators and the creator may action a join request.
def ChatMember.actions : ChatMember → Bool
  | .owner | .administrator => true
  | _ => false

structure ChatMemberUpdated where
  chat : ℤ
  user : ℤ
  newStatus : ChatMember

-- The buttons of the template, in the order they are set.
inductive Button where
  | approve
  | disapprove
  | ban
  deriving DecidableEq

def Button.name : Button → Bytes
  | .approve => ascii "approve"
  | .disapprove => ascii "disapprove"
  | .ban => ascii "ban"

abbrev Keyboard := Button → Bytes

structure JoinReq where
  message : Option Message
  request : ChatJoinRequest

def kMaxTimestampDelay : ℤ := 10

-- The clock counts nanoseconds.
def isUnderTimeLimit (date : ℕ) (now : ℤ) : Bool :=
  now - date * 10 ^ 9 ≤ kMaxTimestampDelay * 10 ^ 9

def dateText (date : ℕ) : Bytes := ascii (toString date)

def datePart (date : ℕ) : Bytes := dateText date ++ ascii "_"

def chatjoin : Bytes := ascii "chatjoin_"

def callbackData (date : ℕ) (button : Button) : Bytes := chatjoin ++ datePart date ++ button.name

-- `absl::ConsumePrefix`.
def consume (start text : Bytes) : Option Bytes :=
  if start <+: text then some (text.drop start.length) else none

inductive ApiCall where
  | approveChatJoinRequest (chat user : ℤ)
  | declineChatJoinRequest (chat user : ℤ)
  | banChatMember (chat user : ℤ)
  | answerCallbackQuery (id text : Bytes)
  | editMessage (message : Message) (text : Bytes)
  | deleteMessage (message : Message)
  deriving DecidableEq

inductive Op where
  | lock
  | setCallbackData (button : Button) (data : Bytes)
  | sendMessage (ptr : ChatJoinRequest) (text : Bytes)
  | emplaceBack (joinReq : JoinReq)
  | find (data : Bytes)
  | crash
  | getChatMember (chat user : ℤ)
  | api (call : ApiCall)
  | erase (i : ℕ)
  | joinReqs
  | removeIf (update : ChatMemberUpdated)

-- An exception is caught by the caller of the handler, and logged.
abbrev Op.Answer : Op → Type
  | .sendMessage _ _ => Except Unit (Option Message)
  | .find _ => Option (ℕ × JoinReq)
  | .crash => Empty
  | .getChatMember _ _ => Except Unit (Option ChatMember)
  | .api _ => Except Unit Unit
  | .joinReqs => List JoinReq
  | _ => Unit

abbrev Handler := Program Op Op.Answer Unit

def orThrow {α : Type} : Except Unit α → Handler α
  | .ok a => .pure a
  | .error e => .throw e

def request (call : ApiCall) : Handler Unit := do
  orThrow (← Program.perform (Op.api call))

-- There is no way on from a null pointer.
def dereference : Option Message → Handler Message
  | some message => pure message
  | none => do nomatch ← Program.perform Op.crash

def announcement (ptr : ChatJoinRequest) : Bytes :=
  ascii s!"A new chat join request by <a href=\"tg://user?id={ptr.from_.id}\">" ++
    ptr.from_.firstName ++ ascii "</a>"

def onChatJoinRequest (ptr : ChatJoinRequest) (now : ℤ) : Handler Unit :=
  if isUnderTimeLimit ptr.date now then do
    Program.perform (Op.setCallbackData .approve (callbackData ptr.date .approve))
    Program.perform (Op.setCallbackData .disapprove (callbackData ptr.date .disapprove))
    Program.perform (Op.setCallbackData .ban (callbackData ptr.date .ban))
    let msg ← orThrow (← Program.perform (Op.sendMessage ptr (announcement ptr)))
    Program.perform Op.lock
    Program.perform (Op.emplaceBack ⟨msg, ptr⟩)
  else pure ()

-- Edits the message, and erases the request from the list after handling it.
def finish (i : ℕ) (message : Message) (result : Bytes) : Handler Unit := do
  request (.editMessage message result)
  Program.perform (Op.erase i)

def action (query : CallbackQuery) (i : ℕ) (message : Message) (r : ChatJoinRequest)
    (queryData : Bytes) : Handler Unit :=
  let by_ := r.from_.format ++ ascii " by " ++ query.from_.format
  if queryData = ascii "approve" then do
    request (.approveChatJoinRequest r.chat r.from_.id)
    request (.answerCallbackQuery query.id (ascii "Approved user"))
    finish i message (ascii "Approved user " ++ by_)
  else if queryData = ascii "disapprove" then do
    request (.declineChatJoinRequest r.chat r.from_.id)
    request (.answerCallbackQuery query.id (ascii "Declined user"))
    finish i message (ascii "Declined user " ++ by_)
  else if queryData = ascii "ban" then do
    request (.declineChatJoinRequest r.chat r.from_.id)
    request (.banChatMember r.chat r.from_.id)
    request (.answerCallbackQuery query.id (ascii "Banned user"))
    finish i message (ascii "Declined and banned user " ++ by_)
  else
    request (.answerCallbackQuery query.id (ascii "Error occurred while parsing"))

def handle (query : CallbackQuery) (queryData : Bytes) (i : ℕ) (req : JoinReq) :
    Handler Unit := do
  let message ← dereference req.message
  let user ← orThrow (← Program.perform (Op.getChatMember message.chat query.from_.id))
  if user.any ChatMember.actions then
    match consume (datePart req.request.date) queryData with
    | some queryData => action query i message req.request queryData
    | none => pure ()
  else request (.answerCallbackQuery query.id (ascii "Sorry, you are not allowed to"))

def onCallbackQuery (query : CallbackQuery) : Handler Unit :=
  match consume chatjoin query.data with
  | none => pure ()
  | some queryData => do
      Program.perform Op.lock
      match ← Program.perform (Op.find queryData) with
      | none => pure ()
      | some (i, req) => handle query queryData i req

-- The user is now a part of the chat.
def joined (update : ChatMemberUpdated) (req : JoinReq) : Bool :=
  req.request.chat == update.chat && req.request.from_.id == update.user &&
    update.newStatus == .member

def onChatMember (update : ChatMemberUpdated) : Handler Unit := do
  Program.perform Op.lock
  let reqs ← Program.perform Op.joinReqs
  (reqs.filter (joined update)).forM fun req => do
    let message ← dereference req.message
    request (.deleteMessage message)
  Program.perform (Op.removeIf update)

-- A message with buttons, and the request that it was sent for.
structure Sent where
  message : Message
  request : ChatJoinRequest
  keyboard : Keyboard

structure State where
  templateMarkup : Keyboard
  joinReqs : List JoinReq
  mutex : Option ℕ
  sent : List Sent

-- A press of a button has the data that the button had when its message was sent.
inductive Call where
  | chatJoinRequest (ptr : ChatJoinRequest) (now : ℤ)
  | callbackQuery (query : CallbackQuery) (message : ℕ) (button : Button)
  | chatMember (update : ChatMemberUpdated)

-- What the service answers. A message can be delivered although the call fails.
inductive Choice where
  | succeeds
  | fails (delivered : Bool)
  | forumClosed
  | shows (user : Option ChatMember)

namespace State

def initial : State := ⟨fun _ => [], [], none, []⟩

variable (s : State)

def find (data : Bytes) : Option (ℕ × JoinReq) :=
  (s.joinReqs.zipIdx.find? fun p => dateText p.1.request.date <+: data).map fun p => (p.2, p.1)

def deliver (ptr : ChatJoinRequest) : State × Message :=
  let message := ⟨s.sent.length, ptr.chat⟩
  ({ s with sent := ⟨message, ptr, s.templateMarkup⟩ :: s.sent }, message)

def sendMessage (ptr : ChatJoinRequest) : Choice → Option (State × Except Unit (Option Message))
  | .succeeds => some ((s.deliver ptr).1, .ok (some (s.deliver ptr).2))
  | .fails true => some ((s.deliver ptr).1, .error ())
  | .fails false => some (s, .error ())
  | .forumClosed => some (s, .ok none)
  | .shows _ => none

end State

def act (s : State) (t : ℕ) : (op : Op) → Choice → Option (State × Option op.Answer)
  | .lock, _ => if s.mutex = none then some ({ s with mutex := some t }, some ()) else none
  | .setCallbackData button data, _ =>
    some ({ s with templateMarkup := Function.update s.templateMarkup button data }, some ())
  | .sendMessage ptr _, choice =>
    (s.sendMessage ptr choice).map fun (s, answer) => (s, some answer)
  | .emplaceBack joinReq, _ => some ({ s with joinReqs := s.joinReqs ++ [joinReq] }, some ())
  | .find data, _ => some (s, some (s.find data))
  | .crash, _ => none
  | .getChatMember _ _, .shows user => some (s, some (.ok user))
  | .getChatMember _ _, .fails _ => some (s, some (.error ()))
  | .getChatMember _ _, _ => none
  | .api _, .succeeds => some (s, some (.ok ()))
  | .api _, .fails _ => some (s, some (.error ()))
  | .api _, _ => none
  | .erase i, _ => some ({ s with joinReqs := s.joinReqs.eraseIdx i }, some ())
  | .joinReqs, _ => some (s, some s.joinReqs)
  | .removeIf update, _ =>
    some ({ s with joinReqs := s.joinReqs.filter fun req => !joined update req }, some ())

def system : System State Call Choice Op Op.Answer Unit where
  program
    | .chatJoinRequest ptr now => onChatJoinRequest ptr now
    | .callbackQuery query _ _ => onCallbackQuery query
    | .chatMember update => onChatMember update
  begins s _
    | .callbackQuery query message button =>
      if ∃ sent ∈ s.sent, sent.message.messageId = message ∧ sent.keyboard button = query.data
        then some s else none
    | _ => some s
  act s t op choice := act s t op choice
  -- The lock guards release the mutex at the end of a handler, however it comes about.
  ends s t := if s.mutex = some t then { s with mutex := none } else s
  hangsUp _ _ := none

abbrev World := Threads State Call Op Op.Answer Unit

abbrev Step := Move Call Choice

abbrev History := List (ℕ × Event Call Op Op.Answer Unit)

def step : Transition World Step := Threads.step system

def World.initial : World := Threads.initial State.initial

end Glider.ChatJoin

import Glider.ChatJoin.Handlers

namespace Glider.ChatJoin

open Glider.Lib Glider.Lib.Threads
open Bytes (ascii)

structure Press where
  query : CallbackQuery
  message : ℕ
  button : Button

-- The calls that are the action of a button.
def ApiCall.acts : ApiCall → Bool
  | .approveChatJoinRequest _ _ | .declineChatJoinRequest _ _ | .banChatMember _ _ => true
  | _ => false

def Button.calls : Button → ChatJoinRequest → List ApiCall
  | .approve, r => [.approveChatJoinRequest r.chat r.from_.id]
  | .disapprove, r => [.declineChatJoinRequest r.chat r.from_.id]
  | .ban, r => [.declineChatJoinRequest r.chat r.from_.id, .banChatMember r.chat r.from_.id]

inductive Stage where
  | joining (ptr : ChatJoinRequest)
  | sent (message : Option Message) (ptr : ChatJoinRequest)
  | recording (message : Option Message) (ptr : ChatJoinRequest)
  | updating
  | sweeping
  | over
  | pressing (press : Press)
  | searching (press : Press)
  | found (press : Press) (i : ℕ) (req : JoinReq)
  | admitted (press : Press) (i : ℕ) (req : JoinReq) (done : List ApiCall)
  | closed (press : Press) (done : List ApiCall)

namespace Stage

-- A handler in such a stage has the mutex.
def holds : Stage → Bool
  | recording _ _ | sweeping | searching _ | found _ _ _ | admitted _ _ _ _ => true
  | _ => false

def at? : Stage → Option (Press × ℕ × JoinReq)
  | found press i req | admitted press i req _ => some (press, i, req)
  | _ => none

def press? : Stage → Option Press
  | pressing p | searching p | found p _ _ | admitted p _ _ _ | closed p _ => some p
  | _ => none

def done : Stage → List ApiCall
  | admitted _ _ _ done | closed _ done => done
  | _ => []

-- A message that is sent and not in the list yet.
def carries : Stage → Option (Message × ChatJoinRequest)
  | sent (some message) ptr | recording (some message) ptr => some (message, ptr)
  | _ => none

end Stage

def Press.queryData (press : Press) : Option Bytes := consume chatjoin press.query.data

-- The request that the data of a press is taken for.
def Press.finds (press : Press) (s : State) : Option (ℕ × JoinReq) := press.queryData.bind s.find

-- What is left of the data of a press after the date of a request.
def Press.choice (press : Press) (req : JoinReq) : Option Bytes :=
  press.queryData.bind (consume (datePart req.request.date))

def next : Stage → (op : Op) → op.Answer → Stage
  | .joining ptr, .sendMessage _ _, .ok message => .sent message ptr
  | .joining _, .sendMessage _ _, .error _ => .over
  | .sent message ptr, .lock, _ => .recording message ptr
  | .recording _ _, .emplaceBack _, _ => .over
  | .updating, .lock, _ => .sweeping
  | .pressing press, .lock, _ => .searching press
  | .searching press, .find _, some (i, req) => .found press i req
  | .searching press, .find _, none => .closed press []
  | .found press i req, .getChatMember _ _, .ok (some user) =>
    if user.actions then .admitted press i req [] else .closed press []
  | .found press _ _, .getChatMember _ _, _ => .closed press []
  | .admitted press i req done, .api call, .ok _ =>
    if call.acts then .admitted press i req (done ++ [call]) else .admitted press i req done
  | .admitted press _ _ done, .api _, .error _ => .closed press done
  | .admitted press _ _ done, .erase _, _ => .closed press done
  | m, _, _ => m

def Allows (m : Stage) : Op → Prop
  | .lock => (∃ message ptr, m = .sent message ptr) ∨ m = .updating ∨ ∃ press, m = .pressing press
  | .setCallbackData button data => ∃ ptr, m = .joining ptr ∧ data = callbackData ptr.date button
  | .sendMessage ptr _ => m = .joining ptr
  | .emplaceBack req => m = .recording req.message req.request
  | .find data => ∃ press, m = .searching press ∧ press.queryData = some data
  | .crash => m.holds = true
  | .getChatMember chat user => ∃ press i req message, m = .found press i req ∧
      req.message = some message ∧ chat = message.chat ∧ user = press.query.from_.id
  | .api call => (call.acts = false ∧ m.carries = none) ∨
      ∃ press i req done, ∃ button : Button, m = .admitted press i req done ∧
        press.choice req = some button.name ∧ done ++ [call] <+: button.calls req.request
  | .erase i => ∃ press req done, m = .admitted press i req done ∧ done ≠ []
  | .joinReqs | .removeIf _ => m = .sweeping

-- A handler does not end between its action and the erasure, nor with a message to record.
def Ends (m : Stage) (_ : Except Unit Unit) : Prop :=
  m.carries = none ∧ ∀ press i req done, m = .admitted press i req done → done = []

def Stage.start : Call → Stage
  | .chatJoinRequest ptr _ => .joining ptr
  | .callbackQuery query message button => .pressing ⟨query, message, button⟩
  | .chatMember _ => .updating

def discipline : Discipline Call Op Op.Answer Unit Stage where
  monitor := ⟨Allows, next⟩
  start := .start
  post := Ends

section Conduct

variable {α : Type} {m : Stage}

abbrev Meets (post : Stage → Except Unit α → Prop) (p : Handler α) (m : Stage) : Prop :=
  p.Meets discipline.monitor post m

theorem ends_of {result : Except Unit Unit} (hcarries : m.carries = none) (hdone : m.done = []) :
    Ends m result := by
  refine ⟨hcarries, ?_⟩
  rintro press i req done rfl
  exact hdone

theorem ends_closed {press : Press} {done : List ApiCall} {result : Except Unit Unit} :
    Ends (.closed press done) result :=
  ⟨rfl, fun _ _ _ _ => nofun⟩

theorem meets_onChatJoinRequest (ptr : ChatJoinRequest) (now : ℤ) :
    Meets Ends (onChatJoinRequest ptr now) (.joining ptr) := by
  unfold onChatJoinRequest
  split
  · refine ⟨⟨ptr, rfl, rfl⟩, fun _ => ⟨⟨ptr, rfl, rfl⟩, fun _ => ⟨⟨ptr, rfl, rfl⟩, fun _ => ?_⟩⟩⟩
    refine ⟨rfl, fun answer => ?_⟩
    cases answer with
    | error e => exact ends_of rfl rfl
    | ok message =>
      refine ⟨.inl ⟨message, ptr, rfl⟩, fun _ => ⟨rfl, fun _ => ?_⟩⟩
      exact ends_of rfl rfl
  · exact ends_of rfl rfl

-- After a request that is no action, a handler is where it was, or it is over.
theorem meets_request {post : Stage → Except Unit α → Prop} {call : ApiCall}
    {f : Unit → Handler α} (hallows : Allows m (.api call))
    (herror : ∀ e, post (next m (.api call) (.error e)) (.error e))
    (hf : Meets post (f ()) (next m (.api call) (.ok ()))) :
    Meets post (request call >>= f) m := by
  refine ⟨hallows, fun answer => ?_⟩
  cases answer with
  | error e => exact herror e
  | ok a => exact hf

section Actions

variable {press : Press} {i : ℕ} {req : JoinReq} {done : List ApiCall} {message : Message}

theorem meets_finish {text : Bytes} (hdone : done ≠ []) :
    Meets Ends (finish i message text) (.admitted press i req done) := by
  refine meets_request (.inl ⟨rfl, rfl⟩) (fun _ => ends_closed) ?_
  exact ⟨⟨press, req, done, rfl, hdone⟩, fun _ => ends_closed⟩

theorem meets_acknowledge {id text result : Bytes} (hdone : done ≠ []) :
    Meets Ends (do request (.answerCallbackQuery id text); finish i message result)
      (.admitted press i req done) :=
  meets_request (.inl ⟨rfl, rfl⟩) (fun _ => ends_closed) (meets_finish hdone)

theorem meets_action {queryData : Bytes} (hchoice : press.choice req = some queryData) :
    Meets Ends (action press.query i message req.request queryData)
      (.admitted press i req []) := by
  unfold action
  split
  · next happrove =>
    refine meets_request (.inr ⟨press, i, req, [], .approve, rfl, ?_, List.prefix_rfl⟩)
      (fun _ => ends_closed) (meets_acknowledge (List.cons_ne_nil _ _))
    rw [hchoice, happrove]
    rfl
  · split
    · next hdisapprove =>
      refine meets_request (.inr ⟨press, i, req, [], .disapprove, rfl, ?_, List.prefix_rfl⟩)
        (fun _ => ends_closed) (meets_acknowledge (List.cons_ne_nil _ _))
      rw [hchoice, hdisapprove]
      rfl
    · split
      · next hban =>
        have hname : press.choice req = some Button.ban.name := by
          rw [hchoice, hban]
          rfl
        refine meets_request (.inr ⟨press, i, req, [], .ban, rfl, hname, ⟨[_], rfl⟩⟩)
          (fun _ => ends_closed) ?_
        exact meets_request (.inr ⟨press, i, req, _, .ban, rfl, hname, List.prefix_rfl⟩)
          (fun _ => ends_closed) (meets_acknowledge (List.cons_ne_nil _ _))
      · refine ⟨.inl ⟨rfl, rfl⟩, fun answer => ?_⟩
        cases answer <;> exact ends_of rfl rfl

end Actions

theorem meets_handle {press : Press} {queryData : Bytes} {i : ℕ} {req : JoinReq}
    (hdata : press.queryData = some queryData) :
    Meets Ends (handle press.query queryData i req) (.found press i req) := by
  unfold handle
  cases hmessage : req.message with
  | none => exact ⟨rfl, nofun⟩
  | some message =>
    refine ⟨⟨press, i, req, message, rfl, hmessage, rfl, rfl⟩, fun answer => ?_⟩
    have hrefused : Meets Ends (request (.answerCallbackQuery press.query.id
        (ascii "Sorry, you are not allowed to"))) (.closed press []) := by
      refine ⟨.inl ⟨rfl, rfl⟩, fun answer => ?_⟩
      cases answer <;> exact ends_of rfl rfl
    cases answer with
    | error e => exact ends_of rfl rfl
    | ok user =>
      cases user with
      | none => exact hrefused
      | some user =>
        change Meets Ends (if user.actions then _ else _)
          (if user.actions then .admitted press i req [] else .closed press [])
        split
        · split
          · next choice hchoice =>
            refine meets_action ?_
            rw [Press.choice, hdata]
            exact hchoice
          · exact ends_of rfl rfl
        · exact hrefused

theorem meets_onCallbackQuery (press : Press) :
    Meets Ends (onCallbackQuery press.query) (.pressing press) := by
  unfold onCallbackQuery
  split
  · exact ends_of rfl rfl
  · next queryData hdata =>
    refine ⟨.inr (.inr ⟨press, rfl⟩), fun _ => ⟨⟨press, rfl, hdata⟩, fun answer => ?_⟩⟩
    cases answer with
    | none => exact ends_of rfl rfl
    | some found => exact meets_handle hdata

theorem meets_onChatMember (update : ChatMemberUpdated) :
    Meets Ends (onChatMember update) .updating := by
  refine ⟨.inr (.inl rfl), fun _ => ⟨rfl, fun reqs => ?_⟩⟩
  have hdelete : Program.Keeps discipline.monitor Stage.sweeping
      ((reqs.filter (joined update)).forM fun req => do
        let message ← dereference req.message
        request (.deleteMessage message)) := by
    refine Program.Keeps.forM fun req _ => ?_
    cases req.message with
    | none => exact ⟨rfl, nofun⟩
    | some message =>
      refine ⟨.inl ⟨rfl, rfl⟩, fun answer => ?_⟩
      cases answer <;> rfl
  refine hdelete.meets_bind (fun _ => ⟨rfl, fun _ => ends_of rfl rfl⟩) fun _ => ends_of rfl rfl

theorem governs : discipline.Governs system := by
  intro call
  cases call with
  | chatJoinRequest ptr now => exact meets_onChatJoinRequest ptr now
  | callbackQuery query message button => exact meets_onCallbackQuery ⟨query, message, button⟩
  | chatMember update => exact meets_onChatMember update

end Conduct

abbrev stageOf (w : World) (t : ℕ) : Option Stage := discipline.stage w t

abbrev Moves (w : World) (i : Step) (w' : World) : Prop := discipline.Moves system w i w'

end Glider.ChatJoin

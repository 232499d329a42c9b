import Glider.ChatJoin.Pending
import Glider.Lib.History

namespace Glider.ChatJoin

open Glider.Lib Glider.Lib.Threads
open Bytes (ascii)

def pressIn : Event Call Op Op.Answer Unit → Option Press
  | .begins (.callbackQuery query message button) => some ⟨query, message, button⟩
  | _ => none

def pressOf (history : History) (t : ℕ) : Option Press :=
  history.findSome? fun e => if e.1 = t then pressIn e.2 else none

-- An action that the service has carried out.
def actionIn : Event Call Op Op.Answer Unit → Option ApiCall
  | .answers (.api call) (.ok _) => if call.acts then some call else none
  | _ => none

-- The actions of a thread, the oldest one first.
def actionsOf : History → ℕ → List ApiCall
  | [], _ => []
  | (u, event) :: older, t =>
    if u = t then actionsOf older t ++ (actionIn event).toList else actionsOf older t

-- A thread has asked whether a user may action the requests of a chat, and the user may.
def admits (t : ℕ) (chat user : ℤ) : ℕ × Event Call Op Op.Answer Unit → Bool
  | (u, .answers (.getChatMember chat' user') (.ok (some status))) =>
    u == t && chat' == chat && user' == user && status.actions
  | _ => false

-- An action is that of the button, on the request that the pressed message was sent for. The
-- presser may do so, and no other press of the message has had an action.
def Warranted (sent : List Sent) (older : History) (t : ℕ) (call : ApiCall) : Prop :=
  ∃ press ∈ pressOf older t, ∃ s ∈ sent, s.message.messageId = press.message ∧
    actionsOf older t ++ [call] <+: press.button.calls s.request ∧
    older.any (admits t s.request.chat press.query.from_.id) = true ∧
    ∀ e ∈ older, ∀ other ∈ pressIn e.2, other.message = press.message → e.1 ≠ t →
      actionsOf older e.1 = []

instance (sent : List Sent) (older : History) (t : ℕ) (call : ApiCall) :
    Decidable (Warranted sent older t call) :=
  inferInstanceAs (Decidable (∃ press ∈ pressOf older t, _))

def ActsOnOwn (w : World) : Prop :=
  Explained (fun e older => ∀ call ∈ actionIn e.2, Warranted w.shared.sent older e.1 call) w.history

instance (w : World) : Decidable (ActsOnOwn w) :=
  inferInstanceAs (Decidable (Explained _ w.history))

-- The request that a press is taken for is the one of its message, or the data does not go on
-- after the date.
def FindsOwn (w : World) (t : ℕ) : Prop :=
  ∀ press ∈ pressOf w.history t, ∀ found ∈ press.finds w.shared,
    found.2.message.map (·.messageId) = some press.message ∨ press.choice found.2 = none

instance (w : World) (t : ℕ) : Decidable (FindsOwn w t) :=
  inferInstanceAs (Decidable (∀ press ∈ pressOf w.history t, _))

-- A presser who may action a request gets at the one of the message, and no call to the service
-- fails after an action.
def Orderly (w : World) : Step → Prop
  | .acts t (.shows (some status)) => status.actions = true → FindsOwn w t
  | .acts t (.fails _) => actionsOf w.history t = []
  | _ => True

instance : ∀ w i, Decidable (Orderly w i)
  | _, .acts _ (.shows (some status)) => inferInstanceAs (Decidable (status.actions = true → _))
  | _, .acts _ (.fails _) => inferInstanceAs (Decidable (_ = _))
  | _, .acts _ (.shows none) | _, .acts _ .succeeds | _, .acts _ .forumClosed => .isTrue trivial
  | _, .begins _ | _, .ends _ | _, .hangsUp _ => .isTrue trivial

section Steps

variable {w w' : World} {i : Step}

def Stage.mayAct : Stage → Bool
  | admitted _ _ _ _ => true
  | _ => false

-- All that the answer of an operation makes of a stage.
inductive Turns (m : Stage) : (op : Op) → op.Answer → Stage → Prop where
  | stays {op : Op} {a : op.Answer} (haction : actionIn (.answers op a) = none) : Turns m op a m
  | plain {op : Op} {a : op.Answer} {m' : Stage} (hpress : m'.press? = m.press?)
      (hbefore : m.done = []) (hafter : m'.done = []) (haction : actionIn (.answers op a) = none)
      (hadmits : m'.mayAct = false) : Turns m op a m'
  | admits {press : Press} {i : ℕ} {req : JoinReq} {message : Message} {status : ChatMember}
      (hm : m = .found press i req) (hmessage : req.message = some message)
      (hactions : status.actions = true) :
      Turns m (.getChatMember message.chat press.query.from_.id) (.ok (some status))
        (.admitted press i req [])
  | acts {press : Press} {i : ℕ} {req : JoinReq} {done : List ApiCall} {button : Button}
      {call : ApiCall} (hm : m = .admitted press i req done) (hacts : call.acts = true)
      (hchoice : press.choice req = some button.name)
      (hcalls : done ++ [call] <+: button.calls req.request) :
      Turns m (.api call) (.ok ()) (.admitted press i req (done ++ [call]))
  | fails {press : Press} {i : ℕ} {req : JoinReq} {done : List ApiCall} {call : ApiCall} {e : Unit}
      (hm : m = .admitted press i req done) : Turns m (.api call) (.error e) (.closed press done)
  | erases {press : Press} {i : ℕ} {req : JoinReq} {done : List ApiCall} {a : Unit}
      (hm : m = .admitted press i req done) : Turns m (.erase i) a (.closed press done)

theorem turns_of_next {m : Stage} {op : Op} {a : op.Answer} (hallows : Allows m op) :
    Turns m op a (next m op a) := by
  cases op with
  | lock =>
    obtain ⟨message, ptr, rfl⟩ | rfl | ⟨press, rfl⟩ := hallows <;>
      exact .plain rfl rfl rfl rfl rfl
  | setCallbackData button data =>
    obtain ⟨ptr, rfl, -⟩ := hallows
    exact .stays rfl
  | sendMessage ptr text =>
    obtain rfl : m = _ := hallows
    cases a <;> exact .plain rfl rfl rfl rfl rfl
  | emplaceBack req =>
    obtain rfl : m = _ := hallows
    exact .plain rfl rfl rfl rfl rfl
  | find data =>
    obtain ⟨press, rfl, -⟩ := hallows
    cases a <;> exact .plain rfl rfl rfl rfl rfl
  | crash => cases a
  | getChatMember chat user =>
    obtain ⟨press, i, req, message, rfl, hmessage, rfl, rfl⟩ := hallows
    rcases a with _ | (_ | status)
    · exact .plain rfl rfl rfl rfl rfl
    · exact .plain rfl rfl rfl rfl rfl
    · change Turns _ _ _ (if status.actions then _ else _)
      split
      · next hactions => exact .admits rfl hmessage hactions
      · exact .plain rfl rfl rfl rfl rfl
  | api call =>
    obtain ⟨hacts, -⟩ | ⟨press, i, req, done, button, rfl, hchoice, hcalls⟩ := hallows
    · cases a with
      | error e =>
        cases m with
        | admitted press i req done => exact .fails rfl
        | _ => exact .stays rfl
      | ok u =>
        have hnext : next m (.api call) (.ok u) = m := by
          cases m with
          | admitted press i req done => exact if_neg (by rw [hacts]; exact Bool.false_ne_true)
          | _ => rfl
        have haction : actionIn (.answers (.api call) (.ok u)) = none :=
          if_neg (by rw [hacts]; exact Bool.false_ne_true)
        rw [hnext]
        exact .stays haction
    · cases a with
      | error e => exact .fails rfl
      | ok u =>
        change Turns _ _ _ (if call.acts then _ else _)
        split
        · next hacts => exact .acts rfl hacts hchoice hcalls
        · next hacts => exact .stays (if_neg hacts)
  | erase i =>
    obtain ⟨press, req, done, rfl, -⟩ := hallows
    exact .erases rfl
  | joinReqs | removeIf update =>
    obtain rfl : m = _ := hallows
    exact .stays rfl

theorem press_of_next {m : Stage} {op : Op} {a : op.Answer} (hallows : Allows m op) :
    (next m op a).press? = m.press? := by
  have hturns := turns_of_next (a := a) hallows
  generalize next m op a = m' at hturns
  cases hturns with
  | stays => rfl
  | plain hpress => exact hpress
  | admits hm | acts hm | fails hm | erases hm =>
    subst hm
    rfl

theorem done_of_next {m : Stage} {op : Op} {a : op.Answer} (hallows : Allows m op) :
    (next m op a).done = m.done ++ (actionIn (.answers op a)).toList := by
  have hturns := turns_of_next (a := a) hallows
  generalize next m op a = m' at hturns
  cases hturns with
  | stays haction => rw [haction, Option.toList_none, List.append_nil]
  | plain hpress hbefore hafter haction => rw [haction, hbefore, hafter, Option.toList_none]; rfl
  | admits hm =>
    subst hm
    rfl
  | acts hm hacts =>
    subst hm
    have haction : actionIn (.answers (.api _) (.ok ())) = some _ := if_pos hacts
    rw [haction]
    rfl
  | fails hm | erases hm =>
    subst hm
    exact (List.append_nil _).symm

-- What a thread has been begun with is what its stage tells.
def tellsPress (event : Event Call Op Op.Answer Unit) (m : Stage) : Prop :=
  ∀ press, pressIn event = some press → m.press? = some press

theorem lasts_press : Discipline.Lasts discipline tellsPress where
  begins call press hpress := by
    cases call with
    | callbackQuery query message button => exact hpress
    | _ => cases hpress
  answers m op answer hallows press hpress := by cases hpress
  ends m result hpost press hpress := by cases hpress
  hangsUp m press hpress := by cases hpress
  goes event m op answer hallows htells press hpress :=
    (press_of_next hallows).trans (htells press hpress)

-- The press that a stage is about, and what has been done for it.
structure Tracked (w : World) : Prop where
  recalls : Discipline.Recalls discipline tellsPress w
  pressed : ∀ t m press, stageOf w t = some m → m.press? = some press →
    pressOf w.history t = some press ∧ ∃ s ∈ w.shared.sent,
      s.message.messageId = press.message ∧ s.keyboard press.button = press.query.data
  actions : ∀ t, actionsOf w.history t = ((stageOf w t).map Stage.done).getD []

theorem pressOf_cons_of_none {e : ℕ × Event Call Op Op.Answer Unit} {history : History} {t : ℕ}
    (h : e.1 = t → pressIn e.2 = none) : pressOf (e :: history) t = pressOf history t := by
  have hnone : (if e.1 = t then pressIn e.2 else none) = none := by
    split
    · next heq => exact h heq
    · rfl
  rw [pressOf, List.findSome?_cons, hnone]
  rfl

theorem actionsOf_cons_of_none {e : ℕ × Event Call Op Op.Answer Unit} {history : History} {t : ℕ}
    (h : e.1 = t → actionIn e.2 = none) : actionsOf (e :: history) t = actionsOf history t := by
  rw [actionsOf]
  split
  · next heq =>
    rw [h heq]
    exact List.append_nil _
  · rfl

theorem Tracked.of_moves (hs : discipline.Follows w) (h : Tracked w) (hm : Moves w i w') :
    Tracked w' := by
  refine ⟨Discipline.Recalls.of_moves lasts_press hs h.recalls hm, fun u m' press hstage' hpress => ?_,
    fun u => ?_⟩
  · cases goes_of_moves hm with
    | begins hbegins =>
      rename_i call
      by_cases hu : u = w.started
      · subst hu
        rw [stageOf, Discipline.stage_begun] at hstage'
        obtain rfl := Option.some.inj hstage'
        cases call with
        | callbackQuery query message button =>
          obtain rfl := Option.some.inj hpress
          refine ⟨?_, (Option.ite_none_right_eq_some.mp hbegins).1⟩
          have hnew : (if w.started = w.started then some (Press.mk query message button)
              else none) = some ⟨query, message, button⟩ := if_pos rfl
          exact List.findSome?_cons_of_isSome (by rw [pressIn, hnew]; rfl) |>.trans hnew
        | _ => cases hpress
      · rw [stageOf, Discipline.stage_begun_of_ne hu] at hstage'
        obtain ⟨hbefore, hsent⟩ := h.pressed u m' press hstage' hpress
        exact ⟨(pressOf_cons_of_none fun heq => absurd heq.symm hu).trans hbefore, hsent⟩
    | ends hstage hpost hjoinReqs hsent htemplate hmutex =>
      rw [stageOf, Discipline.stage_ends] at hstage'
      obtain ⟨hbefore, s, hs, hpressed⟩ := h.pressed u m' press hstage' hpress
      exact ⟨(pressOf_cons_of_none fun _ => rfl).trans hbefore, s, hsent ▸ hs, hpressed⟩
    | answers hstage hallows hact hchange hrunning hlive =>
      rename_i t c op shared answer m next'
      have hbefore : ∃ m₀, stageOf w u = some m₀ ∧ m₀.press? = some press := by
        by_cases hu : u = t
        · subst hu
          rw [stageOf, Discipline.stage_answers hstage] at hstage'
          obtain rfl := Option.some.inj hstage'
          exact ⟨m, hstage, (press_of_next hallows).symm.trans hpress⟩
        · rw [stageOf, Discipline.stage_record_of_ne hu] at hstage'
          exact ⟨m', hstage', hpress⟩
      obtain ⟨m₀, hstage₀, hpress₀⟩ := hbefore
      obtain ⟨hpressOf, s, hs, hpressed⟩ := h.pressed u m₀ press hstage₀ hpress₀
      exact ⟨(pressOf_cons_of_none fun _ => rfl).trans hpressOf, s, hchange.sent_subset hs,
        hpressed⟩
  · cases goes_of_moves hm with
    | begins hbegins =>
      rename_i call
      refine (actionsOf_cons_of_none fun _ => rfl).trans ((h.actions u).trans ?_)
      by_cases hu : u = w.started
      · subst hu
        rw [stageOf, stageOf, (hs.fresh _ (Nat.le_refl _)).2, Discipline.stage_begun]
        cases call <;> rfl
      · rw [stageOf, stageOf, Discipline.stage_begun_of_ne hu]
    | ends hstage hpost hjoinReqs hsent htemplate hmutex =>
      refine (actionsOf_cons_of_none fun _ => rfl).trans ((h.actions u).trans ?_)
      rw [stageOf, stageOf, Discipline.stage_ends]
    | answers hstage hallows hact hchange hrunning hlive =>
      rename_i t c op shared answer m next'
      by_cases hu : u = t
      · subst hu
        have hafter : actionsOf ((u, .answers op answer) :: w.history) u =
            actionsOf w.history u ++ (actionIn (.answers op answer)).toList := if_pos rfl
        refine hafter.trans ?_
        have hstage' : discipline.stage w u = some m := hstage
        rw [h.actions u, stageOf, stageOf, Discipline.stage_answers hstage, hstage']
        exact (done_of_next hallows).symm
      · have hne : t ≠ u := fun heq => hu heq.symm
        refine (actionsOf_cons_of_none fun heq => absurd heq hne).trans ((h.actions u).trans ?_)
        rw [stageOf, stageOf, Discipline.stage_record_of_ne hu]

-- No request with the message is pending, or is about to be.
def Clear (w : World) (id : ℕ) : Prop :=
  id ∉ messageIds w.shared.joinReqs ∧
    ∀ u m p, stageOf w u = some m → m.carries = some p → p.1.messageId ≠ id

-- What is known of a press that may act, and of one that has acted.
structure Acted (w : World) : Prop where
  admitted : ∀ t press i req done, stageOf w t = some (.admitted press i req done) →
    ∃ message, req.message = some message ∧
      w.history.any (admits t message.chat press.query.from_.id) = true ∧
      (message.messageId = press.message ∨ press.choice req = none)
  acting : ∀ t press i req done, stageOf w t = some (.admitted press i req done) → done ≠ [] →
    Live w t ∧ req.message.map (·.messageId) = some press.message
  spent : ∀ t press done, stageOf w t = some (.closed press done) → done ≠ [] →
    Clear w press.message
  only : ActsOnOwn w

theorem Warranted.mono {sent sent' : List Sent} {older : History} {t : ℕ} {call : ApiCall}
    (h : Warranted sent older t call) (hsub : sent ⊆ sent') : Warranted sent' older t call := by
  obtain ⟨press, hpress, s, hs, hrest⟩ := h
  exact ⟨press, hpress, s, hsub hs, hrest⟩

theorem ActsOnOwn.push {event : ℕ × Event Call Op Op.Answer Unit} (h : ActsOnOwn w)
    (hsub : w.shared.sent ⊆ w'.shared.sent) (hhistory : w'.history = event :: w.history)
    (hevent : ∀ call ∈ actionIn event.2, Warranted w'.shared.sent w.history event.1 call) :
    ActsOnOwn w' := by
  unfold ActsOnOwn
  rw [hhistory]
  exact ⟨hevent, h.mono fun e older hgood call hcall => (hgood call hcall).mono hsub⟩

theorem messageId_mem {s : State} {i : ℕ} {req : JoinReq} {id : ℕ}
    (hat : s.joinReqs[i]? = some req) (hid : req.message.map (·.messageId) = some id) :
    id ∈ messageIds s.joinReqs := by
  obtain ⟨message, hmessage, heq⟩ := Option.map_eq_some_iff.mp hid
  exact mem_messageIds.mpr ⟨req, List.mem_of_getElem? hat, message, hmessage, heq⟩

-- A press of the same message has no action while this one is about to have one.
theorem Acted.idle (h : Acted w) (hl : Locked w) (ht : Tracked w) {t : ℕ} {press : Press} {i : ℕ}
    {req : JoinReq} {done : List ApiCall} (hstage : stageOf w t = some (.admitted press i req done))
    (hlive : Live w t) (hid : req.message.map (·.messageId) = some press.message)
    {e : ℕ × Event Call Op Op.Answer Unit} (he : e ∈ w.history) {other : Press}
    (hother : pressIn e.2 = some other) (hsame : other.message = press.message) (hne : e.1 ≠ t) :
    actionsOf w.history e.1 = [] := by
  obtain ⟨m, hm, htells⟩ := ht.recalls e.1 e.2 he
  have hpress := htells other hother
  have hdone : actionsOf w.history e.1 = m.done := by
    have hstage' : stageOf w e.1 = some m := hm
    rw [ht.actions, hstage']
    rfl
  by_contra hacted
  rw [hdone] at hacted
  have hmutex := hl.holder t _ hstage rfl hlive
  have hat := getElem?_of_finds (hl.located t _ press (i, req) hstage rfl hlive)
  cases m with
  | admitted press' i' req' done' =>
    have hmutex' := hl.holder e.1 _ hm rfl (h.acting e.1 press' i' req' done' hm hacted).1
    exact hne (Option.some.inj (hmutex'.symm.trans hmutex))
  | closed press' done' =>
    obtain rfl := Option.some.inj hpress
    have hmem := messageId_mem hat hid
    rw [← hsame] at hmem
    exact (h.spent e.1 _ done' hm hacted).1 hmem
  | _ => exact hacted rfl

theorem Acted.warranted (h : Acted w) (hl : Locked w) (hd : Delivered w) (ht : Tracked w) {t : ℕ}
    {press : Press} {i : ℕ} {req : JoinReq} {done : List ApiCall} {button : Button}
    {call : ApiCall} (hstage : stageOf w t = some (.admitted press i req done)) (hlive : Live w t)
    (hchoice : press.choice req = some button.name)
    (hcalls : done ++ [call] <+: button.calls req.request) :
    req.message.map (·.messageId) = some press.message ∧
      Warranted w.shared.sent w.history t call := by
  obtain ⟨message, hmessage, hadmits, hown⟩ := h.admitted t press i req done hstage
  have hown : message.messageId = press.message := by
    obtain hown | hnone := hown
    · exact hown
    · cases hnone.symm.trans hchoice
  have hid : req.message.map (·.messageId) = some press.message := by
    rw [hmessage, ← hown]
    rfl
  have hat := getElem?_of_finds (hl.located t _ press (i, req) hstage rfl hlive)
  obtain ⟨s, hs, hsmessage, hsrequest⟩ := hd.listed req (List.mem_of_getElem? hat) message hmessage
  have hsmessage : s.message = message := hsmessage
  have hsrequest : s.request = req.request := hsrequest
  obtain ⟨hpressOf, s', hs', -, hkeyboard⟩ := ht.pressed t _ press hstage rfl
  obtain rfl := (hd.drawn s' hs').choice hkeyboard hchoice
  refine ⟨hid, press, hpressOf, s, hs, by rw [hsmessage, hown], ?_, ?_, ?_⟩
  · have hactions : actionsOf w.history t = done := by
      rw [ht.actions, hstage]
      rfl
    rw [hactions, hsrequest]
    exact hcalls
  · have hchat := hd.chat s hs
    rw [hsmessage] at hchat
    rw [← hchat]
    exact hadmits
  · exact fun e he other hother hsame hne => h.idle hl ht hstage hlive hid he hother hsame hne

theorem Clear.of_goes {id : ℕ} (h : Clear w id) (hlt : id < w.shared.sent.length)
    (hgoes : Goes w i w') : Clear w' id := by
  refine ⟨?_, fun u m' p hstage' hcarries => ?_⟩
  · cases hgoes with
    | begins hbegins => exact h.1
    | ends hstage hpost hjoinReqs hsent htemplate hmutex =>
      change id ∉ messageIds (system.ends _ _).joinReqs
      rw [hjoinReqs]
      exact h.1
    | answers hstage hallows hact hchange hrunning hlive =>
      rename_i t c op shared answer m next'
      obtain hsub | ⟨req, rfl, hlisted⟩ := hchange.list
      · exact fun hmem => h.1 ((messageIds_sublist hsub).subset hmem)
      · change id ∉ messageIds shared.joinReqs
        obtain rfl : m = _ := hallows
        rw [hlisted, messageIds_append]
        cases hmessage : req.message with
        | none => simpa using h.1
        | some message =>
          have hne := h.2 t _ (message, req.request) hstage (by rw [hmessage]; rfl)
          refine fun hmem => ?_
          obtain hmem | hmem := List.mem_append.mp hmem
          · exact h.1 hmem
          · obtain rfl : id = message.messageId := List.mem_singleton.mp hmem
            exact hne rfl
  · obtain ⟨m, hstage, hbefore⟩ | ⟨ptr, c, -, -, rfl⟩ := carried_of_goes hgoes hstage' hcarries
    · exact h.2 u m p hstage hbefore
    · exact Nat.ne_of_gt hlt

theorem notMem_messageIds_eraseIdx {reqs : List JoinReq} {i : ℕ} {req : JoinReq} {id : ℕ}
    (hnodup : (messageIds reqs).Nodup) (hat : reqs[i]? = some req)
    (hid : req.message.map (·.messageId) = some id) : id ∉ messageIds (reqs.eraseIdx i) := by
  induction reqs generalizing i with
  | nil => cases hat
  | cons r reqs ih =>
    have hcons (rest : List JoinReq) : messageIds (r :: rest) =
        (r.message.map (·.messageId)).toList ++ messageIds rest := by
      rw [messageIds, List.filterMap_cons]
      cases r.message.map (·.messageId) <;> rfl
    rw [hcons] at hnodup
    obtain ⟨-, hrest, hapart⟩ := List.nodup_append.mp hnodup
    cases i with
    | zero =>
      obtain rfl := Option.some.inj hat
      rw [List.eraseIdx_cons_zero]
      rw [hid] at hapart
      exact fun hmem => hapart id (List.mem_singleton.mpr rfl) id hmem rfl
    | succ i =>
      have hat : reqs[i]? = some req := hat
      have hmem : id ∈ messageIds reqs := by
        obtain ⟨message, hmessage, heq⟩ := Option.map_eq_some_iff.mp hid
        exact mem_messageIds.mpr ⟨req, List.mem_of_getElem? hat, message, hmessage, heq⟩
      rw [List.eraseIdx_cons_succ, hcons]
      refine fun hin => ?_
      obtain hin | hin := List.mem_append.mp hin
      · exact hapart id hin id hmem rfl
      · exact ih hrest hat hin

theorem Acted.admitted_of_goes (h : Acted w) (ht : Tracked w) (hl : Locked w)
    (hguard : Orderly w i) (hgoes : Goes w i w') {u : ℕ} {press : Press} {j : ℕ} {req : JoinReq}
    {done : List ApiCall} (hstage' : stageOf w' u = some (.admitted press j req done)) :
    ∃ message, req.message = some message ∧
      w'.history.any (admits u message.chat press.query.from_.id) = true ∧
      (message.messageId = press.message ∨ press.choice req = none) := by
  -- What was known before is still so with one more event.
  have hbefore {done : List ApiCall} {e : ℕ × Event Call Op Op.Answer Unit}
      (hhistory : w'.history = e :: w.history)
      (hstage : stageOf w u = some (.admitted press j req done)) :
      ∃ message, req.message = some message ∧
        w'.history.any (admits u message.chat press.query.from_.id) = true ∧
        (message.messageId = press.message ∨ press.choice req = none) := by
    obtain ⟨message, hmessage, hadmits, hown⟩ := h.admitted u press j req done hstage
    refine ⟨message, hmessage, ?_, hown⟩
    rw [hhistory, List.any_cons, hadmits, Bool.or_true]
  cases hgoes with
  | begins hbegins =>
    rename_i call
    by_cases hu : u = w.started
    · subst hu
      rw [stageOf, Discipline.stage_begun] at hstage'
      cases call <;> cases hstage'
    · rw [stageOf, Discipline.stage_begun_of_ne hu] at hstage'
      exact hbefore rfl hstage'
  | ends hstage hpost hjoinReqs hsent htemplate hmutex =>
    rw [stageOf, Discipline.stage_ends] at hstage'
    exact hbefore rfl hstage'
  | answers hstage hallows hact hchange hrunning hlive =>
    rename_i t c op shared answer m next'
    by_cases hu : u = t
    · subst hu
      rw [stageOf, Discipline.stage_answers hstage, Option.some.injEq] at hstage'
      have hturns : Turns m op answer (.admitted press j req done) :=
        hstage' ▸ turns_of_next hallows
      cases hturns with
      | stays => exact hbefore rfl hstage
      | acts hm =>
        subst hm
        exact hbefore rfl hstage
      | plain hpress hdone hafter haction hadmits => cases hadmits
      | admits hm hmessage hactions =>
        rename_i message status
        subst hm
        refine ⟨message, hmessage, ?_, ?_⟩
        · have hevent : admits u message.chat press.query.from_.id
              (u, .answers (.getChatMember message.chat press.query.from_.id)
                (.ok (some status))) = true := by
            simp [admits, hactions]
          exact List.any_cons.trans (by rw [hevent]; rfl)
        · obtain ⟨hpressOf, -⟩ := ht.pressed u _ press hstage rfl
          have hfinds := hl.located u _ press (j, req) hstage rfl hlive
          rcases c with _ | _ | _ | _ <;> cases hact
          obtain hown | hnone := hguard hactions press hpressOf (j, req) hfinds
          · rw [hmessage] at hown
            exact .inl (Option.some.inj hown)
          · exact .inr hnone
    · rw [stageOf, Discipline.stage_record_of_ne hu] at hstage'
      exact hbefore rfl hstage'

-- A press that has acted is still about to erase its request, or was so before.
theorem Acted.acting_of_goes (h : Acted w) (hl : Locked w) (hd : Delivered w) (ht : Tracked w)
    (hgoes : Goes w i w') {u : ℕ} {press : Press} {j : ℕ} {req : JoinReq} {done : List ApiCall}
    (hstage' : stageOf w' u = some (.admitted press j req done)) (hdone : done ≠ []) :
    Live w' u ∧ req.message.map (·.messageId) = some press.message := by
  cases hgoes with
  | begins hbegins =>
    rename_i call
    by_cases hu : u = w.started
    · subst hu
      rw [stageOf, Discipline.stage_begun] at hstage'
      cases call <;> cases hstage'
    · rw [stageOf, Discipline.stage_begun_of_ne hu] at hstage'
      rw [Live, Discipline.running_begun_of_ne hu]
      exact h.acting u press j req done hstage' hdone
  | ends hstage hpost hjoinReqs hsent htemplate hmutex =>
    rename_i t result m
    rw [stageOf, Discipline.stage_ends] at hstage'
    by_cases hu : u = t
    · subst hu
      obtain rfl := Option.some.inj (hstage'.symm.trans hstage)
      exact absurd (hpost.2 press j req done rfl) hdone
    · rw [Live, Discipline.running_record_of_ne hu]
      exact h.acting u press j req done hstage' hdone
  | answers hstage hallows hact hchange hrunning hlive =>
    rename_i t c op shared answer m next'
    by_cases hu : u = t
    · subst hu
      refine ⟨by rw [Live, Discipline.running_record]; rfl, ?_⟩
      rw [stageOf, Discipline.stage_answers hstage, Option.some.injEq] at hstage'
      have hturns : Turns m op answer (.admitted press j req done) :=
        hstage' ▸ turns_of_next hallows
      cases hturns with
      | stays => exact (h.acting u press j req done hstage hdone).2
      | acts hm hacts hchoice hcalls =>
        subst hm
        exact (h.warranted hl hd ht hstage hlive hchoice hcalls).1
      | plain hpress hbefore hafter => exact absurd hafter hdone
      | admits => exact absurd rfl hdone
    · rw [stageOf, Discipline.stage_record_of_ne hu] at hstage'
      rw [Live, Discipline.running_record_of_ne hu]
      exact h.acting u press j req done hstage' hdone

-- A press is over when its request is erased. It has not acted when a call has failed.
theorem Acted.spent_of_goes (h : Acted w) (hl : Locked w) (hd : Delivered w) (ht : Tracked w)
    (hguard : Orderly w i) (hgoes : Goes w i w') {u : ℕ} {press : Press} {done : List ApiCall}
    (hstage' : stageOf w' u = some (.closed press done)) (hdone : done ≠ []) :
    Clear w' press.message := by
  have hbefore (hstage : stageOf w u = some (.closed press done)) : Clear w' press.message := by
    obtain ⟨-, s, hs, hid, -⟩ := ht.pressed u _ press hstage rfl
    refine (h.spent u press done hstage hdone).of_goes ?_ hgoes
    rw [← hid]
    exact hd.ids s hs
  have hgoes' := hgoes
  cases hgoes with
  | begins hbegins =>
    rename_i call
    by_cases hu : u = w.started
    · subst hu
      rw [stageOf, Discipline.stage_begun] at hstage'
      cases call <;> cases hstage'
    · rw [stageOf, Discipline.stage_begun_of_ne hu] at hstage'
      exact hbefore hstage'
  | ends hstage hpost hjoinReqs hsent htemplate hmutex =>
    rw [stageOf, Discipline.stage_ends] at hstage'
    exact hbefore hstage'
  | answers hstage hallows hact hchange hrunning hlive =>
    rename_i t c op shared answer m next'
    by_cases hu : u = t
    · subst hu
      rw [stageOf, Discipline.stage_answers hstage, Option.some.injEq] at hstage'
      have hturns : Turns m op answer (.closed press done) := hstage' ▸ turns_of_next hallows
      cases hturns with
      | stays => exact hbefore hstage
      | plain hpress hbefore hafter => exact absurd hafter hdone
      | fails hm =>
        subst hm
        have hactions : actionsOf w.history u = done := by
          rw [ht.actions, hstage]
          rfl
        rcases c with _ | _ | _ | _ <;> cases hact
        exact absurd (hactions.symm.trans hguard) hdone
      | erases hm =>
        rename_i k req' a
        subst hm
        cases hact
        obtain ⟨-, hid⟩ := h.acting u press k req' done hstage hdone
        have hat := getElem?_of_finds (hl.located u _ press (k, req') hstage rfl hlive)
        refine ⟨notMem_messageIds_eraseIdx hd.nodup hat hid, ?_⟩
        intro v m' p hstage' hcarries heq
        obtain ⟨m₀, hstage₀, hcarries₀⟩ | ⟨ptr, c', -, hdeliver, -⟩ :=
          carried_of_goes hgoes' hstage' hcarries
        · refine (hd.carried v m₀ p hstage₀ hcarries₀).2 ?_
          rw [heq]
          exact messageId_mem hat hid
        · have hlength := congrArg (fun s : State => s.sent.length) hdeliver
          exact absurd hlength (Nat.ne_of_lt (Nat.lt_succ_self _))
    · rw [stageOf, Discipline.stage_record_of_ne hu] at hstage'
      exact hbefore hstage'

theorem Acted.of_moves (h : Acted w) (hl : Locked w) (hd : Delivered w) (ht : Tracked w)
    (hguard : Orderly w i) (hm : Moves w i w') : Acted w' := by
  have hgoes := goes_of_moves hm
  refine ⟨fun u press j req done hstage' => h.admitted_of_goes ht hl hguard hgoes hstage',
    fun u press j req done hstage' hdone => h.acting_of_goes hl hd ht hgoes hstage' hdone,
    fun u press done hstage' hdone => h.spent_of_goes hl hd ht hguard hgoes hstage' hdone, ?_⟩
  cases hgoes with
  | begins hbegins => exact h.only.push (List.Subset.refl _) rfl fun call hcall => nomatch hcall
  | ends hstage hpost hjoinReqs hsent htemplate hmutex =>
    refine h.only.push ?_ rfl fun call hcall => nomatch hcall
    change w.shared.sent ⊆ (system.ends _ _).sent
    rw [hsent]
    exact List.Subset.refl _
  | answers hstage hallows hact hchange hrunning hlive =>
    refine h.only.push hchange.sent_subset rfl fun call hcall => ?_
    rename_i t c op shared answer m next'
    cases op with
    | api call' =>
      cases answer with
      | error e => cases hcall
      | ok a =>
        have haction : actionIn (.answers (.api call') (.ok a)) =
            if call'.acts then some call' else none := rfl
        rw [Option.mem_def, haction] at hcall
        obtain ⟨hacts, heq⟩ := Option.ite_none_right_eq_some.mp hcall
        obtain rfl := Option.some.inj heq
        obtain ⟨hnone, -⟩ | ⟨press, j, req, done, button, rfl, hchoice, hcalls⟩ := hallows
        · cases hnone.symm.trans hacts
        · exact (h.warranted hl hd ht hstage hlive hchoice hcalls).2.mono hchange.sent_subset
    | _ => cases hcall

theorem stage_initial (t : ℕ) {m : Stage} : stageOf World.initial t ≠ some m := nofun

theorem Locked.initial : Locked World.initial :=
  ⟨fun t _ h => absurd h (stage_initial t), fun t _ _ _ h => absurd h (stage_initial t)⟩

theorem Delivered.initial : Delivered World.initial where
  template _ := .inl rfl
  drawn _ h := nomatch h
  chat _ h := nomatch h
  ids _ h := nomatch h
  listed _ h := nomatch h
  carried t _ _ h := absurd h (stage_initial t)
  distinct t _ _ _ _ _ h := absurd h (stage_initial t)
  nodup := List.nodup_nil

theorem Tracked.initial : Tracked World.initial where
  recalls _ _ h := nomatch h
  pressed t _ _ h := absurd h (stage_initial t)
  actions _ := rfl

theorem Acted.initial : Acted World.initial where
  admitted t _ _ _ _ h := absurd h (stage_initial t)
  acting t _ _ _ _ h := absurd h (stage_initial t)
  spent t _ _ h := absurd h (stage_initial t)
  only := trivial

theorem acted_of_path {steps : List Step}
    (hg : Transition.Guarded step Orderly World.initial steps)
    (hp : Transition.path step World.initial steps = some w) :
    discipline.Follows w ∧ Locked w ∧ Delivered w ∧ Tracked w ∧ Acted w := by
  refine Transition.path_invariant
    (fun w => discipline.Follows w ∧ Locked w ∧ Delivered w ∧ Tracked w ∧ Acted w)
    ?_ ⟨Discipline.Follows.initial _, .initial, .initial, .initial, .initial⟩ hg hp
  rintro u i u' ⟨hs, hl, hd, ht, ha⟩ hguard hstep
  have hm := Discipline.moves_of_step hs hstep
  exact ⟨hs.of_step governs hstep, hl.of_moves hm, hd.of_moves hm, ht.of_moves hs hm,
    ha.of_moves hl hd ht hguard hm⟩

-- A press acts on the request of its message, for who may do so, and only once.
theorem acts_on_own {steps : List Step} (hg : Transition.Guarded step Orderly World.initial steps)
    (hp : Transition.path step World.initial steps = some w) : ActsOnOwn w :=
  (acted_of_path hg hp).2.2.2.2.only

end Steps

def sampleUser (id : ℤ) : User := ⟨id, ascii "A", none⟩

def sampleRequest (chat user : ℤ) : ChatJoinRequest := ⟨chat, sampleUser user, 500⟩

def handled (t : ℕ) (ptr : ChatJoinRequest) : List Step :=
  .begins (.chatJoinRequest ptr (505 * 10 ^ 9)) :: List.replicate 6 (.acts t .succeeds) ++ [.ends t]

def approval (t message : ℕ) : List Step :=
  [.begins (.callbackQuery ⟨[], sampleUser 9, callbackData 500 .approve⟩ message .approve),
    .acts t .succeeds, .acts t .succeeds, .acts t (.shows (some .owner)), .acts t .succeeds,
    .acts t .succeeds, .acts t .succeeds, .acts t .succeeds, .ends t]

theorem acts_on_own_approval :
    ∃ w, Transition.path step World.initial (handled 0 (sampleRequest 100 1) ++ approval 1 0) =
      some w ∧ ActsOnOwn w := by
  obtain ⟨w, hpath, -⟩ := Transition.exists_path step World.initial
    (handled 0 (sampleRequest 100 1) ++ approval 1 0) (fun _ => True) (by decide +kernel)
  exact ⟨w, hpath, acts_on_own (by decide +kernel) hpath⟩

-- Two requests of the same second, in two chats: the press on the second message approves the user
-- of the first one.
theorem acts_on_other :
    ∃ w, Transition.path step World.initial (handled 0 (sampleRequest 100 1) ++
        handled 1 (sampleRequest 200 2) ++ approval 2 1) = some w ∧ ¬ActsOnOwn w :=
  Transition.exists_path step World.initial _ _ (by decide +kernel)

end Glider.ChatJoin

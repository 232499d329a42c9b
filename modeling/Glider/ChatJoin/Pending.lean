import Glider.ChatJoin.Conduct

namespace Glider.ChatJoin

open Glider.Lib Glider.Lib.Threads
open Bytes (ascii)

section Text

theorem isDigit_of_mem_dateText {date : ℕ} {b : UInt8} (h : b ∈ dateText date) :
    ∃ c : Char, c.isDigit = true ∧ b = .ofNat c.toNat := by
  have hdigit : ∀ c ∈ (toString date).toList, c.isDigit = true := by
    intro c hc
    have hdigits : c ∈ Nat.toDigits 10 date := by simpa using hc
    exact Nat.isDigit_of_mem_toDigits (by omega) (by omega) hdigits
  have hsmall : ∀ c ∈ (toString date).toList, c.toNat < 128 := by
    intro c hc
    have hbounds := hdigit c hc
    simp only [Char.isDigit, Bool.and_eq_true, decide_eq_true_eq] at hbounds
    exact Nat.lt_of_le_of_lt hbounds.2 (by decide)
  rw [dateText, Bytes.ascii_eq_map hsmall] at h
  obtain ⟨c, hc, rfl⟩ := List.mem_map.mp h
  exact ⟨c, hdigit c hc, rfl⟩

theorem underscore_notMem_dateText (date : ℕ) : (95 : UInt8) ∉ dateText date := by
  intro h
  obtain ⟨c, hdigit, hcode⟩ := isDigit_of_mem_dateText h
  simp only [Char.isDigit, Bool.and_eq_true, decide_eq_true_eq] at hdigit
  have hlow : 48 ≤ c.toNat := hdigit.1
  have hhigh : c.toNat ≤ 57 := hdigit.2
  have hsize : c.toNat < UInt8.size := Nat.lt_of_le_of_lt hhigh (by decide)
  have hvalue : 95 = c.toNat := (congrArg UInt8.toNat hcode).trans (UInt8.toNat_ofNat_of_lt' hsize)
  omega

theorem takeWhile_datePart (date : ℕ) (rest : Bytes) :
    (datePart date ++ rest).takeWhile (· ≠ 95) = dateText date := by
  have hall : ∀ b ∈ dateText date, decide (b ≠ 95) = true := by
    intro b hb
    refine decide_eq_true fun h => underscore_notMem_dateText date (h ▸ hb)
  rw [datePart, List.append_assoc, List.takeWhile_append_of_pos hall]
  exact List.append_nil _

theorem consume_eq_some {start text rest : Bytes} :
    consume start text = some rest ↔ text = start ++ rest := by
  unfold consume
  constructor
  · intro h
    obtain ⟨⟨tail, rfl⟩, hrest⟩ := Option.ite_none_right_eq_some.mp h
    rw [List.drop_left, Option.some.injEq] at hrest
    rw [hrest]
  · rintro rfl
    rw [if_pos (List.prefix_append ..), List.drop_left]

-- The date that is consumed is the one that was written.
theorem consume_datePart {date date' : ℕ} {rest rest' : Bytes}
    (h : consume (datePart date') (datePart date ++ rest) = some rest') : rest' = rest := by
  have heq := consume_eq_some.mp h
  have htext : dateText date = dateText date' := by
    rw [← takeWhile_datePart date rest, heq, takeWhile_datePart]
  rw [datePart, datePart, htext] at heq
  exact (List.append_cancel_left heq).symm

theorem Button.name_injective {button button' : Button} (h : button.name = button'.name) :
    button = button' := by
  cases button <;> cases button' <;> first | rfl | exact absurd h (by decide)

end Text

-- The text of a button is that of its action, with some date.
def Drawn (keyboard : Keyboard) : Prop :=
  ∀ button, keyboard button = [] ∨ ∃ date, keyboard button = callbackData date button

theorem Drawn.choice {keyboard : Keyboard} (h : Drawn keyboard) {press : Press}
    (hdata : keyboard press.button = press.query.data) {req : JoinReq} {button : Button}
    (hchoice : press.choice req = some button.name) : button = press.button := by
  obtain ⟨queryData, hqueryData, hconsume⟩ := Option.bind_eq_some_iff.mp hchoice
  have hwhole := consume_eq_some.mp hqueryData
  obtain hnone | ⟨date, hdate⟩ := h press.button
  · rw [← hdata, hnone] at hwhole
    cases hwhole
  · rw [← hdata, hdate, callbackData, List.append_assoc] at hwhole
    have hrest := List.append_cancel_left hwhole
    rw [← hrest] at hconsume
    exact Button.name_injective (consume_datePart hconsume)

section Steps

variable {w w' : World} {i : Step}

abbrev Live (w : World) (t : ℕ) : Prop := (w.running t).isSome = true

-- What an operation can do to the state.
inductive Change (s : State) (t : ℕ) : Op → State → Prop where
  | nothing {op : Op} (h : op ≠ .lock) : Change s t op s
  | locks (h : s.mutex = none) : Change s t .lock { s with mutex := some t }
  | draws (button : Button) (data : Bytes) :
      Change s t (.setCallbackData button data)
        { s with templateMarkup := Function.update s.templateMarkup button data }
  | delivers (ptr : ChatJoinRequest) (text : Bytes) :
      Change s t (.sendMessage ptr text) (s.deliver ptr).1
  | lists (req : JoinReq) :
      Change s t (.emplaceBack req) { s with joinReqs := s.joinReqs ++ [req] }
  | erases (i : ℕ) : Change s t (.erase i) { s with joinReqs := s.joinReqs.eraseIdx i }
  | removes (update : ChatMemberUpdated) :
      Change s t (.removeIf update)
        { s with joinReqs := s.joinReqs.filter fun req => !joined update req }

theorem change_of_act {s s' : State} {t : ℕ} {op : Op} {c : Choice} {a : Option op.Answer}
    (h : act s t op c = some (s', a)) : Change s t op s' := by
  cases op with
  | lock =>
    obtain ⟨hfree, heq⟩ := Option.ite_none_right_eq_some.mp h
    cases heq
    exact .locks hfree
  | sendMessage ptr text =>
    obtain ⟨⟨s'', a'⟩, hsend, heq⟩ := Option.map_eq_some_iff.mp h
    obtain ⟨rfl, -⟩ := Prod.mk.inj heq
    rcases c with _ | (_ | _) | _ | _ <;> cases hsend
    · exact .delivers ptr text
    · exact .nothing nofun
    · exact .delivers ptr text
    · exact .nothing nofun
  | getChatMember chat user => rcases c with _ | _ | _ | _ <;> cases h <;> exact .nothing nofun
  | api call => rcases c with _ | _ | _ | _ <;> cases h <;> exact .nothing nofun
  | crash => cases h
  | setCallbackData button data => cases h; exact .draws button data
  | emplaceBack req => cases h; exact .lists req
  | erase i => cases h; exact .erases i
  | removeIf update => cases h; exact .removes update
  | find data | joinReqs => cases h; exact .nothing nofun

-- Only who has the mutex changes the list.
theorem Change.joinReqs {s s' : State} {t : ℕ} {op : Op} {m : Stage} (h : Change s t op s')
    (hallows : Allows m op) : s'.joinReqs = s.joinReqs ∨ m.holds = true := by
  cases h with
  | lists req => exact .inr (by rw [show m = _ from hallows]; rfl)
  | erases i =>
    obtain ⟨press, req, done, rfl, -⟩ := hallows
    exact .inr rfl
  | removes update => exact .inr (by rw [show m = _ from hallows]; rfl)
  | _ => exact .inl rfl

theorem Change.mutex {s s' : State} {t : ℕ} {op : Op} (h : Change s t op s') :
    s'.mutex = s.mutex ∨ op = .lock ∧ s.mutex = none ∧ s'.mutex = some t := by
  cases h with
  | locks hfree => exact .inr ⟨rfl, hfree, rfl⟩
  | _ => exact .inl rfl

theorem holds_of_next {m : Stage} {op : Op} {a : op.Answer} (hallows : Allows m op)
    (hop : op ≠ .lock) (h : (next m op a).holds = true) : m.holds = true := by
  cases op with
  | lock => exact absurd rfl hop
  | setCallbackData button data =>
    obtain ⟨ptr, rfl, -⟩ := hallows
    cases h
  | sendMessage ptr text =>
    obtain rfl : m = _ := hallows
    cases a <;> cases h
  | emplaceBack req =>
    obtain rfl : m = _ := hallows
    rfl
  | find data =>
    obtain ⟨press, rfl, -⟩ := hallows
    rfl
  | crash => exact hallows
  | getChatMember chat user =>
    obtain ⟨press, i, req, message, rfl, -⟩ := hallows
    rfl
  | api call =>
    cases m with
    | admitted press i req done => rfl
    | _ => exact h
  | erase i =>
    obtain ⟨press, req, done, rfl, -⟩ := hallows
    rfl
  | joinReqs | removeIf update =>
    obtain rfl : m = _ := hallows
    rfl

-- The mutex is with the thread that is in a critical section.
structure Locked (w : World) : Prop where
  holder : ∀ t m, stageOf w t = some m → m.holds = true → Live w t → w.shared.mutex = some t
  located : ∀ t m press found, stageOf w t = some m → m.at? = some (press, found) → Live w t →
    press.finds w.shared = some found

theorem live_record {t u : ℕ} {event : Event Call Op Op.Answer Unit}
    {p : Option (Program Op Op.Answer Unit Unit)} {shared : State} (hu : u ≠ t)
    (h : Live (w.record t event p shared) u) : Live w u := by
  rwa [Live, Discipline.running_record_of_ne hu] at h

theorem holds_of_at {m : Stage} {p : Press × ℕ × JoinReq} (h : m.at? = some p) : m.holds = true := by
  cases m <;> first | rfl | cases h

theorem start_holds (call : Call) : (Stage.start call).holds = false := by
  cases call <;> rfl

-- The steps of the handlers, with what they do to the state.
inductive Goes (w : World) : Step → World → Prop where
  | begins {call : Call} (h : system.begins w.shared w.started call = some w.shared) :
      Goes w (.begins call) (w.begun call (system.program call) w.shared)
  | answers {t : ℕ} {c : Choice} {op : Op} {shared : State} {answer : op.Answer} {m : Stage}
      {next' : op.Answer → Handler Unit} (hstage : stageOf w t = some m) (hallows : Allows m op)
      (hact : act w.shared t op c = some (shared, some answer)) (hchange : Change w.shared t op shared)
      (hrunning : w.running t = some (.call op next')) (hlive : Live w t) :
      Goes w (.acts t c) (w.record t (.answers op answer) (some (next' answer)) shared)
  | ends {t : ℕ} {result : Except Unit Unit} {m : Stage} (hstage : stageOf w t = some m)
      (hpost : Ends m result) (hjoinReqs : (system.ends w.shared t).joinReqs = w.shared.joinReqs)
      (hsent : (system.ends w.shared t).sent = w.shared.sent)
      (htemplate : (system.ends w.shared t).templateMarkup = w.shared.templateMarkup)
      (hmutex : ∀ u ≠ t, w.shared.mutex = some u → (system.ends w.shared t).mutex = some u) :
      Goes w (.ends t) (w.record t (.ends result) none (system.ends w.shared t))

theorem goes_of_moves (hm : Moves w i w') : Goes w i w' := by
  cases hm with
  | begins hbegins =>
    rename_i call shared
    have hshared : shared = w.shared := by
      cases call with
      | callbackQuery query message button =>
        exact (Option.some.inj (Option.ite_none_right_eq_some.mp hbegins).2).symm
      | _ => exact (Option.some.inj hbegins).symm
    subst hshared
    exact .begins hbegins
  | answers hstage hallows hact hrunning =>
    exact .answers hstage hallows hact (change_of_act hact) hrunning (by rw [Live, hrunning]; rfl)
  | waits hstage hallows hact hrunning =>
    rename_i t c op shared m
    cases op with
    | lock => cases (Option.ite_none_right_eq_some.mp hact).2
    | sendMessage ptr text =>
      obtain ⟨p, -, heq⟩ := Option.map_eq_some_iff.mp hact
      cases heq
    | getChatMember chat user | api call => rcases c with _ | _ | _ | _ <;> cases hact
    | _ => cases hact
  | hangsUp hstage hhangs hrunning => cases hhangs
  | ends hstage hpost =>
    rename_i t result m
    have hends : system.ends w.shared t =
        if w.shared.mutex = some t then { w.shared with mutex := none } else w.shared := rfl
    refine .ends hstage hpost ?_ ?_ ?_ fun u hu hmutex => ?_
    · rw [hends]; split <;> rfl
    · rw [hends]; split <;> rfl
    · rw [hends]; split <;> rfl
    · rw [hends, if_neg (by rw [hmutex]; exact fun heq => hu (Option.some.inj heq))]
      exact hmutex

theorem live_ends {t u : ℕ} {result : Except Unit Unit} {shared : State}
    (h : Live (w.record t (.ends result) none shared) u) : u ≠ t := by
  rintro rfl
  rw [Live, Discipline.running_record] at h
  cases h

theorem finds_congr {s s' : State} (h : s'.joinReqs = s.joinReqs) (press : Press) :
    press.finds s' = press.finds s := by
  have hfind : s'.find = s.find := by
    funext data
    rw [State.find, State.find, h]
  rw [Press.finds, Press.finds, hfind]

theorem getElem?_of_finds {s : State} {press : Press} {i : ℕ} {req : JoinReq}
    (h : press.finds s = some (i, req)) : s.joinReqs[i]? = some req := by
  obtain ⟨data, -, hfind⟩ := Option.bind_eq_some_iff.mp h
  obtain ⟨⟨req', j⟩, hfound, heq⟩ := Option.map_eq_some_iff.mp hfind
  cases heq
  exact List.mem_zipIdx_iff_getElem?.mp (List.mem_of_find?_eq_some hfound)

-- What is found is what the data is taken for.
theorem located_of_next {t : ℕ} {s s' : State} {op : Op} {c : Choice} {a : op.Answer} {m : Stage}
    {press : Press} {found : ℕ × JoinReq} (hallows : Allows m op)
    (hact : act s t op c = some (s', some a)) (h : (next m op a).at? = some (press, found)) :
    press.finds s' = some found ∨ m.at? = some (press, found) ∧ s'.joinReqs = s.joinReqs := by
  cases op with
  | find data =>
    obtain ⟨press', rfl, hdata⟩ := hallows
    cases hact
    refine .inl ?_
    cases hfind : s.find data with
    | none =>
      rw [hfind] at h
      cases h
    | some p =>
      rw [hfind] at h
      obtain ⟨rfl, rfl⟩ := Prod.mk.inj (Option.some.inj h)
      rw [Press.finds, hdata]
      exact hfind
  | getChatMember chat user =>
    obtain ⟨press, j, req', message, rfl, -⟩ := hallows
    refine .inr ?_
    rcases c with _ | _ | _ | (_ | user) <;> cases hact
    · cases h
    · cases h
    · change Stage.at? (if user.actions then _ else _) = _ at h
      split at h
      · exact ⟨h, rfl⟩
      · cases h
  | api call =>
    refine .inr ?_
    rcases c with _ | _ | _ | _ <;> cases hact
    · cases m with
      | admitted press j req' done =>
        change Stage.at? (if call.acts then _ else _) = _ at h
        split at h <;> exact ⟨h, rfl⟩
      | _ => exact ⟨h, rfl⟩
    · cases m with
      | admitted press j req' done => cases h
      | _ => exact ⟨h, rfl⟩
  | crash => cases a
  | lock =>
    obtain ⟨message, ptr, rfl⟩ | rfl | ⟨press, rfl⟩ := hallows <;> cases h
  | setCallbackData button data =>
    obtain ⟨ptr, rfl, -⟩ := hallows
    cases h
  | sendMessage ptr text =>
    obtain rfl : m = _ := hallows
    cases a <;> cases h
  | emplaceBack req' =>
    obtain rfl : m = _ := hallows
    cases h
  | erase j =>
    obtain ⟨press, req', done, rfl, -⟩ := hallows
    cases h
  | joinReqs | removeIf update =>
    obtain rfl : m = _ := hallows
    cases h

theorem Locked.of_moves (h : Locked w) (hm : Moves w i w') : Locked w' := by
  cases goes_of_moves hm with
  | begins hbegins =>
    rename_i call
    have hne {t : ℕ} {m : Stage}
        (hstage : stageOf (w.begun call (system.program call) w.shared) t = some m)
        (hholds : m.holds = true) : t ≠ w.started := by
      rintro rfl
      rw [stageOf, Discipline.stage_begun] at hstage
      obtain rfl := Option.some.inj hstage
      cases (start_holds call).symm.trans hholds
    refine ⟨fun t m hstage hholds hlive => ?_, fun t m press found hstage hat hlive => ?_⟩
    · have ht := hne hstage hholds
      rw [stageOf, Discipline.stage_begun_of_ne ht] at hstage
      rw [Live, Discipline.running_begun_of_ne ht] at hlive
      exact h.holder t m hstage hholds hlive
    · have ht := hne hstage (holds_of_at hat)
      rw [stageOf, Discipline.stage_begun_of_ne ht] at hstage
      rw [Live, Discipline.running_begun_of_ne ht] at hlive
      exact h.located t m press found hstage hat hlive
  | ends hstage hpost hjoinReqs hsent htemplate hmutex =>
    refine ⟨fun u m' hstage' hholds hlive => ?_, fun u m' press found hstage' hat hlive => ?_⟩
    · have hu := live_ends hlive
      rw [stageOf, Discipline.stage_ends] at hstage'
      exact hmutex u hu (h.holder u m' hstage' hholds (live_record hu hlive))
    · have hu := live_ends hlive
      rw [stageOf, Discipline.stage_ends] at hstage'
      exact (finds_congr hjoinReqs press).trans
        (h.located u m' press found hstage' hat (live_record hu hlive))
  | answers hstage hallows hact hchange hrunning hlive =>
    rename_i t c op shared answer m next'
    refine ⟨fun u m' hstage' hholds hlive' => ?_, fun u m' press found hstage' hat hlive' => ?_⟩
    · by_cases hu : u = t
      · subst hu
        obtain hsame | ⟨rfl, -, htaken⟩ := hchange.mutex
        · have hop : op ≠ .lock := by
            rintro rfl
            cases hchange with
            | nothing hop => exact hop rfl
            | locks hfree => cases hfree.symm.trans hsame.symm
          rw [stageOf, Discipline.stage_answers hstage] at hstage'
          obtain rfl := Option.some.inj hstage'
          exact hsame.trans (h.holder u m hstage (holds_of_next hallows hop hholds) hlive)
        · exact htaken
      · rw [stageOf, Discipline.stage_record_of_ne hu] at hstage'
        have hmutex := h.holder u m' hstage' hholds (live_record hu hlive')
        obtain hsame | ⟨rfl, hfree, -⟩ := hchange.mutex
        · exact hsame.trans hmutex
        · cases hfree.symm.trans hmutex
    · by_cases hu : u = t
      · subst hu
        rw [stageOf, Discipline.stage_answers hstage] at hstage'
        obtain rfl := Option.some.inj hstage'
        obtain hfound | ⟨hbefore, hsame⟩ := located_of_next hallows hact hat
        · exact hfound
        · exact (finds_congr hsame press).trans (h.located u m press found hstage hbefore hlive)
      · rw [stageOf, Discipline.stage_record_of_ne hu] at hstage'
        have hlive' := live_record hu hlive'
        have hmutex := h.holder u m' hstage' (holds_of_at hat) hlive'
        obtain hsame | hholds := hchange.joinReqs hallows
        · exact (finds_congr hsame press).trans (h.located u m' press found hstage' hat hlive')
        · cases (h.holder t m hstage hholds hlive).symm.trans hmutex
          exact absurd rfl hu

def Known (sent : List Sent) (p : Message × ChatJoinRequest) : Prop :=
  ∃ s ∈ sent, s.message = p.1 ∧ s.request = p.2

def messageIds (reqs : List JoinReq) : List ℕ := reqs.filterMap fun req => req.message.map (·.messageId)

-- What is in the list, and what is about to be, are messages of their own.
structure Delivered (w : World) : Prop where
  template : Drawn w.shared.templateMarkup
  drawn : ∀ s ∈ w.shared.sent, Drawn s.keyboard
  chat : ∀ s ∈ w.shared.sent, s.message.chat = s.request.chat
  ids : ∀ s ∈ w.shared.sent, s.message.messageId < w.shared.sent.length
  listed : ∀ req ∈ w.shared.joinReqs, ∀ message, req.message = some message →
    Known w.shared.sent (message, req.request)
  carried : ∀ t m p, stageOf w t = some m → m.carries = some p →
    Known w.shared.sent p ∧ p.1.messageId ∉ messageIds w.shared.joinReqs
  distinct : ∀ t u m m' p p', stageOf w t = some m → m.carries = some p → stageOf w u = some m' →
    m'.carries = some p' → p.1.messageId = p'.1.messageId → t = u
  nodup : (messageIds w.shared.joinReqs).Nodup

theorem Known.lt_length {sent : List Sent} {p : Message × ChatJoinRequest} (h : Known sent p)
    (hids : ∀ s ∈ sent, s.message.messageId < sent.length) : p.1.messageId < sent.length := by
  obtain ⟨s, hmem, hmessage, -⟩ := h
  rw [← hmessage]
  exact hids s hmem

theorem mem_messageIds {reqs : List JoinReq} {id : ℕ} :
    id ∈ messageIds reqs ↔ ∃ req ∈ reqs, ∃ message, req.message = some message ∧
      message.messageId = id := by
  simp only [messageIds, List.mem_filterMap, Option.map_eq_some_iff]

theorem Change.list {s s' : State} {t : ℕ} {op : Op} (h : Change s t op s') :
    s'.joinReqs.Sublist s.joinReqs ∨
      ∃ req, op = .emplaceBack req ∧ s'.joinReqs = s.joinReqs ++ [req] := by
  cases h with
  | lists req => exact .inr ⟨req, rfl, rfl⟩
  | erases i => exact .inl (List.eraseIdx_sublist ..)
  | removes update => exact .inl List.filter_sublist
  | _ => exact .inl (List.Sublist.refl _)

theorem Change.sent {s s' : State} {t : ℕ} {op : Op} (h : Change s t op s') :
    s'.sent = s.sent ∨ ∃ ptr text, op = .sendMessage ptr text ∧ s' = (s.deliver ptr).1 := by
  cases h with
  | delivers ptr text => exact .inr ⟨ptr, text, rfl, rfl⟩
  | _ => exact .inl rfl

-- A message that is carried has just been sent, or its handler waits for the mutex.
theorem carries_of_next {t : ℕ} {s s' : State} {op : Op} {c : Choice} {a : op.Answer} {m : Stage}
    {p : Message × ChatJoinRequest} (hallows : Allows m op)
    (hact : act s t op c = some (s', some a)) (h : (next m op a).carries = some p) :
    (m.carries = some p ∧ op = .lock) ∨
      ∃ ptr, s' = (s.deliver ptr).1 ∧ p = ((s.deliver ptr).2, ptr) := by
  cases op with
  | lock =>
    obtain ⟨message, ptr, rfl⟩ | rfl | ⟨press, rfl⟩ := hallows
    · cases message with
      | none => cases h
      | some message => exact .inl ⟨h, rfl⟩
    · cases h
    · cases h
  | sendMessage ptr text =>
    obtain rfl : m = _ := hallows
    obtain ⟨⟨s'', a'⟩, hsend, heq⟩ := Option.map_eq_some_iff.mp hact
    cases heq
    rcases c with _ | (_ | _) | _ | _ <;> cases hsend <;> cases h
    exact .inr ⟨ptr, rfl, rfl⟩
  | setCallbackData button data =>
    obtain ⟨ptr, rfl, -⟩ := hallows
    cases h
  | emplaceBack req =>
    obtain rfl : m = _ := hallows
    cases h
  | find data =>
    obtain ⟨press, rfl, -⟩ := hallows
    cases a <;> cases h
  | crash => cases a
  | getChatMember chat user =>
    obtain ⟨press, i, req, message, rfl, -⟩ := hallows
    rcases a with _ | (_ | user)
    · cases h
    · cases h
    · change Stage.carries (if user.actions then _ else _) = _ at h
      split at h <;> cases h
  | api call =>
    obtain ⟨-, hnone⟩ | ⟨press, i, req, done, button, rfl, -⟩ := hallows
    · cases m with
      | admitted press i req done =>
        cases a with
        | error e => cases h
        | ok u =>
          change Stage.carries (if call.acts then _ else _) = _ at h
          split at h <;> cases h
      | _ => cases hnone.symm.trans h
    · cases a with
      | error e => cases h
      | ok u =>
        change Stage.carries (if call.acts then _ else _) = _ at h
        split at h <;> cases h
  | erase i =>
    obtain ⟨press, req, done, rfl, -⟩ := hallows
    cases h
  | joinReqs | removeIf update =>
    obtain rfl : m = _ := hallows
    cases h

theorem Known.mono {sent sent' : List Sent} {p : Message × ChatJoinRequest} (h : Known sent p)
    (hsub : sent ⊆ sent') : Known sent' p := by
  obtain ⟨s, hmem, hmessage, hrequest⟩ := h
  exact ⟨s, hsub hmem, hmessage, hrequest⟩

theorem Change.sent_subset {s s' : State} {t : ℕ} {op : Op} (h : Change s t op s') :
    s.sent ⊆ s'.sent := by
  obtain hsame | ⟨ptr, text, -, rfl⟩ := h.sent
  · rw [hsame]
    exact List.Subset.refl _
  · exact List.subset_cons_self ..

theorem messageIds_sublist {reqs reqs' : List JoinReq} (h : reqs'.Sublist reqs) :
    (messageIds reqs').Sublist (messageIds reqs) := h.filterMap _

theorem messageIds_append (reqs : List JoinReq) (req : JoinReq) :
    messageIds (reqs ++ [req]) = messageIds reqs ++ (req.message.map (·.messageId)).toList := by
  rw [messageIds, List.filterMap_append]
  cases hmessage : req.message with
  | none | some message => simp [messageIds, hmessage]

theorem Change.template {s s' : State} {t : ℕ} {op : Op} {m : Stage} (h : Change s t op s')
    (hallows : Allows m op) (hdrawn : Drawn s.templateMarkup) : Drawn s'.templateMarkup := by
  cases h with
  | draws button data =>
    obtain ⟨ptr, -, rfl⟩ := hallows
    intro button'
    by_cases hbutton : button' = button
    · subst hbutton
      exact .inr ⟨ptr.date, Function.update_self ..⟩
    · have hsame : Function.update s.templateMarkup button (callbackData ptr.date button) button' =
          s.templateMarkup button' := Function.update_of_ne hbutton ..
      change Function.update _ _ _ _ = _ ∨ ∃ date, Function.update _ _ _ _ = _
      rw [hsame]
      exact hdrawn button'
  | _ => exact hdrawn

theorem start_carries (call : Call) : (Stage.start call).carries = none := by
  cases call <;> rfl

-- A message that is carried was carried before, or it has just been sent.
theorem carried_of_goes (hgoes : Goes w i w') {u : ℕ} {m' : Stage} {p : Message × ChatJoinRequest}
    (hstage' : stageOf w' u = some m') (hcarries : m'.carries = some p) :
    (∃ m, stageOf w u = some m ∧ m.carries = some p) ∨
      ∃ ptr c, i = .acts u c ∧ w'.shared = (w.shared.deliver ptr).1 ∧
        p = ((w.shared.deliver ptr).2, ptr) := by
  cases hgoes with
  | begins hbegins =>
    rename_i call
    by_cases hu : u = w.started
    · subst hu
      rw [stageOf, Discipline.stage_begun] at hstage'
      obtain rfl := Option.some.inj hstage'
      cases (start_carries call).symm.trans hcarries
    · rw [stageOf, Discipline.stage_begun_of_ne hu] at hstage'
      exact .inl ⟨m', hstage', hcarries⟩
  | ends hstage hpost hjoinReqs hsent htemplate hmutex =>
    rw [stageOf, Discipline.stage_ends] at hstage'
    exact .inl ⟨m', hstage', hcarries⟩
  | answers hstage hallows hact hchange hrunning hlive =>
    rename_i t c op shared answer m next'
    by_cases hu : u = t
    · subst hu
      rw [stageOf, Discipline.stage_answers hstage] at hstage'
      obtain rfl := Option.some.inj hstage'
      obtain ⟨hbefore, -⟩ | ⟨ptr, hdeliver, hp⟩ := carries_of_next hallows hact hcarries
      · exact .inl ⟨m, hstage, hbefore⟩
      · exact .inr ⟨ptr, c, rfl, hdeliver, hp⟩
    · rw [stageOf, Discipline.stage_record_of_ne hu] at hstage'
      exact .inl ⟨m', hstage', hcarries⟩

theorem Delivered.lt_length (h : Delivered w) {id : ℕ} (hid : id ∈ messageIds w.shared.joinReqs) :
    id < w.shared.sent.length := by
  obtain ⟨req, hmem, message, hmessage, rfl⟩ := mem_messageIds.mp hid
  exact (h.listed req hmem message hmessage).lt_length h.ids

-- The state is as it was, except for the mutex.
theorem Delivered.of_same (h : Delivered w) (hgoes : Goes w i w')
    (hjoinReqs : w'.shared.joinReqs = w.shared.joinReqs) (hsent : w'.shared.sent = w.shared.sent)
    (htemplate : w'.shared.templateMarkup = w.shared.templateMarkup) : Delivered w' := by
  have hbefore {u : ℕ} {m' : Stage} {p : Message × ChatJoinRequest}
      (hstage' : stageOf w' u = some m') (hcarries : m'.carries = some p) :
      ∃ m, stageOf w u = some m ∧ m.carries = some p := by
    obtain hbefore | ⟨ptr, c, -, hdeliver, -⟩ := carried_of_goes hgoes hstage' hcarries
    · exact hbefore
    · have hlength := congrArg List.length (hsent.symm.trans (congrArg State.sent hdeliver))
      have hcons : ((w.shared.deliver ptr).1.sent).length = w.shared.sent.length + 1 := rfl
      omega
  refine ⟨by rw [htemplate]; exact h.template, by rw [hsent]; exact h.drawn,
    by rw [hsent]; exact h.chat, by rw [hsent]; exact h.ids, by rw [hsent, hjoinReqs]; exact h.listed,
    fun t m p hstage hcarries => ?_, fun t u m m' p p' hstage hcarries hstage' hcarries' heq => ?_,
    by rw [hjoinReqs]; exact h.nodup⟩
  · obtain ⟨m₀, hstage₀, hcarries₀⟩ := hbefore hstage hcarries
    rw [hsent, hjoinReqs]
    exact h.carried t m₀ p hstage₀ hcarries₀
  · obtain ⟨m₀, hstage₀, hcarries₀⟩ := hbefore hstage hcarries
    obtain ⟨m₁, hstage₁, hcarries₁⟩ := hbefore hstage' hcarries'
    exact h.distinct t u m₀ m₁ p p' hstage₀ hcarries₀ hstage₁ hcarries₁ heq

theorem Delivered.of_moves (h : Delivered w) (hm : Moves w i w') : Delivered w' := by
  have hgoes := goes_of_moves hm
  have hgoes' := hgoes
  cases hgoes with
  | begins hbegins => exact h.of_same hgoes' rfl rfl rfl
  | ends hstage hpost hjoinReqs hsent htemplate hmutex =>
    exact h.of_same hgoes' hjoinReqs hsent htemplate
  | answers hstage hallows hact hchange hrunning hlive =>
    rename_i t c op shared answer m next'
    -- The request that is listed is the one that its handler carries.
    have hlists {req : JoinReq} (hop : op = .emplaceBack req) {message : Message}
        (hmessage : req.message = some message) : m.carries = some (message, req.request) := by
      subst hop
      obtain rfl : m = _ := hallows
      rw [hmessage]
      rfl
    have hover {req : JoinReq} (hop : op = .emplaceBack req) {m' : Stage}
        (hstage' : stageOf (w.record t (.answers op answer) (some (next' answer)) shared) t =
          some m') : m'.carries = none := by
      subst hop
      obtain rfl : m = _ := hallows
      rw [stageOf, Discipline.stage_answers hstage] at hstage'
      obtain rfl := Option.some.inj hstage'
      rfl
    refine ⟨hchange.template hallows h.template, fun s hs => ?_, fun s hs => ?_, fun s hs => ?_,
      fun req hreq message hmessage => ?_, fun u m' p hstage' hcarries => ?_,
      fun u v m' m'' p p' hstage' hcarries' hstage'' hcarries'' heq => ?_, ?_⟩
    · obtain hsame | ⟨ptr, text, rfl, rfl⟩ := hchange.sent
      · exact h.drawn s (hsame ▸ hs)
      · obtain rfl | hs := List.mem_cons.mp hs
        · exact h.template
        · exact h.drawn s hs
    · obtain hsame | ⟨ptr, text, rfl, rfl⟩ := hchange.sent
      · exact h.chat s (hsame ▸ hs)
      · obtain rfl | hs := List.mem_cons.mp hs
        · rfl
        · exact h.chat s hs
    · obtain hsame | ⟨ptr, text, rfl, rfl⟩ := hchange.sent
      · change _ < shared.sent.length
        rw [hsame]
        exact h.ids s (hsame ▸ hs)
      · obtain rfl | hs := List.mem_cons.mp hs
        · exact Nat.lt_succ_self _
        · exact Nat.lt_succ_of_lt (h.ids s hs)
    · obtain hsub | ⟨req', hop, hlisted⟩ := hchange.list
      · exact (h.listed req (hsub.subset hreq) message hmessage).mono hchange.sent_subset
      · have hreq : req ∈ w.shared.joinReqs ++ [req'] := hlisted ▸ hreq
        obtain hold | hnew := List.mem_append.mp hreq
        · exact (h.listed req hold message hmessage).mono hchange.sent_subset
        · obtain rfl := List.mem_singleton.mp hnew
          exact (h.carried t m _ hstage (hlists hop hmessage)).1.mono hchange.sent_subset
    · obtain ⟨m₀, hstage₀, hcarries₀⟩ | ⟨ptr, c', hi, hdeliver, rfl⟩ :=
        carried_of_goes hgoes' hstage' hcarries
      · obtain ⟨hknown, hnot⟩ := h.carried u m₀ p hstage₀ hcarries₀
        refine ⟨hknown.mono hchange.sent_subset, ?_⟩
        obtain hsub | ⟨req, hop, hlisted⟩ := hchange.list
        · exact fun hmem => hnot ((messageIds_sublist hsub).subset hmem)
        · intro hmem
          have hmem : p.1.messageId ∈ messageIds (w.shared.joinReqs ++ [req]) := hlisted ▸ hmem
          rw [messageIds_append] at hmem
          obtain hmem | hmem := List.mem_append.mp hmem
          · exact hnot hmem
          · obtain ⟨message, hmessage, hid⟩ :=
              Option.map_eq_some_iff.mp (Option.mem_toList.mp hmem)
            obtain rfl := h.distinct t u m m₀ _ p hstage (hlists hop hmessage) hstage₀ hcarries₀
              hid
            cases (hover hop hstage').symm.trans hcarries
      · have hdeliver : shared = (w.shared.deliver ptr).1 := hdeliver
        subst hdeliver
        refine ⟨⟨_, List.mem_cons_self .., rfl, rfl⟩, fun hmem => ?_⟩
        exact Nat.lt_irrefl _ (h.lt_length hmem)
    · obtain ⟨m₀, hstage₀, hcarries₀⟩ | ⟨ptr, c', hi, hdeliver, rfl⟩ :=
        carried_of_goes hgoes' hstage' hcarries'
      · obtain ⟨m₁, hstage₁, hcarries₁⟩ | ⟨ptr', c'', hi', hdeliver', rfl⟩ :=
          carried_of_goes hgoes' hstage'' hcarries''
        · exact h.distinct u v m₀ m₁ p p' hstage₀ hcarries₀ hstage₁ hcarries₁ heq
        · have hlt := (h.carried u m₀ p hstage₀ hcarries₀).1.lt_length h.ids
          exact absurd heq (Nat.ne_of_lt hlt)
      · obtain ⟨m₁, hstage₁, hcarries₁⟩ | ⟨ptr', c'', hi', hdeliver', rfl⟩ :=
          carried_of_goes hgoes' hstage'' hcarries''
        · have hlt := (h.carried v m₁ p' hstage₁ hcarries₁).1.lt_length h.ids
          exact absurd heq.symm (Nat.ne_of_lt hlt)
        · cases hi
          cases hi'
          rfl
    · obtain hsub | ⟨req, hop, hlisted⟩ := hchange.list
      · exact h.nodup.sublist (messageIds_sublist hsub)
      · change (messageIds shared.joinReqs).Nodup
        rw [hlisted, messageIds_append]
        cases hmessage : req.message with
        | none => simpa using h.nodup
        | some message =>
          have hnot := (h.carried t m _ hstage (hlists hop hmessage)).2
          refine List.nodup_append.mpr ⟨h.nodup, List.pairwise_singleton .., ?_⟩
          rintro id hid id' hid' rfl
          obtain rfl : id = message.messageId := List.mem_singleton.mp hid'
          exact hnot hid

end Steps

end Glider.ChatJoin

import Glider.SpamBlock.Detection

namespace Glider.SpamBlock

open Glider.Lib Glider.Lib.Threads

section Statement

-- How many messages are stored.
def stored (data : ChatMessages) : ℕ := (data.members.map fun chat => total chat.2.members).sum

-- The messages of a user in a chat, in order.
def messagesOf (data : ChatMessages) (chat : ChatId) (user : UserId) : List Entry :=
  ((data.find? chat).bind fun perChatMap => perChatMap.find? user).getD []

-- What was recorded of a user in a chat, oldest first.
def recordedIn (chat : ChatId) (user : UserId) : List Happening → List Entry
  | [] => []
  | (_, .answers (.record chatId userId entry) _) :: older =>
    if chatId = chat ∧ userId = user then recordedIn chat user older ++ [entry]
    else recordedIn chat user older
  | _ :: older => recordedIn chat user older

-- What the batches hold of a user in a chat, one batch after the other.
def consumedIn (chat : ChatId) (user : UserId) : List Happening → List Entry
  | [] => []
  | (_, .answers .swap batch) :: older => consumedIn chat user older ++ messagesOf batch chat user
  | _ :: older => consumedIn chat user older

structure Correct (w : World) : Prop where
  counted : w.shared.chat_messages_count = stored w.shared.chat_messages_data
  nonempty : NoneEmpty w.shared.chat_messages_data
  -- Each message that was recorded is in one batch, in its own place, or is still stored.
  delivered : ∀ chat user, recordedIn chat user w.history =
    consumedIn chat user w.history ++ messagesOf w.shared.chat_messages_data chat user
  -- A message is recorded by a thread that was called with it, as what it is.
  posted : ∀ t chat user entry count,
    (t, .answers (.record chat user entry) count) ∈ w.history →
    ∃ message, callIn t w.history = some (.addMessage message) ∧
      eligible message = some (chat, user, entry)
  -- It is recorded at most once, and once if it is accepted.
  recorded : ∀ t message, callIn t w.history = some (.addMessage message) →
    records (traceIn t w.history) <+: (eligible message).toList ∧
      ∀ result, (t, .ends result) ∈ w.history →
        result = .ok () ∧ records (traceIn t w.history) = accepted message (traceIn t w.history)
  -- A batch is taken by a thread that detects in it.
  taken : ∀ t batch, (t, .answers .swap batch) ∈ w.history →
    callIn t w.history = some .consumeAndDetect ∧ batchOf (traceIn t w.history) = some batch
  -- It detects what is due, once, and in the end all of it.
  detected : ∀ t batch, (t, .answers .swap batch) ∈ w.history →
    ((detections (traceIn t w.history)).map fun detection => (detection.1, detection.2.1)).Nodup ∧
      (∀ detection ∈ detections (traceIn t w.history), Due batch detection) ∧
      ∀ result, (t, .ends result) ∈ w.history → result = .ok () ∧
        ∀ detection, Due batch detection → detection ∈ detections (traceIn t w.history)

end Statement

section Stored

variable {data : ChatMessages} {chatId chat : ChatId} {userId user : UserId} {entry : Entry}

theorem find?_record (data : ChatMessages) (chatId : ChatId) (userId : UserId) (entry : Entry)
    (chat : ChatId) :
    (data.record chatId userId entry).find? chat =
      if chat = chatId then
        some (((data.find? chatId).getD .empty).insert userId
          ((((data.find? chatId).getD .empty).find? userId).getD [] ++ [entry]))
      else data.find? chat := Assoc.find?_insert

theorem stored_record (data : ChatMessages) (chatId : ChatId) (userId : UserId) (entry : Entry) :
    stored (data.record chatId userId entry) = stored data + 1 := by
  have houter := Assoc.sum_insert (m := data) (k := chatId)
    (a := ((data.find? chatId).getD .empty).insert userId
      ((((data.find? chatId).getD .empty).find? userId).getD [] ++ [entry]))
    fun users => total users.members
  have hinner := Assoc.sum_insert (m := (data.find? chatId).getD .empty) (k := userId)
    (a := (((data.find? chatId).getD .empty).find? userId).getD [] ++ [entry]) List.length
  have hchat : ((data.find? chatId).map fun users => total users.members).getD 0 =
      total ((data.find? chatId).getD .empty).members := by
    cases data.find? chatId <;> rfl
  have huser (messages : Option (List Entry)) :
      (messages.map List.length).getD 0 = (messages.getD []).length := by
    cases messages <;> rfl
  rw [huser, List.length_append, List.length_singleton] at hinner
  rw [hchat] at houter
  simp only [total] at houter
  simp only [stored, ChatMessages.record, total]
  omega

theorem noneEmpty_iff : NoneEmpty data ↔
    ∀ chat users user messages, data.find? chat = some users → users.find? user = some messages →
      messages ≠ [] := by
  constructor
  · intro h chat users user messages hchat huser
    exact h _ (Assoc.find?_eq_some.mp hchat) _ (Assoc.find?_eq_some.mp huser)
  · intro h chat hchat user huser
    exact h chat.1 chat.2 user.1 user.2 (Assoc.find?_eq_some.mpr hchat)
      (Assoc.find?_eq_some.mpr huser)

theorem noneEmpty_record (h : NoneEmpty data) (chatId : ChatId) (userId : UserId) (entry : Entry) :
    NoneEmpty (data.record chatId userId entry) := by
  rw [noneEmpty_iff] at h ⊢
  intro chat users user messages hchat huser
  rw [find?_record] at hchat
  split at hchat
  · obtain rfl := Option.some.inj hchat
    rw [Assoc.find?_insert] at huser
    split at huser
    · obtain rfl := Option.some.inj huser
      exact List.append_ne_nil_of_right_ne_nil _ (List.cons_ne_nil _ _)
    · cases hold : data.find? chatId with
      | none =>
        rw [hold] at huser
        cases huser
      | some old =>
        rw [hold] at huser
        exact h chatId old user messages hold huser
  · exact h chat users user messages hchat huser

theorem messagesOf_record (data : ChatMessages) (chatId : ChatId) (userId : UserId) (entry : Entry)
    (chat : ChatId) (user : UserId) :
    messagesOf (data.record chatId userId entry) chat user =
      if chatId = chat ∧ userId = user then messagesOf data chat user ++ [entry]
      else messagesOf data chat user := by
  rw [messagesOf, find?_record]
  by_cases hchat : chat = chatId
  · subst hchat
    rw [if_pos rfl, Option.bind_some, Assoc.find?_insert]
    have hold : messagesOf data chat user =
        (((data.find? chat).getD .empty).find? user).getD [] := by
      rw [messagesOf]
      cases data.find? chat <;> rfl
    by_cases huser : user = userId
    · subst huser
      rw [if_pos rfl, if_pos ⟨rfl, rfl⟩, hold]
      rfl
    · rw [if_neg huser, if_neg fun h => huser h.2.symm, hold]
  · rw [if_neg hchat, if_neg fun h => hchat h.1.symm]
    rfl

end Stored

section Effects

variable {s s' : Store} {t : ℕ} {op : Op} {i : Choice} {older : List Happening}

-- Everything that an operation does to what is stored.
inductive Acts (s : Store) : (op : Op) → Store → op.Answer → Prop where
  | record (chatId : ChatId) (userId : UserId) (entry : Entry) :
      Acts s (.record chatId userId entry)
        { s with
          chat_messages_data := s.chat_messages_data.record chatId userId entry
          chat_messages_count := s.chat_messages_count + 1 }
        (s.chat_messages_count + 1)
  | swap : Acts s .swap { s with chat_messages_data := .empty, chat_messages_count := 0 }
      s.chat_messages_data
  | other {op : Op} {s' : Store} {answer : op.Answer}
      (hrecord : ∀ chatId userId entry, op ≠ .record chatId userId entry) (hswap : op ≠ .swap)
      (hdata : s'.chat_messages_data = s.chat_messages_data)
      (hcount : s'.chat_messages_count = s.chat_messages_count) : Acts s op s' answer

theorem acts {answer : Option op.Answer} (h : act s t op i = some (s', answer)) :
    ∃ a, answer = some a ∧ Acts s op s' a := by
  cases op with
  | record chatId userId entry =>
    obtain ⟨rfl, rfl⟩ := Prod.mk.inj (Option.some.inj h)
    exact ⟨_, rfl, .record chatId userId entry⟩
  | swap =>
    obtain ⟨rfl, rfl⟩ := Prod.mk.inj (Option.some.inj h)
    exact ⟨_, rfl, .swap⟩
  | getConfig | exchangeConfig _ | onMessageAdded _ =>
    obtain ⟨rfl, rfl⟩ := Prod.mk.inj (Option.some.inj h)
    exact ⟨_, rfl, .other nofun nofun rfl rfl⟩
  | shouldBeSkipped message =>
    cases i with
    | skipped skipped =>
      obtain ⟨rfl, rfl⟩ := Prod.mk.inj (Option.some.inj h)
      exact ⟨_, rfl, .other nofun nofun rfl rfl⟩
    | _ => cases h
  | chats pending =>
    cases i with
    | chats order =>
      obtain ⟨_, h⟩ := Option.dite_none_right_eq_some.mp h
      obtain ⟨rfl, rfl⟩ := Prod.mk.inj (Option.some.inj h)
      exact ⟨_, rfl, .other nofun nofun rfl rfl⟩
    | _ => cases h
  | users perChatMap =>
    cases i with
    | users order =>
      obtain ⟨_, h⟩ := Option.dite_none_right_eq_some.mp h
      obtain ⟨rfl, rfl⟩ := Prod.mk.inj (Option.some.inj h)
      exact ⟨_, rfl, .other nofun nofun rfl rfl⟩
    | _ => cases h
  | onDetected chat user messageIds =>
    cases i with
    | detected outcome =>
      obtain ⟨rfl, rfl⟩ := Prod.mk.inj (Option.some.inj h)
      exact ⟨_, rfl, .other nofun nofun rfl rfl⟩
    | _ => cases h

theorem recordedIn_other (hrecord : ∀ chatId userId entry, op ≠ .record chatId userId entry)
    (answer : op.Answer) (chat : ChatId) (user : UserId) :
    recordedIn chat user ((t, .answers op answer) :: older) = recordedIn chat user older := by
  cases op with
  | record chatId userId entry => exact absurd rfl (hrecord chatId userId entry)
  | _ => rfl

theorem consumedIn_other (hswap : op ≠ .swap) (answer : op.Answer) (chat : ChatId)
    (user : UserId) :
    consumedIn chat user ((t, .answers op answer) :: older) = consumedIn chat user older := by
  cases op with
  | swap => exact absurd rfl hswap
  | _ => rfl

end Effects

section Runs

variable {w w' : World} {i : Step}

-- What the past of a thread tells of its call and its trace.
def Tells : Event Call Op Op.Answer Undefined → Call × Trace Op Op.Answer → Prop
  | .answers .swap batch, m => m.1 = .consumeAndDetect ∧ batchOf m.2 = some batch
  | .answers (.record chatId userId entry) _, m =>
    (∃ message, m.1 = .addMessage message) ∧ (chatId, userId, entry) ∈ records m.2
  | _, _ => True

theorem records_append (trace : Trace Op Op.Answer) (x : Σ op : Op, op.Answer) :
    records (trace ++ [x]) = records trace ++ (recordOf x).toList := by
  rw [records, List.filterMap_append]
  cases hx : recordOf x with
  | none => rw [List.filterMap_cons_none hx]; rfl
  | some record => rw [List.filterMap_cons_some hx]; rfl

theorem tells_lasts : Discipline.Lasts discipline Tells where
  begins _ := trivial
  answers m op answer hallows := by
    obtain ⟨call, trace⟩ := m
    cases op with
    | swap =>
      cases call with
      | consumeAndDetect =>
        obtain rfl : trace = [] := hallows
        exact ⟨rfl, rfl⟩
      | _ => cases hallows
    | record chatId userId entry =>
      cases call with
      | addMessage message =>
        refine ⟨⟨message, rfl⟩, ?_⟩
        exact records_append trace _ ▸ List.mem_append_right _ List.mem_cons_self
      | _ => cases hallows
    | _ => trivial
  ends _ _ _ := trivial
  hangsUp _ := trivial
  goes event m op answer hallows htells := by
    cases event with
    | answers op' answer' =>
      cases op' with
      | swap => exact ⟨htells.1, batchOf_append htells.2 _⟩
      | record chatId userId entry =>
        refine ⟨htells.1, ?_⟩
        exact records_append m.2 _ ▸ List.mem_append_left _ htells.2
      | _ => trivial
    | _ => trivial

structure Inv (w : World) : Prop where
  follows : discipline.Follows w
  recalls : Discipline.Recalls discipline Tells w
  kept : Discipline.KeepsTraces Allows w
  counted : w.shared.chat_messages_count = stored w.shared.chat_messages_data
  nonempty : NoneEmpty w.shared.chat_messages_data
  batches : ∀ t batch, (t, .answers .swap batch) ∈ w.history → NoneEmpty batch
  delivered : ∀ chat user, recordedIn chat user w.history =
    consumedIn chat user w.history ++ messagesOf w.shared.chat_messages_data chat user

theorem Inv.initial : Inv World.initial where
  follows := .initial _
  recalls _ _ h := nomatch h
  kept _ _ h := nomatch h
  counted := rfl
  nonempty := nofun
  batches _ _ h := nomatch h
  delivered _ _ := rfl

theorem Inv.of_step (h : Inv w) (hstep : step w i = some w') : Inv w' := by
  have hmoves := Discipline.moves_of_step h.follows hstep
  have hfollows := Discipline.Follows.of_step governs h.follows hstep
  have hrecalls := h.recalls.of_moves tells_lasts h.follows hmoves
  have hkept := h.kept.of_moves hmoves
  cases hmoves with
  | begins hbegins =>
    obtain rfl := Option.some.inj hbegins
    refine ⟨hfollows, hrecalls, hkept, h.counted, h.nonempty, fun u batch hmem => ?_, h.delivered⟩
    obtain heq | hold := List.mem_cons.mp hmem
    · cases (Prod.mk.inj heq).2
    · exact h.batches u batch hold
  | answers hstage hallows hact hrunning =>
    rename_i t i op next shared answer m
    obtain ⟨_, heq, hacts⟩ := acts (t := t) hact
    obtain rfl := Option.some.inj heq
    cases hacts with
    | record chatId userId entry =>
      refine ⟨hfollows, hrecalls, hkept, ?_, noneEmpty_record h.nonempty _ _ _,
        fun u batch hmem => ?_, fun chat user => ?_⟩
      · exact (congrArg (· + 1) h.counted).trans (stored_record ..).symm
      · obtain heq | hold := List.mem_cons.mp hmem
        · cases (Prod.mk.inj heq).2
        · exact h.batches u batch hold
      · have hdelivered := h.delivered chat user
        change (if chatId = chat ∧ userId = user then _ else _) = _ ++ messagesOf
          (w.shared.chat_messages_data.record chatId userId entry) chat user
        rw [messagesOf_record]
        split
        · rw [hdelivered, List.append_assoc]
          rfl
        · exact hdelivered
    | swap =>
      refine ⟨hfollows, hrecalls, hkept, rfl, nofun, fun u batch hmem => ?_,
        fun chat user => ?_⟩
      · obtain heq | hold := List.mem_cons.mp hmem
        · obtain ⟨-, hevent⟩ := Prod.mk.inj heq
          cases hevent
          exact h.nonempty
        · exact h.batches u batch hold
      · exact (h.delivered chat user).trans (List.append_nil _).symm
    | other hrecord hswap hdata hcount =>
      refine ⟨hfollows, hrecalls, hkept, ?_, hdata ▸ h.nonempty, fun u batch hmem => ?_,
        fun chat user => ?_⟩
      · exact hcount.trans (h.counted.trans (congrArg stored hdata.symm))
      · obtain heq | hold := List.mem_cons.mp hmem
        · obtain ⟨-, hevent⟩ := Prod.mk.inj heq
          cases hevent
          exact absurd rfl hswap
        · exact h.batches u batch hold
      · change recordedIn chat user ((t, .answers op answer) :: w.history) =
          consumedIn chat user ((t, .answers op answer) :: w.history) ++
            messagesOf shared.chat_messages_data chat user
        rw [recordedIn_other hrecord, consumedIn_other hswap, hdata]
        exact h.delivered chat user
  | waits hstage hallows hact hrunning =>
    rename_i t i op shared m
    obtain ⟨_, hnone, -⟩ := acts (t := t) hact
    cases hnone
  | ends hstage hpost =>
    refine ⟨hfollows, hrecalls, hkept, h.counted, h.nonempty, fun u batch hmem => ?_, h.delivered⟩
    obtain heq | hold := List.mem_cons.mp hmem
    · cases (Prod.mk.inj heq).2
    · exact h.batches u batch hold
  | hangsUp hstage hhangs hrunning => cases hhangs

theorem batchOf_snoc {trace : Trace Op Op.Answer} {x : Σ op : Op, op.Answer}
    {batch : ChatMessages} (hsome : (batchOf trace).isSome)
    (h : batchOf (trace ++ [x]) = some batch) : batchOf trace = some batch := by
  obtain ⟨batch', hbatch'⟩ := Option.isSome_iff_exists.mp hsome
  exact hbatch'.trans ((batchOf_append hbatch' x).symm.trans h)

theorem subperm_of_kept {trace : Trace Op Op.Answer} {batch : ChatMessages}
    (h : Discipline.Kept (Allows .consumeAndDetect) trace) (hbatch : batchOf trace = some batch)
    (hfit : Fit batch) : (detections trace).Subperm (hits batch) := by
  induction h with
  | nil => cases hbatch
  | snoc hkept hallows answer ih =>
    rename_i trace op
    have hquiet (hsome : (batchOf trace).isSome) (hnone : detectionOf ⟨op, answer⟩ = none) :
        (detections (trace ++ [⟨op, answer⟩])).Subperm (hits batch) := by
      rw [detections_append, hnone, Option.toList_none, List.append_nil]
      exact ih (batchOf_snoc hsome hbatch)
    cases op with
    | swap =>
      obtain rfl : trace = [] := hallows
      exact List.nil_subperm
    | chats pending =>
      exact hquiet (Option.isSome_iff_exists.mpr ⟨pending, hallows⟩) rfl
    | users perChatMap => exact hquiet hallows rfl
    | onDetected chat user messageIds =>
      obtain ⟨batch', hbatch', hsubperm⟩ := hallows
      obtain rfl := Option.some.inj ((batchOf_append hbatch' _).symm.trans hbatch)
      rw [detections_append]
      exact hsubperm hfit
    | _ => cases hallows

theorem accepted_prefix (message : Option Message) (trace : Trace Op Op.Answer) :
    accepted message trace <+: (eligible message).toList := by
  rw [accepted]
  split
  · exact List.nil_prefix
  · exact List.prefix_refl _

theorem records_of_kept {trace : Trace Op Op.Answer} {message : Option Message}
    (h : Discipline.Kept (Allows (.addMessage message)) trace) :
    records trace <+: (eligible message).toList := by
  induction h with
  | nil => exact List.nil_prefix
  | snoc hkept hallows answer ih =>
    rename_i trace op
    rw [records_append]
    cases op with
    | record chatId userId entry =>
      obtain ⟨hnone, haccepted⟩ := hallows
      rw [hnone]
      have heligible := accepted_prefix message trace
      rw [haccepted] at heligible
      exact heligible
    | getConfig | shouldBeSkipped _ | onMessageAdded _ =>
      exact (List.append_nil (records trace)).symm ▸ ih
    | _ => cases hallows

theorem Inv.told (h : Inv w) {t : ℕ} {event : Event Call Op Op.Answer Undefined}
    (hmem : (t, event) ∈ w.history) :
    ∃ call, callIn t w.history = some call ∧ Tells event (call, traceIn t w.history) := by
  obtain ⟨m, hstage, htells⟩ := h.recalls t event hmem
  obtain ⟨call, hcall, rfl⟩ := Option.map_eq_some_iff.mp
    ((Discipline.stage_ofTraces w t).symm.trans hstage)
  exact ⟨call, hcall, htells⟩

theorem Inv.posted (h : Inv w) {t : ℕ} {chat : ChatId} {user : UserId} {entry : Entry} {count : ℕ}
    (hmem : (t, .answers (.record chat user entry) count) ∈ w.history) :
    ∃ message, callIn t w.history = some (.addMessage message) ∧
      eligible message = some (chat, user, entry) := by
  obtain ⟨call, hcall, ⟨message, rfl⟩, hrecord⟩ := h.told hmem
  have hrecords := records_of_kept (h.kept t _ hcall)
  exact ⟨message, hcall, Option.mem_toList.mp (hrecords.subset hrecord)⟩

theorem Inv.recorded (h : Inv w) {t : ℕ} {message : Option Message}
    (hcall : callIn t w.history = some (.addMessage message)) {result : Except Undefined Unit}
    (hended : (t, .ends result) ∈ w.history) :
    result = .ok () ∧ records (traceIn t w.history) = accepted message (traceIn t w.history) := by
  have hpost := h.follows.post_of_ended hended hcall
  cases result with
  | ok u => exact ⟨rfl, hpost⟩
  | error e => exact hpost.elim

theorem Inv.detected (h : Inv w) {t : ℕ} {batch : ChatMessages} (hfit : Fit batch)
    (hmem : (t, .answers .swap batch) ∈ w.history) :
    (detections (traceIn t w.history)).Subperm (hits batch) ∧
      ∀ result, (t, .ends result) ∈ w.history →
        result = .ok () ∧ (detections (traceIn t w.history)).Perm (hits batch) := by
  obtain ⟨call, hcall, rfl, hbatch⟩ := h.told hmem
  refine ⟨subperm_of_kept (h.kept t _ hcall) hbatch hfit, fun result hended => ?_⟩
  have hpost := h.follows.post_of_ended hended hcall
  cases result with
  | ok u =>
    obtain ⟨batch', hbatch', hperm⟩ := hpost
    obtain rfl := Option.some.inj (hbatch'.symm.trans hbatch)
    exact ⟨rfl, hperm hfit⟩
  | error e =>
    obtain ⟨batch', hbatch', hunfit⟩ := hpost
    obtain rfl := Option.some.inj (hbatch'.symm.trans hbatch)
    exact absurd hfit hunfit

theorem Inv.correct (h : Inv w)
    (hsmall : ∀ t batch, (t, .answers .swap batch) ∈ w.history → Small batch) : Correct w where
  counted := h.counted
  nonempty := h.nonempty
  delivered := h.delivered
  posted _ _ _ _ _ hmem := h.posted hmem
  recorded t _ hcall := ⟨records_of_kept (h.kept t _ hcall), fun _ => h.recorded hcall⟩
  taken t batch hmem := by
    obtain ⟨call, hcall, rfl, hbatch⟩ := h.told hmem
    exact ⟨hcall, hbatch⟩
  detected t batch hmem := by
    obtain ⟨hsubperm, hend⟩ :=
      h.detected ⟨hsmall t batch hmem, h.batches t batch hmem⟩ hmem
    refine ⟨?_, fun detection hdetection => mem_hits.mp (hsubperm.subset hdetection),
      fun result hended => ?_⟩
    · obtain ⟨l, hperm, hsublist⟩ := hsubperm
      exact (hperm.map _).nodup_iff.mp ((nodup_hits batch).sublist (hsublist.map _))
    · obtain ⟨hresult, hperm⟩ := hend result hended
      exact ⟨hresult, fun detection hdue => hperm.mem_iff.mpr (mem_hits.mpr hdue)⟩

-- Whatever the threads do, as long as no batch has more messages of a chat than an `int` can count.
theorem batches_correct {steps : List Step}
    (hpath : Transition.path step World.initial steps = some w)
    (hsmall : ∀ t batch, (t, .answers .swap batch) ∈ w.history → Small batch) : Correct w :=
  (Transition.path_invariant_of_step Inv (fun _ _ _ h hstep => h.of_step hstep) .initial
    hpath).correct hsmall

end Runs

-- The same text over and over again, from one user.
def spam : Message := ⟨7, some 1, some 2, some [97], none, none, false⟩

def spamOf (n : ℕ) : UserMessagesMap :=
  ⟨[(2, List.replicate n (7, [97]))], List.nodup_singleton _⟩

def onlyUser (n : ℕ) : ChatMessages := ⟨[(1, spamOf n)], List.nodup_singleton _⟩

-- Five messages are posted, and the sender is detected.
def noted : List Step :=
  (List.range 5).flatMap (fun t => [.begins (.addMessage (some spam)), .acts t .none,
    .acts t (.skipped false), .acts t .none]) ++
  [.begins .consumeAndDetect, .acts 5 .none, .acts 5 (.chats (onlyUser 5).members),
    .acts 5 (.users (spamOf 5).members), .acts 5 (.detected .returned), .ends 5]

def fitsInt : Happening → Bool
  | (_, .answers .swap batch) => batch.members.all fun chat => total chat.2.members < 2 ^ 31
  | _ => true

theorem batches_correct_noted :
    ∃ w, Transition.path step World.initial noted = some w ∧
      detections (traceIn 5 w.history) = [(1, 2, List.replicate 5 7)] ∧ Correct w := by
  have hrun : (Transition.path step World.initial noted).any (fun w =>
      decide (detections (traceIn 5 w.history) = [(1, 2, List.replicate 5 7)]) &&
        w.history.all fitsInt) = true := by decide +kernel
  obtain ⟨w, hpath, hw⟩ := (Option.any_eq_true ..).mp hrun
  obtain ⟨hdetected, hfits⟩ := Bool.and_eq_true_iff.mp hw
  refine ⟨w, hpath, of_decide_eq_true hdetected,
    batches_correct hpath fun t batch hmem chat hchat => ?_⟩
  have hbatch := List.all_eq_true.mp hfits _ hmem
  exact of_decide_eq_true (List.all_eq_true.mp hbatch chat hchat)

section Unnoticed

theorem record_onlyUser (n : ℕ) : (onlyUser n).record 1 2 (7, [97]) = onlyUser (n + 1) := by
  simp only [onlyUser, spamOf, List.replicate_succ']
  rfl

theorem path_post {w : World} {data : ChatMessages} {count : ℕ}
    (h : w.shared = ⟨data, count, .PURGE⟩) :
    ∃ steps w', Transition.path step w steps = some w' ∧
      w'.shared = ⟨data.record 1 2 (7, [97]), count + 1, .PURGE⟩ := by
  have hruns (older : List Happening) : ∃ history, Runs system (fun _ _ => True) w.started
      (⟨data, count, .PURGE⟩, older) (addMessage (some spam))
      (⟨data.record 1 2 (7, [97]), count + 1, .PURGE⟩, history) () :=
    ⟨_, .answers (i := .none) trivial rfl (.answers (i := .skipped false) trivial rfl
      (.answers (i := .none) trivial rfl (.answers (i := .none) trivial rfl .pure)))⟩
  obtain ⟨history, hruns⟩ := hruns ((w.started, .begins (.addMessage (some spam))) :: w.history)
  obtain ⟨steps, w', hpath, -, -, hshared, -⟩ := hruns.exists_path
    (w := w.begun (.addMessage (some spam)) (addMessage (some spam)) w.shared)
    (Prod.ext h rfl) (Function.update_self ..)
  exact ⟨.begins (.addMessage (some spam)) :: steps, w',
    Transition.path_cons_eq_some.mpr ⟨_, rfl, hpath⟩, hshared⟩

theorem path_posts (n : ℕ) :
    ∃ steps w, Transition.path step World.initial steps = some w ∧
      w.shared = ⟨onlyUser (n + 1), n + 1, .PURGE⟩ := by
  induction n with
  | zero => exact path_post (show World.initial.shared = ⟨.empty, 0, .PURGE⟩ from rfl)
  | succ n ih =>
    obtain ⟨first, w, hfirst, hshared⟩ := ih
    obtain ⟨rest, w', hrest, hshared'⟩ := path_post hshared
    rw [record_onlyUser] at hshared'
    exact ⟨first ++ rest, w', Transition.path_append_eq_some.mpr ⟨w, hfirst, hrest⟩, hshared'⟩

theorem detectUsers_of_below {chat : ChatId} {users : List (UserId × List Entry)} {count : ℤ}
    (hcount : accumulate users = some count) (hbelow : ¬ sSpamDetectThreshold ≤ count) :
    detectUsers chat users = pure () := by
  unfold detectUsers
  rw [hcount]
  exact if_neg hbelow

theorem act_chats (s : Store) (t : ℕ) (pending : ChatMessages) :
    system.act s t (.chats pending) (.chats pending.members) =
      some (s, some ⟨pending.members, .refl _⟩) := dif_pos (.refl _)

theorem act_users (s : Store) (t : ℕ) (perChatMap : UserMessagesMap) :
    system.act s t (.users perChatMap) (.users perChatMap.members) =
      some (s, some ⟨perChatMap.members, .refl _⟩) := dif_pos (.refl _)

theorem runs_detectChat {chat : ChatId × UserMessagesMap}
    (hquiet : detectUsers chat.1 chat.2.members = pure ()) (t : ℕ) (s : Store)
    (older : List Happening) :
    Runs system (fun _ _ => True) t (s, older) (detectChat chat)
      (s, (t, .answers (.users chat.2) ⟨chat.2.members, .refl _⟩) :: older) () := by
  refine .answers trivial (act_users _ _ _) ?_
  change Runs system _ t _ (detectUsers chat.1 chat.2.members) _ _
  rw [hquiet]
  exact .pure

-- A count that has gone negative is no reason to look at the messages.
theorem runs_unnoticed {n : ℕ} (hn : toInt32 n = -2 ^ 31) (t count : ℕ) (older : List Happening) :
    Runs system (fun _ _ => True) t (⟨onlyUser n, count, .PURGE⟩, older) consumeAndDetect
      (⟨.empty, 0, .PURGE⟩,
        (t, .answers (.users (spamOf n)) ⟨(spamOf n).members, .refl _⟩) ::
          (t, .answers (.chats (onlyUser n)) ⟨(onlyUser n).members, .refl _⟩) ::
            (t, .answers .swap (onlyUser n)) :: older) () := by
  have hcount : accumulate (spamOf n).members = some (-2 ^ 31) := by
    unfold accumulate spamOf
    rw [List.foldlM_cons, List.length_replicate, hn]
    rfl
  have hquiet : detectUsers (1, spamOf n).1 (1, spamOf n).2.members = pure () :=
    detectUsers_of_below hcount (by decide)
  refine .answers (i := .none) trivial rfl (.answers trivial (act_chats _ _ _) ?_)
  exact (runs_detectChat hquiet t _ _).bind .pure

theorem exists_unnoticed {n : ℕ} (hn : toInt32 n = -2 ^ 31) (hfive : 5 ≤ n) :
    ∃ steps w t, Transition.path step World.initial steps = some w ∧
      (t, .answers .swap (onlyUser n)) ∈ w.history ∧ (t, .ends (.ok ())) ∈ w.history ∧
      (∃ detection, Due (onlyUser n) detection) ∧ detections (traceIn t w.history) = [] := by
  obtain ⟨first, w, hfirst, hshared⟩ := path_posts (n - 1)
  rw [Nat.sub_add_cancel (Nat.le_trans (by decide) hfive)] at hshared
  have hruns := runs_unnoticed hn w.started n ((w.started, .begins .consumeAndDetect) :: w.history)
  obtain ⟨rest, w', hrest, -, -, -, hhistory, hrunning⟩ := hruns.exists_path
    (w := w.begun .consumeAndDetect consumeAndDetect w.shared) (Prod.ext hshared rfl)
    (Function.update_self ..)
  refine ⟨first ++ .begins .consumeAndDetect :: (rest ++ [.ends w.started]),
    w'.record w.started (.ends (.ok ())) none w'.shared, w.started, ?_, ?_, ?_, ?_, ?_⟩
  · refine Transition.path_append_eq_some.mpr ⟨w, hfirst, Transition.path_cons_eq_some.mpr
      ⟨_, rfl, Transition.path_append_eq_some.mpr ⟨w', hrest, ?_⟩⟩⟩
    refine Transition.path_cons_eq_some.mpr ⟨_, ?_, rfl⟩
    simp only [step, Threads.step, hrunning]
    rfl
  · refine List.mem_cons_of_mem _ ?_
    rw [hhistory]
    exact List.mem_cons_of_mem _ (List.mem_cons_of_mem _ List.mem_cons_self)
  · exact List.mem_cons_self
  · refine ⟨(1, 2, _), spamOf n, List.replicate n (7, [97]), rfl, rfl, ?_, .inl ?_, rfl⟩
    · simpa [total, spamOf] using hfive
    · simpa using hfive
  · have htrace : traceIn w.started (w'.record w.started (.ends (.ok ())) none w'.shared).history =
        [⟨.swap, onlyUser n⟩, ⟨.chats (onlyUser n), ⟨(onlyUser n).members, .refl _⟩⟩,
          ⟨.users (spamOf n), ⟨(spamOf n).members, .refl _⟩⟩] := by
      simp only [Threads.record, hhistory, traceIn, if_true, List.nil_append, List.cons_append]
    rw [htrace]
    rfl

end Unnoticed

-- Nobody is told of somebody who repeats a text 2^31 times.
theorem repeated_messages_unnoticed :
    ∃ steps w t, Transition.path step World.initial steps = some w ∧
      (t, .answers .swap (onlyUser (2 ^ 31))) ∈ w.history ∧ (t, .ends (.ok ())) ∈ w.history ∧
      (∃ detection, Due (onlyUser (2 ^ 31)) detection) ∧
      detections (traceIn t w.history) = [] :=
  exists_unnoticed (by decide) (by decide)

end Glider.SpamBlock

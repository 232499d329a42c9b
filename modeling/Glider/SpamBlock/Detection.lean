import Glider.SpamBlock.Base
import Mathlib.Algebra.BigOperators.Group.List.Basic
import Mathlib.Algebra.Order.BigOperators.Group.List
import Mathlib.Algebra.Order.Group.Nat

namespace Glider.SpamBlock

open Glider.Lib Glider.Lib.Threads

abbrev Detection := ChatId × UserId × List MessageId

section Purpose

def total (users : List (UserId × List Entry)) : ℕ := (users.map fun user => user.2.length).sum

-- At least five messages, or at least three equal ones.
def Spams (messages : List Entry) : Prop :=
  5 ≤ messages.length ∨ ∃ content ∈ messages.map Prod.snd, 3 ≤ (messages.map Prod.snd).count content

instance (messages : List Entry) : Decidable (Spams messages) :=
  inferInstanceAs (Decidable (_ ∨ _))

def userHits (chat : ChatId) (user : UserId × List Entry) : List Detection :=
  if Spams user.2 then [(chat, user.1, user.2.map Prod.fst)] else []

def chatHits (chat : ChatId) (users : List (UserId × List Entry)) : List Detection :=
  if 5 ≤ total users then users.flatMap (userHits chat) else []

-- What is to be detected in a batch.
def hits (batch : ChatMessages) : List Detection :=
  batch.members.flatMap fun chat => chatHits chat.1 chat.2.members

-- It is of a user who spams, in a chat with at least five messages, and about all of the user's.
def Due (batch : ChatMessages) (detection : Detection) : Prop :=
  ∃ users messages, batch.find? detection.1 = some users ∧
    users.find? detection.2.1 = some messages ∧ 5 ≤ total users.members ∧ Spams messages ∧
    detection.2.2 = messages.map Prod.fst

-- Fewer messages in each chat than an `int` can count.
def Small (batch : ChatMessages) : Prop := ∀ chat ∈ batch.members, total chat.2.members < 2 ^ 31

def NoneEmpty (batch : ChatMessages) : Prop :=
  ∀ chat ∈ batch.members, ∀ user ∈ chat.2.members, user.2 ≠ []

end Purpose

section Hits

variable {batch : ChatMessages} {detection : Detection}

theorem mem_userHits {chat : ChatId} {user : UserId × List Entry} :
    detection ∈ userHits chat user ↔
      Spams user.2 ∧ detection = (chat, user.1, user.2.map Prod.fst) := by
  rw [userHits]
  split
  · next hspams => rw [List.mem_singleton, and_iff_right hspams]
  · next hspams => exact iff_of_false List.not_mem_nil fun h => hspams h.1

theorem mem_chatHits {chat : ChatId} {users : List (UserId × List Entry)} :
    detection ∈ chatHits chat users ↔
      5 ≤ total users ∧ ∃ user ∈ users, detection ∈ userHits chat user := by
  rw [chatHits]
  split
  · next hreached => rw [List.mem_flatMap, and_iff_right hreached]
  · next hbelow => exact iff_of_false List.not_mem_nil fun h => hbelow h.1

theorem mem_hits : detection ∈ hits batch ↔ Due batch detection := by
  rw [hits, List.mem_flatMap]
  constructor
  · rintro ⟨⟨chat, users⟩, hchat, hmem⟩
    obtain ⟨hreached, ⟨user, messages⟩, huser, hmem⟩ := mem_chatHits.mp hmem
    obtain ⟨hspams, rfl⟩ := mem_userHits.mp hmem
    exact ⟨users, messages, Assoc.find?_eq_some.mpr hchat, Assoc.find?_eq_some.mpr huser, hreached,
      hspams, rfl⟩
  · obtain ⟨chat, user, messageIds⟩ := detection
    rintro ⟨users, messages, hchat, huser, hreached, hspams, rfl⟩
    exact ⟨(chat, users), Assoc.find?_eq_some.mp hchat, mem_chatHits.mpr ⟨hreached,
      (user, messages), Assoc.find?_eq_some.mp huser, mem_userHits.mpr ⟨hspams, rfl⟩⟩⟩

theorem nodup_hits (batch : ChatMessages) :
    ((hits batch).map fun detection => (detection.1, detection.2.1)).Nodup := by
  rw [hits, List.map_flatMap]
  refine Assoc.nodup_flatMap Prod.fst (fun chat hchat => ?_) fun chat hchat b hb => ?_
  · rw [chatHits]
    split
    · rw [List.map_flatMap]
      refine Assoc.nodup_flatMap Prod.snd (fun user huser => ?_) fun user huser b hb => ?_
      · rw [userHits]
        split
        · exact List.nodup_singleton _
        · exact List.nodup_nil
      · obtain ⟨detection, hmem, rfl⟩ := List.mem_map.mp hb
        obtain ⟨-, rfl⟩ := mem_userHits.mp hmem
        rfl
    · exact List.nodup_nil
  · obtain ⟨detection, hmem, rfl⟩ := List.mem_map.mp hb
    obtain ⟨-, user, -, hmem⟩ := mem_chatHits.mp hmem
    obtain ⟨-, rfl⟩ := mem_userHits.mp hmem
    rfl

end Hits

section Counting

variable {messages : List Entry} {users : List (UserId × List Entry)}

theorem accumulate_eq (h : total users < 2 ^ 31) : accumulate users = some (total users : ℤ) := by
  have hfrom (n : ℕ) (hn : n + total users < 2 ^ 31) :
      users.foldlM (fun (index : ℤ) (messages : UserId × List Entry) =>
        checkedInt (index + toInt32 messages.2.length)) (n : ℤ) =
        some ((n + total users : ℕ) : ℤ) := by
    clear h
    induction users generalizing n with
    | nil => rfl
    | cons user rest ih =>
      have htotal : total (user :: rest) = user.2.length + total rest := by
        simp [total]
      rw [htotal] at hn ⊢
      rw [List.foldlM_cons, toInt32_of_range (by omega) (by omega),
        checkedInt_of_lt (by omega) (by omega), Option.bind_eq_bind, Option.bind_some,
        ← Int.natCast_add, ih _ (by omega), Nat.add_assoc]
  have hzero := hfrom 0 (by omega)
  rw [Nat.zero_add] at hzero
  unfold accumulate
  exact hzero

theorem total_perm {order : List (UserId × List Entry)} (h : order.Perm users) :
    total order = total users := (h.map _).sum_eq

theorem length_le_total {user : UserId × List Entry} (h : user ∈ users) :
    user.2.length ≤ total users :=
  List.single_le_sum (fun _ _ => Nat.zero_le _) _ (List.mem_map_of_mem h)

-- A map that has counted some contents.
def Counted (map : Assoc Bytes ℤ) (contents : List Bytes) : Prop :=
  ∀ content, map.find? content =
    if content ∈ contents then some (contents.count content : ℤ) else none

theorem Counted.insert {map : Assoc Bytes ℤ} {contents : List Bytes} (h : Counted map contents)
    (content : Bytes) :
    (map.find? content).getD 0 = contents.count content ∧
      Counted (map.insert content ((contents.count content : ℤ) + 1)) (contents ++ [content]) := by
  constructor
  · rw [h content]
    split
    · rfl
    · next hnot =>
      rw [Option.getD_none, List.count_eq_zero_of_not_mem hnot]
      rfl
  · intro other
    rw [Assoc.find?_insert]
    by_cases heq : other = content
    · subst heq
      simp
    · rw [if_neg heq, h other]
      simp [List.count_append, heq, Ne.symm heq]

theorem counted_fold {map : Assoc Bytes ℤ} {contents : List Bytes} (h : Counted map contents)
    (hlt : contents.length + messages.length < 2 ^ 31) :
    ∃ map', messages.foldlM (fun (map : Assoc Bytes ℤ) (elem : Entry) => do
        let n ← checkedInt ((map.find? elem.2).getD 0 + 1)
        pure (map.insert elem.2 n)) map = some map' ∧
      Counted map' (contents ++ messages.map Prod.snd) := by
  induction messages generalizing map contents with
  | nil => exact ⟨map, rfl, by simpa using h⟩
  | cons elem rest ih =>
    rw [List.length_cons] at hlt
    obtain ⟨hvalue, hnext⟩ := h.insert elem.2
    have hcount : contents.count elem.2 ≤ contents.length := List.count_le_length
    obtain ⟨map', hmap', hcounted⟩ := ih hnext (by
      rw [List.length_append, List.length_singleton]
      omega)
    refine ⟨map', ?_, by simpa using hcounted⟩
    rw [List.foldlM_cons, hvalue, checkedInt_of_lt (by omega) (by omega)]
    exact hmap'

theorem sameMessage_count (hne : messages ≠ []) (hlt : messages.length < 2 ^ 31) :
    ∃ n, SameMessageMatcher.count messages = some n ∧
      (3 ≤ n ↔ ∃ content ∈ messages.map Prod.snd,
        3 ≤ (messages.map Prod.snd).count content) := by
  have hempty : Counted .empty [] := fun content => by simp
  have hshort : ([] : List Bytes).length + messages.length < 2 ^ 31 := by simpa using hlt
  obtain ⟨map, hmap, hcounted⟩ := counted_fold hempty hshort
  rw [List.nil_append] at hcounted
  have hvalue (n : ℤ) : n ∈ map.members.map Prod.snd ↔ ∃ content ∈ messages.map Prod.snd,
      ((messages.map Prod.snd).count content : ℤ) = n := by
    rw [List.mem_map]
    constructor
    · rintro ⟨⟨content, n⟩, hmem, rfl⟩
      have hfind := hcounted content
      rw [Assoc.find?_eq_some.mpr hmem] at hfind
      split at hfind
      · next hin => exact ⟨content, hin, (Option.some.inj hfind).symm⟩
      · cases hfind
    · rintro ⟨content, hin, rfl⟩
      exact ⟨(content, _), Assoc.find?_eq_some.mp ((hcounted content).trans (if_pos hin)), rfl⟩
  obtain ⟨first, rest, rfl⟩ := List.exists_cons_of_ne_nil hne
  have hsome : (map.members.map Prod.snd).max? ≠ none := by
    rw [ne_eq, List.max?_eq_none_iff]
    exact List.ne_nil_of_mem ((hvalue _).mpr ⟨first.2, by simp, rfl⟩)
  obtain ⟨n, hn⟩ := Option.ne_none_iff_exists'.mp hsome
  obtain ⟨hmem, hmax⟩ := List.max?_eq_some_iff.mp hn
  refine ⟨n, ?_, fun hle => ?_, ?_⟩
  · rw [SameMessageMatcher.count, hmap]
    exact hn
  · obtain ⟨content, hin, hcount⟩ := (hvalue n).mp hmem
    exact ⟨content, hin, by omega⟩
  · rintro ⟨content, hin, hle⟩
    have hbelow := hmax _ ((hvalue _).mpr ⟨content, hin, rfl⟩)
    omega

theorem offends_eq (hne : messages ≠ []) (hlt : messages.length < 2 ^ 31) :
    offends messages = some (decide (Spams messages)) := by
  obtain ⟨n, hn, hiff⟩ := sameMessage_count hne hlt
  have hlength : toInt32 messages.length = messages.length :=
    toInt32_of_range (by omega) (by omega)
  have hfirst : Matcher.detect MessageCountMatcher.count MessageCountMatcher.kThreshold messages =
      some (decide (5 ≤ messages.length)) := by
    refine congrArg some (decide_eq_decide.mpr ?_)
    rw [hlength]
    exact Int.ofNat_le
  have hsecond : Matcher.detect SameMessageMatcher.count SameMessageMatcher.kThreshold messages =
      some (decide (3 ≤ n)) := by
    rw [Matcher.detect, hn]
    rfl
  unfold offends
  rw [hfirst, hsecond]
  by_cases hfive : 5 ≤ messages.length
  · have hspams : Spams messages := .inl hfive
    simp [hfive, hspams]
  · have hspams : Spams messages ↔ 3 ≤ n := (or_iff_right hfive).trans hiff.symm
    simp [hfive, hspams]

end Counting

section Conduct

-- The batch that a thread has taken.
def batchOf : Trace Op Op.Answer → Option ChatMessages
  | ⟨.swap, batch⟩ :: _ => some batch
  | _ => none

def detectionOf : (Σ op : Op, op.Answer) → Option Detection
  | ⟨.onDetected chat user messageIds, _⟩ => some (chat, user, messageIds)
  | _ => none

def detections (trace : Trace Op Op.Answer) : List Detection := trace.filterMap detectionOf

abbrev Record := ChatId × UserId × Entry

def recordOf : (Σ op : Op, op.Answer) → Option Record
  | ⟨.record chatId userId entry, _⟩ => some (chatId, userId, entry)
  | _ => none

def records (trace : Trace Op Op.Answer) : List Record := trace.filterMap recordOf

-- What a message is to be recorded as, if it is one that is cared for.
def eligible (message : Option Message) : Option Record := do
  let message ← message
  let chatId ← message.chat
  let userId ← message.from_
  if message.Cared then some (chatId, userId, (message.messageId, message.data)) else none

-- The spam block is off, or the message is skipped.
def refuses : (Σ op : Op, op.Answer) → Bool
  | ⟨.getConfig, config⟩ => config = .OFF
  | ⟨.shouldBeSkipped _, skipped⟩ => skipped
  | _ => false

-- What is recorded of a message.
def accepted (message : Option Message) (trace : Trace Op Op.Answer) : List Record :=
  if trace.any refuses then [] else (eligible message).toList

def Fit (batch : ChatMessages) : Prop := Small batch ∧ NoneEmpty batch

def Allows : Call → Trace Op Op.Answer → Op → Prop
  | .addMessage _, trace, .getConfig => trace = []
  | .addMessage message, _, .shouldBeSkipped message' => message = some message'
  | .addMessage message, trace, .record chatId userId entry =>
    records trace = [] ∧ accepted message trace = [(chatId, userId, entry)]
  | .addMessage _, _, .onMessageAdded _ => True
  | .setConfig config, _, .exchangeConfig config' => config' = config
  | .consumeAndDetect, trace, .swap => trace = []
  | .consumeAndDetect, trace, .chats pending => batchOf trace = some pending
  | .consumeAndDetect, trace, .users _ => (batchOf trace).isSome
  | .consumeAndDetect, trace, .onDetected chat user messageIds =>
    ∃ batch, batchOf trace = some batch ∧
      (Fit batch → (detections trace ++ [(chat, user, messageIds)]).Subperm (hits batch))
  | _, _, _ => False

def Post : Call → Trace Op Op.Answer → Except Undefined Unit → Prop
  | .addMessage message, trace, .ok _ => records trace = accepted message trace
  | .addMessage _, _, .error _ => False
  | .setConfig _, _, r => r = .ok ()
  | .consumeAndDetect, trace, .ok _ =>
    ∃ batch, batchOf trace = some batch ∧ (Fit batch → (detections trace).Perm (hits batch))
  | .consumeAndDetect, trace, .error _ => ∃ batch, batchOf trace = some batch ∧ ¬ Fit batch

def discipline : Discipline Call Op Op.Answer Undefined (Call × Trace Op Op.Answer) :=
  Discipline.ofTraces Allows Post

-- What is still to be detected of a batch.
def Left (batch : ChatMessages) (trace : Trace Op Op.Answer) (rest : List Detection) : Prop :=
  batchOf trace = some batch ∧ (Fit batch → (detections trace ++ rest).Perm (hits batch))

-- A part of the detection ends with only `rest` left to be detected.
def Advances (batch : ChatMessages) (rest : List Detection) (m : Call × Trace Op Op.Answer)
    (r : Except Undefined Unit) : Prop :=
  m.1 = .consumeAndDetect ∧
    match r with
    | .ok _ => Left batch m.2 rest
    | .error _ => batchOf m.2 = some batch ∧ ¬ Fit batch

variable {batch : ChatMessages} {trace : Trace Op Op.Answer} {rest : List Detection}

theorem batchOf_append (h : batchOf trace = some batch) (x : Σ op : Op, op.Answer) :
    batchOf (trace ++ [x]) = some batch := by
  cases trace with
  | nil => cases h
  | cons first others =>
    obtain ⟨op, answer⟩ := first
    cases op with
    | swap => exact h
    | _ => cases h

theorem detections_append (trace : Trace Op Op.Answer) (x : Σ op : Op, op.Answer) :
    detections (trace ++ [x]) = detections trace ++ (detectionOf x).toList := by
  rw [detections, List.filterMap_append]
  cases hx : detectionOf x with
  | none => rw [List.filterMap_cons_none hx]; rfl
  | some detection => rw [List.filterMap_cons_some hx]; rfl

theorem Left.append (h : Left batch trace rest) {x : Σ op : Op, op.Answer}
    (hx : detectionOf x = none) : Left batch (trace ++ [x]) rest := by
  refine ⟨batchOf_append h.1 x, fun hfit => ?_⟩
  rw [detections_append, hx, Option.toList_none, List.append_nil]
  exact h.2 hfit

-- A loop detects what its rounds detect.
theorem forM_meets {γ : Type} {f : γ → Routine Unit} {found : γ → List Detection} {l : List γ}
    (hround : ∀ c ∈ l, ∀ trace rest, Left batch trace (found c ++ rest) →
      (f c).Meets (tracing Allows) (Advances batch rest) (.consumeAndDetect, trace))
    (h : Left batch trace (l.flatMap found ++ rest)) :
    (l.forM f).Meets (tracing Allows) (Advances batch rest) (.consumeAndDetect, trace) := by
  induction l generalizing trace with
  | nil => exact ⟨rfl, h⟩
  | cons c others ih =>
    rw [List.flatMap_cons, List.append_assoc] at h
    refine Program.meets_bind.mpr
      (Program.Meets.mono ?_ (hround c List.mem_cons_self trace _ h))
    rintro ⟨call, trace'⟩ (e | u) ⟨rfl, hafter⟩
    · exact ⟨rfl, hafter⟩
    · exact ih (fun d hd => hround d (List.mem_cons_of_mem c hd)) hafter

theorem detectUser_meets (chat : ChatId) {user : UserId × List Entry}
    (hfit : Fit batch → user.2 ≠ [] ∧ user.2.length < 2 ^ 31)
    (h : Left batch trace (userHits chat user ++ rest)) :
    (detectUser chat user).Meets (tracing Allows) (Advances batch rest)
      (.consumeAndDetect, trace) := by
  unfold detectUser
  cases hoffends : offends user.2 with
  | none =>
    refine ⟨rfl, h.1, fun hfit' => ?_⟩
    obtain ⟨hne, hlt⟩ := hfit hfit'
    rw [offends_eq hne hlt] at hoffends
    cases hoffends
  | some offending =>
    have hspams (hfit' : Fit batch) : offending = decide (Spams user.2) := by
      obtain ⟨hne, hlt⟩ := hfit hfit'
      rw [offends_eq hne hlt] at hoffends
      exact (Option.some.inj hoffends).symm
    cases offending with
    | false =>
      refine ⟨rfl, h.1, fun hfit' => ?_⟩
      have hleft := h.2 hfit'
      rwa [userHits, if_neg (of_decide_eq_false (hspams hfit').symm), List.nil_append] at hleft
    | true =>
      have hhits (hfit' : Fit batch) : (detections trace ++
          [(chat, user.1, user.2.map Prod.fst)] ++ rest).Perm (hits batch) := by
        have hleft := h.2 hfit'
        rwa [userHits, if_pos (of_decide_eq_true (hspams hfit').symm),
          ← List.append_assoc] at hleft
      refine ⟨⟨batch, h.1, fun hfit' => ?_⟩,
        fun outcome => ⟨rfl, batchOf_append h.1 _, fun hfit' => ?_⟩⟩
      · exact (List.sublist_append_left ..).subperm.trans (hhits hfit').subperm
      · dsimp only [tracing]
        rw [detections_append]
        exact hhits hfit'

theorem detectUsers_meets (chat : ChatId) {users : List (UserId × List Entry)}
    (hfit : Fit batch → total users < 2 ^ 31 ∧ ∀ user ∈ users, user.2 ≠ [])
    (h : Left batch trace (chatHits chat users ++ rest)) :
    (detectUsers chat users).Meets (tracing Allows) (Advances batch rest)
      (.consumeAndDetect, trace) := by
  unfold detectUsers
  cases hcount : accumulate users with
  | none =>
    refine ⟨rfl, h.1, fun hfit' => ?_⟩
    rw [accumulate_eq (hfit hfit').1] at hcount
    cases hcount
  | some count =>
    have htotal (hfit' : Fit batch) : sSpamDetectThreshold ≤ count ↔ 5 ≤ total users := by
      rw [accumulate_eq (hfit hfit').1, Option.some.injEq] at hcount
      rw [← hcount]
      exact Int.ofNat_le
    change Program.Meets _ _
      (if sSpamDetectThreshold ≤ count then users.forM (detectUser chat) else pure ()) _
    by_cases hreached : sSpamDetectThreshold ≤ count
    · rw [if_pos hreached]
      have hround (user : UserId × List Entry) (huser : user ∈ users) (hfit' : Fit batch) :
          user.2 ≠ [] ∧ user.2.length < 2 ^ 31 := by
        obtain ⟨hlt, hne⟩ := hfit hfit'
        exact ⟨hne user huser, Nat.lt_of_le_of_lt (length_le_total huser) hlt⟩
      refine forM_meets (fun user huser trace rest hleft =>
        detectUser_meets chat (hround user huser) hleft) ⟨h.1, fun hfit' => ?_⟩
      have hleft := h.2 hfit'
      rwa [chatHits, if_pos ((htotal hfit').mp hreached)] at hleft
    · rw [if_neg hreached]
      refine ⟨rfl, h.1, fun hfit' => ?_⟩
      have hleft := h.2 hfit'
      rwa [chatHits, if_neg (mt (htotal hfit').mpr hreached), List.nil_append] at hleft

theorem chatHits_perm (chat : ChatId) {users order : List (UserId × List Entry)}
    (h : order.Perm users) : (chatHits chat order).Perm (chatHits chat users) := by
  rw [chatHits, chatHits, total_perm h]
  split
  · exact h.flatMap_right _
  · exact .refl _

theorem detectChat_meets {chat : ChatId × UserMessagesMap} (hchat : chat ∈ batch.members)
    (h : Left batch trace (chatHits chat.1 chat.2.members ++ rest)) :
    (detectChat chat).Meets (tracing Allows) (Advances batch rest)
      (.consumeAndDetect, trace) := by
  refine ⟨Option.isSome_iff_exists.mpr ⟨batch, h.1⟩, fun ⟨order, horder⟩ =>
    detectUsers_meets chat.1 (fun hfit => ⟨?_, fun user huser => ?_⟩) ?_⟩
  · rw [total_perm horder]
    exact hfit.1 chat hchat
  · exact hfit.2 chat hchat user (horder.mem_iff.mp huser)
  · have hafter := h.append (x := ⟨.users chat.2, ⟨order, horder⟩⟩) rfl
    exact ⟨hafter.1, fun hfit =>
      (((chatHits_perm chat.1 horder).append_right rest).append_left _).trans (hafter.2 hfit)⟩

theorem consumeAndDetect_meets :
    consumeAndDetect.Meets (tracing Allows) (fun m => Post m.1 m.2) (.consumeAndDetect, []) := by
  refine ⟨rfl, fun batch => ⟨rfl, fun ⟨order, horder⟩ => ?_⟩⟩
  have hleft : Left batch [⟨.swap, batch⟩, ⟨.chats batch, ⟨order, horder⟩⟩]
      (order.flatMap (fun chat => chatHits chat.1 chat.2.members) ++ []) := by
    refine ⟨rfl, fun _ => ?_⟩
    rw [List.append_nil]
    exact horder.flatMap_right _
  refine Program.Meets.mono ?_ (forM_meets (fun chat hchat trace rest hleft =>
    detectChat_meets (horder.mem_iff.mp hchat) hleft) hleft)
  rintro ⟨call, trace⟩ (e | u) ⟨rfl, hafter⟩
  · exact ⟨batch, hafter⟩
  · refine ⟨batch, hafter.1, fun hfit => ?_⟩
    rw [← List.append_nil (detections trace)]
    exact hafter.2 hfit

theorem setConfig_meets (config : Config) :
    (setConfig config).Meets (tracing Allows) (fun m => Post m.1 m.2) (.setConfig config, []) :=
  ⟨rfl, fun _ => rfl⟩

theorem accepted_of_none {message : Option Message} (h : eligible message = none)
    (trace : Trace Op Op.Answer) : [] = accepted message trace := by
  rw [accepted, h]
  split <;> rfl

theorem addMessage_meets (message : Option Message) :
    (addMessage message).Meets (tracing Allows) (fun m => Post m.1 m.2)
      (.addMessage message, []) := by
  refine ⟨rfl, fun config => ?_⟩
  by_cases hconfig : config = .OFF
  · subst hconfig
    exact rfl
  · change Program.Meets _ _ (Program.bind _ (Program.pure config)) _
    simp only [Program.bind, ne_eq, hconfig, not_false_eq_true, if_true]
    cases message with
    | none => exact accepted_of_none rfl _
    | some message =>
      cases hchat : message.chat with
      | none =>
        have helig : eligible (some message) = none := by simp [eligible, hchat]
        simp only [hchat]
        exact accepted_of_none helig _
      | some chatId =>
        cases hfrom : message.from_ with
        | none =>
          have helig : eligible (some message) = none := by simp [eligible, hchat, hfrom]
          simp only [hchat, hfrom]
          exact accepted_of_none helig _
        | some userId =>
          have helig : eligible (some message) = if message.Cared then
              some (chatId, userId, (message.messageId, message.data)) else none := by
            simp [eligible, hchat, hfrom]
          simp only [hchat, hfrom]
          refine ⟨rfl, fun skipped => ?_⟩
          have hrefuses : ([⟨.getConfig, config⟩, ⟨.shouldBeSkipped message, skipped⟩] :
              Trace Op Op.Answer).any refuses = skipped := by
            simp [refuses, hconfig]
          change Program.Meets _ _ (Program.bind _ (Program.pure skipped)) _
          simp only [Program.bind]
          by_cases hrecorded : ¬ skipped = true ∧ message.Cared
          · obtain ⟨hskipped, hcared⟩ := hrecorded
            rw [if_pos ⟨hskipped, hcared⟩]
            rw [if_pos hcared] at helig
            have haccepted (rest : Trace Op Op.Answer) (hrest : rest.any refuses = false) :
                accepted (some message) ([⟨.getConfig, config⟩,
                  ⟨.shouldBeSkipped message, skipped⟩] ++ rest) =
                [(chatId, userId, (message.messageId, message.data))] := by
              rw [accepted, List.any_append, hrefuses, hrest, helig,
                Bool.eq_false_of_not_eq_true hskipped]
              rfl
            exact ⟨⟨rfl, haccepted [] rfl⟩, fun count => ⟨trivial, fun _ =>
              (haccepted [⟨.record chatId userId (message.messageId, message.data), count⟩,
                ⟨.onMessageAdded count, ()⟩] rfl).symm⟩⟩
          · rw [if_neg hrecorded]
            change [] = accepted (some message) _
            rw [accepted, helig]
            split
            · rfl
            · next hnone =>
              have hskipped : ¬ skipped = true := fun heq => hnone (hrefuses.trans heq)
              rw [if_neg fun hcared => hrecorded ⟨hskipped, hcared⟩]
              rfl

theorem governs : discipline.Governs system := by
  intro call
  cases call with
  | addMessage message => exact addMessage_meets message
  | consumeAndDetect => exact consumeAndDetect_meets
  | setConfig config => exact setConfig_meets config

end Conduct

end Glider.SpamBlock

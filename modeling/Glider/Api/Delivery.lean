import Glider.Api.KeyedRateLimit
import Glider.Api.MessageExt
import Glider.Db.Auth
import Glider.Exec.Async

namespace Glider.Api

open Lib
open Bytes (ascii)
open Db (AccessLevel AuthResult DatabaseBase User)
open Exec (Async)

inductive MessageAgePolicy where
  | RequireFresh
  | AuthenticatedInternal
  deriving DecidableEq

-- A message as Telegram hands it over. Its date is in seconds, and the pointer to its sender may be
-- null.
structure Update where
  message : Message
  date : ℤ
  sender : Option (Option User)
  chat : ℤ

def kMaxTimestampDelay : ℤ := 10

-- The system clock counts nanoseconds.
def isUnderTimeLimit (now time : ℤ) : Bool :=
  now - time * 1000000000 ≤ kMaxTimestampDelay * 1000000000

-- The counts whose bits are set, in ascending order.
def fromArgCountMask (mask : Int32) : List ℕ :=
  (List.range 31).filter fun i => mask &&& (1 <<< Int32.ofNat i) ≠ 0

-- The mask of a module is one that `craftArgCountMask` makes, or 0.
structure ValidArgs where
  enabled : Bool
  counts : Int32
  split_type : SplitMessageText
  usage : Bytes
  crafted : counts = 0 ∨ fromArgCountMask counts ≠ []

structure Info where
  flags : Int32
  valid_args : ValidArgs

namespace Info

def isOwnerOnly (info : Info) : Bool := info.flags &&& 4 ≠ 0

def isPrivileged (info : Info) : Bool := info.flags &&& 1 ≠ 0 ∨ info.isOwnerOnly

def accessLevel (info : Info) : AccessLevel :=
  if info.isOwnerOnly then .Owner else if info.isPrivileged then .AdminUser else .User

end Info

-- The listener of a command is registered with the level of its module, and again when the module
-- is replaced.
structure Module where
  info : Info
  isLoaded : Bool
  acceptingExecutions : Bool
  listener : Bool

-- `none` if the arguments are valid, else the reply.
def validateValidArgs (valid_args : ValidArgs) (args : List Bytes) : Option Bytes :=
  if ¬valid_args.enabled ∨ valid_args.counts = 0 then none
  else
    let valid_argc := fromArgCountMask valid_args.counts
    let in_args_size := (Int32.ofNat args.length).toInt
    if valid_argc.any fun i => i = in_args_size then none
    else
      let expected :=
        if in_args_size < valid_argc.headD 0 then
          ascii "at least " ++ Decimal.digits (valid_argc.headD 0)
        else if in_args_size > valid_argc.getLastD 0 then
          ascii "at most " ++ Decimal.digits (valid_argc.getLastD 0)
        else ascii "one of " ++ (ascii ",").intercalate (valid_argc.map Decimal.digits)
      let strings := [ascii "Invalid number of arguments. Expected", expected,
        ascii "arguments. But got " ++ Decimal.digits args.length ++ ascii "."]
      some ((ascii " ").intercalate
        (if valid_args.usage = [] then strings
          else strings ++ [ascii "Usage: " ++ valid_args.usage]))

inductive Prepared where
  | threw
  | refused (reply : Option Bytes)
  | prepared (ext : Parsed)

-- Two commands in three seconds.
def commandLimiter : IntervalRateLimiter := ⟨2, 3000000000⟩

structure Bot (σ : Type) where
  database : σ
  handles : String → Option Module
  commandAsync : Async Update
  rateLimiter : KeyedState
  replies : List (Update × Bytes)
  feedback : List (String × Update)

-- `systemNow` and `now` are what the two clocks show. Beside the deliveries workers take tasks and
-- finish them, commands are invoked, lists change, and modules come and go.
inductive Event (σ : Type) where
  | update (cmd : String) (message : Update) (systemNow : ℤ) (now : ℕ)
  | others (database : σ) (handles : String → Option Module) (commandAsync : Async Update)

section Delivery

variable {σ : Type} (absl : Absl) (impl : DatabaseBase σ) (username : Bytes)

def isAuthorized (message : Update) (flags : AccessLevel) (agePolicy : MessageAgePolicy) (now : ℤ)
    (s : σ) : AuthResult × σ :=
  if agePolicy = .RequireFresh ∧ ¬isUnderTimeLimit now message.date then
    (.make false .MessageTooOld, s)
  else
    match message.sender with
    | some (some user) => Db.isAuthorized impl (some user) flags s
    | _ => (.make false .Unknown, s)

def isMyCommand (ext : Parsed) : Bool :=
  let target := (ext.command.map BotCommand.target).getD []
  target = username ∨ target = []

def prepareCommand (authflags : AccessLevel) (module : Module) (message : Update)
    (agePolicy : MessageAgePolicy) (now : ℤ) (s : σ) : Prepared × σ :=
  if ¬module.isLoaded then (.refused none, s)
  else
    let valid_args := module.info.valid_args
    let how := if valid_args.enabled then valid_args.split_type else .None
    match construct absl (some message.message) how with
    | none => (.threw, s)
    | some (.mk ext _ _) =>
      if ¬isMyCommand username ext then (.refused none, s)
      else
        let (authRet, s) := isAuthorized impl message authflags agePolicy now s
        if ¬authRet.authorized then (.refused none, s)
        else
          match validateValidArgs valid_args ext.arguments with
          | some reply => (.refused (some reply), s)
          | none => (.prepared ext, s)

def rlKey (message : Update) : ℤ :=
  match message.sender with
  | some (some user) => user.id
  | _ => message.chat

-- What the listener makes of a command that is prepared. The limiter is asked under the lock of the
-- queue, if there is room.
def enqueue (b : Bot σ) (cmd : String) (message : Update) (now : ℕ) : Bot σ :=
  let (rateResult, rateLimiter) :=
    checkWithStatus commandLimiter b.rateLimiter ⟨now, rlKey message⟩
  let (attempt, commandAsync) :=
    b.commandAsync.emplaceTaskIf cmd message (.returns rateResult.admits)
  { b with
    commandAsync := commandAsync
    rateLimiter := if attempt.evaluated then rateLimiter else b.rateLimiter
    feedback := if attempt.result = some .Rejected ∧ rateResult = .limited then
      b.feedback ++ [(cmd, message)] else b.feedback }

def onCommand (b : Bot σ) (cmd : String) (message : Update) (systemNow : ℤ) (now : ℕ) : Bot σ :=
  match b.handles cmd with
  | none => b
  | some module =>
    if ¬module.listener ∨ ¬module.acceptingExecutions then b
    else
      match prepareCommand absl impl username module.info.accessLevel module message .RequireFresh
          systemNow b.database with
      | (.threw, s) => { b with database := s }
      | (.refused reply, s) =>
        { b with database := s, replies := b.replies ++ reply.toList.map (message, ·) }
      | (.prepared _, s) => enqueue { b with database := s } cmd message now

def act (b : Bot σ) : Event σ → Bot σ
  | .update cmd message systemNow now => onCommand absl impl username b cmd message systemNow now
  | .others database handles commandAsync =>
    { b with database := database, handles := handles, commandAsync := commandAsync }

-- The events are listed newest first.
def after (start : Bot σ) : List (Event σ) → Bot σ
  | [] => start
  | event :: older => act absl impl username (after start older) event

end Delivery

section Spec

variable {σ : Type} (absl : Absl) (impl : DatabaseBase σ) (username : Bytes)

-- A command that finds its module, that the module answers to, and that is prepared.
def Admissible (b : Bot σ) (cmd : String) (message : Update) (now : ℤ) : Prop :=
  ∃ module, b.handles cmd = some module ∧
    (module.listener = true ∧ module.acceptingExecutions = true) ∧
    ∃ ext s, prepareCommand absl impl username module.info.accessLevel module message .RequireFresh
      now b.database = (.prepared ext, s)

-- The commands of a key that came to the queue in a window.
def deliveredTo (start : Bot σ) (key : ℤ) (window : ℕ) : List (Event σ) → ℕ
  | [] => 0
  | .update cmd message systemNow now :: older =>
    let b := after absl impl username start older
    deliveredTo start key window older +
      if rlKey message = key ∧ now / commandLimiter.interval = window ∧
        (onCommand absl impl username b cmd message systemNow now).commandAsync.tasks.length =
          b.commandAsync.tasks.length + 1 then 1 else 0
  | _ :: older => deliveredTo start key window older

def clock : Event σ → Option ℕ
  | .update _ _ _ now => some now
  | _ => none

-- The steady clock does not go back, and its windows have numbers of 32 bits.
structure Clocked (history : List (Event σ)) : Prop where
  sorted : (history.filterMap clock).Pairwise fun newer older => older ≤ newer
  spans : ∀ first ∈ history.filterMap clock, ∀ last ∈ history.filterMap clock,
    last / commandLimiter.interval < first / commandLimiter.interval + 2 ^ 32

end Spec

section Steps

variable {σ : Type} {absl : Absl} {impl : DatabaseBase σ} {username : Bytes} {b : Bot σ}

theorem onCommand_cases (b : Bot σ) (cmd : String) (message : Update) (systemNow : ℤ) (now : ℕ) :
    (Admissible absl impl username b cmd message systemNow ∧ ∃ s,
      onCommand absl impl username b cmd message systemNow now =
        enqueue { b with database := s } cmd message now) ∨
    (¬Admissible absl impl username b cmd message systemNow ∧ ∃ s replies,
      onCommand absl impl username b cmd message systemNow now =
        { b with database := s, replies := replies }) := by
  have hself : b = { b with database := b.database, replies := b.replies } := rfl
  unfold onCommand
  cases hhandle : b.handles cmd with
  | none =>
    refine .inr ⟨?_, _, _, hself⟩
    rintro ⟨module, hmodule, -⟩
    cases hhandle.symm.trans hmodule
  | some module =>
    have hsame {module' : Module} (h : b.handles cmd = some module') : module' = module :=
      Option.some.inj (h.symm.trans hhandle)
    dsimp only
    by_cases hanswers : module.listener = true ∧ module.acceptingExecutions = true
    swap
    · rw [if_pos (not_and_or.mp hanswers)]
      refine .inr ⟨?_, _, _, hself⟩
      rintro ⟨module', hmodule, hmodule', -⟩
      exact hanswers (hsame hmodule ▸ hmodule')
    rw [if_neg (not_or.mpr ⟨not_not.mpr hanswers.1, not_not.mpr hanswers.2⟩)]
    cases hprepare : prepareCommand absl impl username module.info.accessLevel module message
        .RequireFresh systemNow b.database with
    | mk prepared s =>
      have hnot (hne : ∀ ext, prepared ≠ .prepared ext) :
          ¬Admissible absl impl username b cmd message systemNow := by
        rintro ⟨module', hmodule, -, ext, s', hprepared⟩
        rw [hsame hmodule, hprepare] at hprepared
        exact hne ext (Prod.mk.inj hprepared).1
      cases prepared with
      | threw => exact .inr ⟨hnot (fun _ h => by cases h), s, b.replies, rfl⟩
      | refused reply => exact .inr ⟨hnot (fun _ h => by cases h), s, _, rfl⟩
      | prepared ext => exact .inl ⟨⟨module, hhandle, hanswers, ext, s, hprepare⟩, s, rfl⟩

theorem enqueue_of_refuses {cmd : String} (h : b.commandAsync.refuses cmd = true)
    (message : Update) (now : ℕ) : enqueue b cmd message now = b := by
  simp [enqueue, Async.emplaceTaskIf, h]

theorem enqueue_of_room {cmd : String} (h : b.commandAsync.refuses cmd = false)
    (message : Update) (now : ℕ) :
    let checked := checkWithStatus commandLimiter b.rateLimiter ⟨now, rlKey message⟩
    ∃ feedback, enqueue b cmd message now =
      { b with
        commandAsync :=
          if checked.1.admits then b.commandAsync.push cmd message else b.commandAsync
        rateLimiter := checked.2
        feedback := feedback } := by
  intro checked
  cases hadmits : checked.1.admits with
  | true | false => exact ⟨_, by simp only [enqueue, Async.emplaceTaskIf, h]; rw [hadmits]; rfl⟩

-- The limiter is asked by commands that are admissible and find room, and by no others.
theorem onCommand_asks {cmd : String} {message : Update} {systemNow : ℤ}
    (h : Admissible absl impl username b cmd message systemNow)
    (hroom : b.commandAsync.refuses cmd = false) (now : ℕ) :
    let checked := checkWithStatus commandLimiter b.rateLimiter ⟨now, rlKey message⟩
    let b' := onCommand absl impl username b cmd message systemNow now
    b'.rateLimiter = checked.2 ∧ b'.commandAsync =
      if checked.1.admits then b.commandAsync.push cmd message else b.commandAsync := by
  rcases onCommand_cases b cmd message systemNow now with ⟨-, s, hact⟩ | ⟨hnot, -⟩
  · obtain ⟨feedback, henqueue⟩ := enqueue_of_room (b := { b with database := s }) hroom message now
    have heq := hact.trans henqueue
    exact ⟨congrArg Bot.rateLimiter heq, congrArg Bot.commandAsync heq⟩
  · exact absurd h hnot

theorem onCommand_idle {cmd : String} {message : Update} {systemNow : ℤ}
    (h : ¬(Admissible absl impl username b cmd message systemNow ∧
      b.commandAsync.refuses cmd = false)) (now : ℕ) :
    let b' := onCommand absl impl username b cmd message systemNow now
    b'.rateLimiter = b.rateLimiter ∧ b'.commandAsync = b.commandAsync := by
  rcases onCommand_cases b cmd message systemNow now with ⟨hadmissible, s, hact⟩ | ⟨-, s, r, hact⟩
  · have hrefuses : b.commandAsync.refuses cmd = true :=
      Bool.not_eq_false _ ▸ fun hroom => h ⟨hadmissible, hroom⟩
    rw [hact, enqueue_of_refuses (b := { b with database := s }) hrefuses]
    exact ⟨rfl, rfl⟩
  · rw [hact]
    exact ⟨rfl, rfl⟩

theorem length_pushed {a : Async Update} {cmd : String} {message : Update} {admitted : Bool} :
    (if admitted then a.push cmd message else a).tasks.length = a.tasks.length + 1 ↔
      admitted = true := by
  cases admitted <;> simp

end Steps

section Runs

variable {σ : Type} {start : Bot σ}

-- What the limiter was asked in a run, and that it counts what came to the queue.
theorem requests_of_run (absl : Absl) (impl : DatabaseBase σ) (username : Bytes)
    (hstart : start.rateLimiter = ⟨.empty, 0⟩) (history : List (Event σ)) :
    ∃ requests,
      (after absl impl username start history).rateLimiter = stateAfter commandLimiter requests ∧
      (requests.map Request.time).Sublist (history.filterMap clock) ∧
      ∀ key window, admittedTo commandLimiter key window requests =
        deliveredTo absl impl username start key window history := by
  induction history with
  | nil => exact ⟨[], hstart, .slnil, fun _ _ => rfl⟩
  | cons event older ih =>
    obtain ⟨requests, hlimiter, htimes, hcount⟩ := ih
    cases event with
    | others database handles commandAsync => exact ⟨requests, hlimiter, htimes, hcount⟩
    | update cmd message systemNow now =>
      by_cases hasks : Admissible absl impl username (after absl impl username start older) cmd
          message systemNow ∧
        (after absl impl username start older).commandAsync.refuses cmd = false
      · obtain ⟨hchecked, hqueue⟩ := onCommand_asks hasks.1 hasks.2 now
        rw [hlimiter] at hchecked hqueue
        refine ⟨⟨now, rlKey message⟩ :: requests, hchecked, htimes.cons_cons now,
          fun key window => ?_⟩
        simp only [admittedTo, deliveredTo, hcount, hqueue, length_pushed]
        rfl
      · obtain ⟨hsame, hqueue⟩ := onCommand_idle hasks now
        refine ⟨requests, hsame.trans hlimiter, htimes.cons now, fun key window => ?_⟩
        rw [deliveredTo, hcount, hqueue, if_neg (by simp)]
        rfl

-- In whatever else goes on, a command comes to the queue exactly if it is admissible, finds room,
-- and is one of the first two of its sender in the window.
theorem delivered_iff (absl : Absl) (impl : DatabaseBase σ) (username : Bytes) (start : Bot σ)
    (hstart : start.rateLimiter = ⟨.empty, 0⟩) (history : List (Event σ)) (cmd : String)
    (message : Update) (systemNow : ℤ) (now : ℕ)
    (hclock : Clocked (.update cmd message systemNow now :: history)) :
    let b := after absl impl username start history
    (onCommand absl impl username b cmd message systemNow now).commandAsync.tasks.length =
        b.commandAsync.tasks.length + 1 ↔
      Admissible absl impl username b cmd message systemNow ∧
        b.commandAsync.refuses cmd = false ∧
        deliveredTo absl impl username start (rlKey message) (now / commandLimiter.interval)
          history < 2 := by
  intro b
  obtain ⟨requests, hlimiter, htimes, hcount⟩ :=
    requests_of_run absl impl username hstart history
  have hall := htimes.cons_cons now
  have hsorted : ((⟨now, rlKey message⟩ :: requests).map Request.time).Pairwise
      fun newer older => older ≤ newer := hclock.sorted.sublist hall
  have hnear : Near commandLimiter (⟨now, rlKey message⟩ :: requests) :=
    ⟨List.pairwise_map.mp hsorted, fun first hfirst last hlast =>
      hclock.spans _ (hall.subset (List.mem_map_of_mem hfirst)) _
        (hall.subset (List.mem_map_of_mem hlast))⟩
  have hadmits := admits_iff commandLimiter ⟨now, rlKey message⟩ requests (by decide) (by decide)
    hnear
  rw [← and_assoc]
  by_cases hasks : Admissible absl impl username b cmd message systemNow ∧
      b.commandAsync.refuses cmd = false
  · have hqueue := (onCommand_asks hasks.1 hasks.2 now).2
    rw [hqueue, length_pushed, hlimiter, and_iff_right hasks, ← hcount]
    exact hadmits
  · rw [(onCommand_idle hasks now).2]
    exact iff_of_false (by omega) fun h => hasks h.1

end Runs

section Sample

def ping : Update := ⟨.mk (some (ascii "ping")) none none, 100, some (some ⟨7, false⟩), 7⟩

def pingModule : Module := ⟨⟨0, ⟨false, 0, .None, [], .inl rfl⟩⟩, true, true, true⟩

def pingBot : Bot Db.Sqlite.Conn :=
  ⟨Db.blacklistConn 1000, fun _ => some pingModule, .create 32, ⟨.empty, 0⟩, [], []⟩

theorem prepareCommand_ping (c : Db.Sqlite.Conn)
    (h : (Db.isAuthorized Db.Sqlite.database (some ⟨7, false⟩) .User c).1.authorized = true) :
    (prepareCommand Absl.reference Db.Sqlite.database [] .User pingModule ping .RequireFresh
        100000000000 c) =
      (.prepared ⟨none, ascii "ping", [ascii "ping"]⟩,
        (Db.isAuthorized Db.Sqlite.database (some ⟨7, false⟩) .User c).2) := by
  have hparsed : construct Absl.reference (some ping.message) .None =
      some (.mk ⟨none, ascii "ping", [ascii "ping"]⟩ (some ping.message)
        (some (.mk ⟨none, [], []⟩ none none))) := by
    rw [ping, construct, construct]
    rfl
  have hhow : (if pingModule.info.valid_args.enabled = true then
      pingModule.info.valid_args.split_type else .None) = .None := rfl
  have hauthorized : isAuthorized Db.Sqlite.database ping .User .RequireFresh 100000000000 c =
      Db.isAuthorized Db.Sqlite.database (some ⟨7, false⟩) .User c := rfl
  simp only [prepareCommand, hhow, hparsed, hauthorized, h]
  rfl

theorem onCommand_ping (b : Bot Db.Sqlite.Conn) (hhandles : b.handles "ping" = some pingModule)
    (h : (Db.isAuthorized Db.Sqlite.database (some ⟨7, false⟩) .User b.database).1.authorized = true)
    (now : ℕ) :
    onCommand Absl.reference Db.Sqlite.database [] b "ping" ping 100000000000 now =
      enqueue { b with
        database := (Db.isAuthorized Db.Sqlite.database (some ⟨7, false⟩) .User b.database).2 }
        "ping" ping now := by
  rw [onCommand, hhandles]
  simp only [show pingModule.info.accessLevel = .User from rfl, prepareCommand_ping _ h]
  rfl

-- Two commands have come to the queue, and the workers are done with them.
def pinged : List (Event Db.Sqlite.Conn) :=
  [.others pingBot.database pingBot.handles (.create 32), .update "ping" ping 100000000000 2,
    .update "ping" ping 100000000000 1]

-- A third one in the same window is dropped, and the first of the next window is not.
theorem delivered_iff_ping :
    let b := after Absl.reference Db.Sqlite.database [] pingBot pinged
    (onCommand Absl.reference Db.Sqlite.database [] b "ping" ping 100000000000
        3).commandAsync.tasks.length ≠ 1 ∧
      (onCommand Absl.reference Db.Sqlite.database [] b "ping" ping 100000000000
        3000000000).commandAsync.tasks.length = 1 := by
  have hfirst := onCommand_ping pingBot rfl rfl 1
  have hsecond := onCommand_ping (enqueue { pingBot with
    database := (Db.isAuthorized Db.Sqlite.database (some ⟨7, false⟩) .User pingBot.database).2 }
    "ping" ping 1) rfl rfl 2
  have hsame : deliveredTo Absl.reference Db.Sqlite.database [] pingBot (rlKey ping)
      (3 / commandLimiter.interval) pinged = 2 := by
    simp only [pinged, deliveredTo, after, act, hfirst, hsecond]
    decide
  have hnext : deliveredTo Absl.reference Db.Sqlite.database [] pingBot (rlKey ping)
      (3000000000 / commandLimiter.interval) pinged = 0 := by
    simp only [pinged, deliveredTo, after, act, hfirst, hsecond]
    decide
  have hauthorized : (Db.isAuthorized Db.Sqlite.database (some ⟨7, false⟩) .User
      (after Absl.reference Db.Sqlite.database [] pingBot pinged).database).1.authorized = true :=
    rfl
  constructor
  · rw [← Nat.zero_add 1]
    refine mt (delivered_iff Absl.reference Db.Sqlite.database [] pingBot rfl pinged "ping" ping
      100000000000 3 ⟨by decide, by decide⟩).mp fun h => ?_
    rw [hsame] at h
    exact absurd h.2.2 (by decide)
  · refine (delivered_iff Absl.reference Db.Sqlite.database [] pingBot rfl pinged "ping" ping
      100000000000 3000000000 ⟨by decide, by decide⟩).mpr ⟨?_, by decide, ?_⟩
    · exact ⟨pingModule, rfl, ⟨rfl, rfl⟩, _, _, prepareCommand_ping _ hauthorized⟩
    · rw [hnext]
      decide

end Sample

end Glider.Api

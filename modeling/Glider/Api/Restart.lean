import Glider.Api.MessageExt
import Glider.Lib.Environ
import Mathlib.Logic.Relation

namespace Glider.Api.RestartFmt

open Lib
open Bytes (ascii)
open Decimal (isSpace stoll behind ofInt width)

def ENV_VAR_NAME : Bytes := ascii "RESTART"

-- `sizeof` counts the zero at the end of a literal; `digits10` of a 32-bit number is 9.
def MAX_KNOWN_LENGTH : ℕ :=
  (ascii "RESTART=-00000000000:").length + 1 + 9 + ((ascii ":").length + 1) + 9

structure DataType where
  chatId : Int64
  messageId : Int32
  messageThreadId : Int32
  deriving DecidableEq

-- What is read of a message here. Not every message stands in a thread.
structure Message where
  chatId : Int64
  messageId : Int32
  messageThreadId : Option Int32

def DataType.ofMessage (message : Message) : DataType where
  chatId := message.chatId
  messageId := message.messageId
  messageThreadId := message.messageThreadId.getD 0

def DataType.toString (t : DataType) : Bytes :=
  ofInt t.chatId.toInt ++ 58 :: (ofInt t.messageId.toInt ++ 58 :: ofInt t.messageThreadId.toInt)

-- A number of a type with the values from `lo` to `hi` is read, and nothing but blanks behind it.
def tryParse (lo hi : ℤ) (str : Bytes) : Option ℤ :=
  let ss := str.cstr
  let unused := (behind ss).dropWhile isSpace
  (stoll ss).filter fun temp => lo ≤ temp ∧ temp ≤ hi ∧ unused = []

section Parse

variable (absl : Absl)

-- `none` is the exception for a malformed value.
def DataType.parse (string : Bytes) : Option DataType := do
  match (absl.strSplit string 58).filter (· ≠ []) with
  | [chat, message, thread] =>
    let chatId ← tryParse (-2 ^ 63) (2 ^ 63 - 1) chat
    let messageId ← tryParse (-2 ^ 31) (2 ^ 31 - 1) message
    let messageThreadId ← tryParse (-2 ^ 31) (2 ^ 31 - 1) thread
    some ⟨.ofInt chatId, .ofInt messageId, .ofInt messageThreadId⟩
  | _ => none

-- `value` is what the environment has under the name.
def isRestartedByThisMessage (value : Option Bytes) (message : Message) : Option Bool :=
  match value with
  | none => some false
  | some value => do
    let t ← DataType.parse absl value
    some (DataType.ofMessage message = t)

def restartEnv (t : DataType) : Bytes := ENV_VAR_NAME ++ 61 :: t.toString

theorem tryParse_ofInt {lo hi n : ℤ} (hlo : lo ≤ n) (hhi : n ≤ hi) (hmin : -2 ^ 63 ≤ lo)
    (hmax : hi < 2 ^ 63) : tryParse lo hi (ofInt n) = some n := by
  have hread : stoll (ofInt n) = some n :=
    Decimal.stoll_ofInt (hmin.trans hlo) (hhi.trans_lt hmax)
  rw [tryParse, Bytes.cstr_of_nulFree (Decimal.nulFree_ofInt n)]
  simp only [hread, Decimal.behind_ofInt, Option.filter_some]
  exact if_pos (decide_eq_true ⟨hlo, hhi, rfl⟩)

theorem not_colon_mem_ofInt (n : ℤ) : 58 ∉ ofInt n := fun h =>
  absurd (Decimal.mem_ofInt h) (by decide)

theorem split_toString {absl : Absl} (h : absl.Documented) (t : DataType) :
    absl.strSplit t.toString 58 =
      [ofInt t.chatId.toInt, ofInt t.messageId.toInt, ofInt t.messageThreadId.toInt] := by
  rw [Absl.strSplit_eq h, DataType.toString,
    List.splitOn_append_cons_self_of_not_mem (not_colon_mem_ofInt _),
    List.splitOn_append_cons_self_of_not_mem (not_colon_mem_ofInt _),
    List.splitOn_eq_singleton (not_colon_mem_ofInt _)]

-- None of the three parts is empty, so that the splitter finds them all.
theorem parse_toString {absl : Absl} (h : absl.Documented) (t : DataType) :
    DataType.parse absl t.toString = some t := by
  have hchat : tryParse (-2 ^ 63) (2 ^ 63 - 1) (ofInt t.chatId.toInt) = some t.chatId.toInt :=
    tryParse_ofInt t.chatId.le_toInt (Int.le_sub_one_of_lt t.chatId.toInt_lt) (le_refl _)
      (by norm_num)
  have hthirtyTwo : ∀ n : Int32,
      tryParse (-2 ^ 31) (2 ^ 31 - 1) (ofInt n.toInt) = some n.toInt := fun n =>
    tryParse_ofInt n.le_toInt (Int.le_sub_one_of_lt n.toInt_lt) (by norm_num) (by norm_num)
  have hfilter : (absl.strSplit t.toString 58).filter (· ≠ []) =
      [ofInt t.chatId.toInt, ofInt t.messageId.toInt, ofInt t.messageThreadId.toInt] := by
    rw [split_toString h, List.filter_eq_self]
    intro part hpart
    simp only [List.mem_cons, List.not_mem_nil, or_false] at hpart
    rcases hpart with rfl | rfl | rfl <;> exact decide_eq_true (Decimal.ofInt_ne_nil _)
  rw [DataType.parse, hfilter]
  simp only [hchat, hthirtyTwo, Option.bind_eq_bind, Option.bind_some, Int64.ofInt_toInt,
    Int32.ofInt_toInt]

end Parse

section Length

variable (t : DataType)

-- The characters that the three numbers are written with.
def DataType.width : ℕ :=
  Decimal.width t.chatId.toInt + Decimal.width t.messageId.toInt +
    Decimal.width t.messageThreadId.toInt

theorem length_toString : t.toString.length = t.width + 2 := by
  rw [DataType.toString, DataType.width, List.length_append, List.length_cons, List.length_append,
    List.length_cons, Decimal.length_ofInt, Decimal.length_ofInt, Decimal.length_ofInt]
  omega

theorem fits_iff : (restartEnv t).length < MAX_KNOWN_LENGTH ↔ t.width ≤ 31 := by
  have hname : ENV_VAR_NAME.length = 7 := by decide
  have hmax : MAX_KNOWN_LENGTH = 42 := by decide
  rw [restartEnv, List.length_append, List.length_cons, length_toString, hname, hmax]
  omega

theorem nulFree_toString : t.toString.NulFree := by
  have hcolon : (0 : UInt8) ≠ 58 := by decide
  apply (Decimal.nulFree_ofInt _).append
  apply Bytes.NulFree.cons hcolon
  apply (Decimal.nulFree_ofInt _).append
  exact .cons hcolon (Decimal.nulFree_ofInt _)

theorem nulFree_restartEnv : (restartEnv t).NulFree := by
  have hname : ENV_VAR_NAME.NulFree := by decide
  exact hname.append (.cons (by decide) (nulFree_toString t))

end Length

end Glider.Api.RestartFmt

namespace Glider.Api.Restart

open Lib RestartFmt
open Bytes (ascii)
open Relation (ReflTransGen)

-- The command with the message it came in.
structure RestartMessage where
  message : RestartFmt.Message
  botCommand : Option BotCommand

-- What the command asks the bot for. A reply that is not sent is an exception.
structure TgBotApiImpl where
  authorized : RestartMessage → Bool
  username : Bytes
  argv : List CString
  sendReplyMessage : RestartMessage → Bool

inductive Outcome
  | returned
  | threw
  -- the `CHECK`
  | aborted
  | execve (argv : List CString) (envp : List (Option CString))

def isMyCommand (api : TgBotApiImpl) (message : RestartMessage) : Bool :=
  let target := (message.botCommand.map BotCommand.target).getD []
  target = api.username ∨ target = []

def isRestartEntry (env : Option CString) : Bool :=
  env.elim false fun env => ENV_VAR_NAME <+: env.bytes

-- The pointers without the entries that are there already, and the place of the first null.
def removeExisting (myEnviron : List (Option CString)) (count : ℕ) : List (Option CString) × ℕ :=
  let kept := myEnviron.filter fun env => !isRestartEntry env
  if myEnviron.length - kept.length ≠ 0 then (kept, kept.length - 2) else (myEnviron, count)

def newEnviron (environ : Environ) (restartBuf : Bytes) : List (Option CString) :=
  let removed := removeExisting (environ.map some ++ [none, none]) environ.length
  (removed.1.set removed.2 (some (.ofBuffer restartBuf))).set (removed.2 + 1) none

section Command

variable (absl : Absl) (api : TgBotApiImpl) (environ : Environ) (message : RestartMessage)

def commandFunction : Outcome :=
  if ¬api.authorized message then .returned
  else if ¬isMyCommand api message then .returned
  else
    match isRestartedByThisMessage absl (Environ.getenv environ ENV_VAR_NAME) message.message with
    | none => .threw
    | some true => .returned
    | some false =>
      let env := restartEnv (.ofMessage message.message)
      if env.length < MAX_KNOWN_LENGTH then
        let restartBuf := strncpy (List.replicate MAX_KNOWN_LENGTH 0) env env.length
        if api.sendReplyMessage message then .execve api.argv (newEnviron environ restartBuf)
        else .threw
      else .aborted

-- The command of somebody who may give it to this bot, and that did not start the bot.
structure Requested : Prop where
  authorized : api.authorized message = true
  mine : isMyCommand api message = true
  notRestarted : isRestartedByThisMessage absl (Environ.getenv environ ENV_VAR_NAME)
    message.message = some false

def restartEntry (t : DataType) : CString := ⟨restartEnv t, nulFree_restartEnv t⟩

-- The entries of other variables.
def others : Environ := environ.filter fun env => Environ.nameOf env ≠ ENV_VAR_NAME

-- The entries that the command leaves.
def kept : Environ := environ.filter fun env => !isRestartEntry (some env)

variable {absl api environ message}

theorem removeExisting_eq :
    removeExisting (environ.map some ++ [none, none]) environ.length =
      ((kept environ).map some ++ [none, none], (kept environ).length) := by
  have hfilter : (environ.map some ++ [none, none]).filter (fun env => !isRestartEntry env) =
      (kept environ).map some ++ [none, none] := by
    rw [List.filter_append, List.filter_map]
    rfl
  rw [removeExisting, hfilter]
  simp only [List.length_append, List.length_map, List.length_cons, List.length_nil]
  split
  · rfl
  · next hnone =>
    have hle : (kept environ).length ≤ environ.length := List.length_filter_le _ _
    have hlength : (kept environ).length = environ.length := by omega
    have hself : kept environ = environ :=
      List.filter_eq_self.mpr (List.length_filter_eq_length_iff.mp hlength)
    rw [hself]

theorem newEnviron_eq {restartBuf : Bytes} {entry : CString} (h : restartBuf.cstr = entry.bytes) :
    newEnviron environ restartBuf = Environ.toArray (kept environ ++ [entry]) := by
  rw [newEnviron, removeExisting_eq, CString.ofBuffer_eq h, Environ.toArray]
  have hlength : ((kept environ).map some).length = (kept environ).length := List.length_map _
  dsimp only
  rw [← hlength, List.set_append_right _ _ (le_refl _), Nat.sub_self, List.set_cons_zero,
    List.set_append_right _ _ (Nat.le_succ _), Nat.succ_sub (le_refl _), Nat.sub_self,
    List.map_append, List.append_assoc]
  rfl

theorem commandFunction_of_requested (h : Requested absl api environ message) :
    commandFunction absl api environ message =
      if (DataType.ofMessage message.message).width ≤ 31 then
        if api.sendReplyMessage message then
          .execve api.argv (Environ.toArray
            (kept environ ++ [restartEntry (.ofMessage message.message)]))
        else .threw
      else .aborted := by
  rw [commandFunction, if_neg (not_not.mpr h.authorized), if_neg (not_not.mpr h.mine),
    h.notRestarted]
  dsimp only
  by_cases hfits : (restartEnv (.ofMessage message.message)).length < MAX_KNOWN_LENGTH
  · have hbuf : (strncpy (List.replicate MAX_KNOWN_LENGTH 0)
        (restartEnv (.ofMessage message.message))
        (restartEnv (.ofMessage message.message)).length).cstr =
        (restartEntry (.ofMessage message.message)).bytes :=
      cstr_strncpy (nulFree_restartEnv _) hfits
    rw [if_pos hfits, if_pos ((fits_iff _).mp hfits), newEnviron_eq hbuf]
  · rw [if_neg hfits, if_neg (mt (fits_iff _).mpr hfits)]

theorem commandFunction_of_not_requested (h : ¬Requested absl api environ message) :
    commandFunction absl api environ message = .returned ∨
      commandFunction absl api environ message = .threw := by
  rw [commandFunction]
  by_cases hauthorized : api.authorized message = true
  · rw [if_neg (not_not.mpr hauthorized)]
    by_cases hmine : isMyCommand api message = true
    · rw [if_neg (not_not.mpr hmine)]
      match hrestarted : isRestartedByThisMessage absl (Environ.getenv environ ENV_VAR_NAME)
          message.message with
      | none => exact .inr rfl
      | some true => exact .inl rfl
      | some false => exact absurd ⟨hauthorized, hmine, hrestarted⟩ h
    · exact .inl (if_pos hmine)
  · exact .inl (if_pos hauthorized)

theorem execve_iff {argv : List CString} {envp : List (Option CString)} :
    commandFunction absl api environ message = .execve argv envp ↔
      (Requested absl api environ message ∧ (DataType.ofMessage message.message).width ≤ 31 ∧
        api.sendReplyMessage message = true) ∧ argv = api.argv ∧
        envp = Environ.toArray
          (kept environ ++ [restartEntry (.ofMessage message.message)]) := by
  by_cases hrequested : Requested absl api environ message
  · rw [commandFunction_of_requested hrequested, and_iff_right hrequested]
    split
    · next hfits =>
      split
      · next hreply =>
        have hgoes : (DataType.ofMessage message.message).width ≤ 31 ∧
            api.sendReplyMessage message = true := ⟨hfits, hreply⟩
        rw [Outcome.execve.injEq, and_iff_right hgoes]
        exact and_congr eq_comm eq_comm
      · next hreply => exact iff_of_false nofun fun h => hreply h.1.2
    · next hlong => exact iff_of_false nofun fun h => hlong h.1.1
  · refine iff_of_false (fun h => ?_) fun h => hrequested h.1.1
    rcases commandFunction_of_not_requested hrequested with h' | h' <;> exact nomatch h.symm.trans h'

theorem aborted_iff :
    commandFunction absl api environ message = .aborted ↔
      Requested absl api environ message ∧ 31 < (DataType.ofMessage message.message).width := by
  by_cases hrequested : Requested absl api environ message
  · rw [commandFunction_of_requested hrequested, and_iff_right hrequested]
    split
    · next hfits =>
      refine iff_of_false ?_ (Nat.not_lt.mpr hfits)
      split <;> nofun
    · next hlong => exact iff_of_true rfl (Nat.lt_of_not_le hlong)
  · refine iff_of_false (fun h => ?_) fun h => hrequested h.1
    rcases commandFunction_of_not_requested hrequested with h' | h' <;> exact nomatch h.symm.trans h'

end Command

section Handed

variable {environ : Environ}

theorem mem_kept {env : CString} :
    env ∈ kept environ ↔ env ∈ environ ∧ ¬ENV_VAR_NAME <+: env.bytes := by
  rw [kept, List.mem_filter]
  simp [isRestartEntry]

theorem mem_others {env : CString} :
    env ∈ others environ ↔ env ∈ environ ∧ Environ.nameOf env ≠ ENV_VAR_NAME := by
  rw [others, List.mem_filter, decide_eq_true_iff]

-- An entry of the name goes. Another one goes as well if it begins like the name.
theorem kept_eq_others_iff :
    kept environ = others environ ↔
      ∀ env ∈ environ, ENV_VAR_NAME <+: env.bytes → Environ.nameOf env = ENV_VAR_NAME := by
  constructor
  · intro heq env henv hbegins
    by_contra hname
    have hkept : env ∈ kept environ := heq ▸ mem_others.mpr ⟨henv, hname⟩
    exact (mem_kept.mp hkept).2 hbegins
  · intro hall
    apply List.filter_congr
    intro env henv
    have hiff : ENV_VAR_NAME <+: env.bytes ↔ Environ.nameOf env = ENV_VAR_NAME :=
      ⟨hall env henv, Environ.prefix_of_nameOf⟩
    simp [isRestartEntry, hiff]

theorem environ_handed_on_iff (absl : Absl) (api : TgBotApiImpl) (environ : Environ)
    (message : RestartMessage) :
    (∀ argv envp, commandFunction absl api environ message = .execve argv envp →
      envp = Environ.toArray
        (others environ ++ [restartEntry (.ofMessage message.message)])) ↔
      (Requested absl api environ message ∧ (DataType.ofMessage message.message).width ≤ 31 ∧
        api.sendReplyMessage message = true →
        ∀ env ∈ environ, ENV_VAR_NAME <+: env.bytes → Environ.nameOf env = ENV_VAR_NAME) := by
  rw [← kept_eq_others_iff]
  constructor
  · intro h hgoes
    have harray := h api.argv _ (execve_iff.mpr ⟨hgoes, rfl, rfl⟩)
    have henviron := congrArg Environ.ofArray harray
    rw [Environ.ofArray_toArray, Environ.ofArray_toArray] at henviron
    exact List.append_cancel_right henviron
  · intro h argv envp hexecve
    obtain ⟨hgoes, -, rfl⟩ := execve_iff.mp hexecve
    rw [h hgoes]

theorem environ_handed_on_delay :
    ∃ api message argv envp,
      commandFunction Absl.reference api [⟨ascii "RESTART_DELAY=5", by decide⟩] message =
        .execve argv envp ∧
      envp ≠ Environ.toArray (others [⟨ascii "RESTART_DELAY=5", by decide⟩] ++
        [restartEntry (.ofMessage message.message)]) := by
  refine ⟨⟨fun _ => true, [], [], fun _ => true⟩, ⟨⟨1, 2, none⟩, none⟩, [], _,
    execve_iff.mpr ⟨⟨⟨rfl, rfl, rfl⟩, by decide, rfl⟩, rfl, rfl⟩, fun heq => ?_⟩
  exact absurd (congrArg List.length heq) (by decide)

end Handed

section Fits

-- A restart goes through for a message, and what it writes is read back, if the three numbers
-- have at most 31 characters.
theorem restart_fits_iff (absl : Absl) (h : absl.Documented) (t : DataType) :
    ((restartEnv t).length < MAX_KNOWN_LENGTH ∧
      (∀ api environ message, DataType.ofMessage message.message = t →
        commandFunction absl api environ message ≠ .aborted) ∧
      DataType.parse absl t.toString = some t) ↔ t.width ≤ 31 := by
  constructor
  · rintro ⟨hlength, -, -⟩
    exact (fits_iff t).mp hlength
  · intro hwidth
    refine ⟨(fits_iff t).mpr hwidth, ?_, parse_toString h t⟩
    rintro api environ message rfl haborted
    exact absurd hwidth (Nat.not_le.mpr (aborted_iff.mp haborted).2)

theorem restart_fits_supergroup :
    (restartEnv ⟨-1001234567890, 5, 0⟩).length < MAX_KNOWN_LENGTH ∧
      (∀ api environ message, DataType.ofMessage message.message = ⟨-1001234567890, 5, 0⟩ →
        commandFunction Absl.reference api environ message ≠ .aborted) ∧
      DataType.parse Absl.reference (DataType.toString ⟨-1001234567890, 5, 0⟩) =
        some ⟨-1001234567890, 5, 0⟩ :=
  (restart_fits_iff Absl.reference Absl.reference_documented ⟨-1001234567890, 5, 0⟩).mpr (by decide)

theorem restart_aborts_supergroup :
    ¬(restartEnv ⟨-1001234567890, 2147483647, 2147483647⟩).length < MAX_KNOWN_LENGTH ∧
      commandFunction Absl.reference ⟨fun _ => true, [], [], fun _ => true⟩ []
        ⟨⟨-1001234567890, 2147483647, some 2147483647⟩, none⟩ = .aborted := by
  constructor
  · rw [fits_iff]
    decide
  · exact aborted_iff.mpr ⟨⟨rfl, rfl, rfl⟩, by decide⟩

end Fits

section Processes

variable {absl : Absl}

-- A process gives way to one that finds the array that was handed on as its environment.
def GivesWay (absl : Absl) (before after : Environ) : Prop :=
  ∃ api message argv envp, commandFunction absl api before message = .execve argv envp ∧
    after = Environ.ofArray envp

theorem environ_of_execve {api : TgBotApiImpl} {environ : Environ} {message : RestartMessage}
    {argv : List CString} {envp : List (Option CString)}
    (h : commandFunction absl api environ message = .execve argv envp) :
    Environ.ofArray envp = kept environ ++ [restartEntry (.ofMessage message.message)] := by
  obtain ⟨-, -, rfl⟩ := execve_iff.mp h
  exact Environ.ofArray_toArray _

-- The entry of the last restart goes before the next one is set.
theorem kept_concat (environ : Environ) (t : DataType) :
    kept (kept environ ++ [restartEntry t]) = kept environ := by
  have hall : ∀ env ∈ kept environ, (!isRestartEntry (some env)) = true := by
    intro env henv
    have hother := (mem_kept.mp henv).2
    simp [isRestartEntry, hother]
  have hentry : [restartEntry t].filter (fun env => !isRestartEntry (some env)) = [] := by
    have hbegins : ENV_VAR_NAME <+: (restartEntry t).bytes := List.prefix_append _ _
    simp [isRestartEntry, hbegins]
  change (kept environ ++ [restartEntry t]).filter (fun env => !isRestartEntry (some env)) = _
  rw [List.filter_append, List.filter_eq_self.mpr hall, hentry, List.append_nil]

-- However often the bot is restarted, its environment keeps what it began with, and has one entry
-- for the last restart.
theorem environ_of_processes {first last : Environ}
    (h : ReflTransGen (GivesWay absl) first last) :
    last = first ∨ ∃ t, last = kept first ++ [restartEntry t] := by
  induction h with
  | refl => exact .inl rfl
  | tail _ hstep ih =>
    obtain ⟨api, message, argv, envp, hexecve, rfl⟩ := hstep
    rw [environ_of_execve hexecve]
    rcases ih with rfl | ⟨t, rfl⟩
    · exact .inr ⟨_, rfl⟩
    · exact .inr ⟨_, by rw [kept_concat]⟩

theorem getenv_of_execve {api : TgBotApiImpl} {environ : Environ} {message : RestartMessage}
    {argv : List CString} {envp : List (Option CString)}
    (h : commandFunction absl api environ message = .execve argv envp) :
    Environ.getenv (Environ.ofArray envp) ENV_VAR_NAME =
      some (DataType.ofMessage message.message).toString := by
  rw [environ_of_execve h]
  exact Environ.getenv_concat (fun env henv => (mem_kept.mp henv).2) rfl

-- The new process takes the command of any message but the one that has restarted the bot.
theorem requested_iff_of_execve (h : absl.Documented) {api api' : TgBotApiImpl} {environ : Environ}
    {message message' : RestartMessage} {argv : List CString} {envp : List (Option CString)}
    (hexecve : commandFunction absl api environ message = .execve argv envp) :
    Requested absl api' (Environ.ofArray envp) message' ↔
      api'.authorized message' = true ∧ isMyCommand api' message' = true ∧
        DataType.ofMessage message'.message ≠ DataType.ofMessage message.message := by
  have hvalue : isRestartedByThisMessage absl
      (Environ.getenv (Environ.ofArray envp) ENV_VAR_NAME) message'.message =
        some (decide (DataType.ofMessage message'.message = DataType.ofMessage message.message)) := by
    rw [getenv_of_execve hexecve, isRestartedByThisMessage, parse_toString h]
    rfl
  constructor
  · rintro ⟨hauthorized, hmine, hnot⟩
    rw [hvalue] at hnot
    exact ⟨hauthorized, hmine, of_decide_eq_false (Option.some.inj hnot)⟩
  · rintro ⟨hauthorized, hmine, hne⟩
    exact ⟨hauthorized, hmine, hvalue.trans (congrArg some (decide_eq_false hne))⟩

-- However often the bot was restarted before.
theorem restart_chain (absl : Absl) (h : absl.Documented) {first before : Environ}
    (hchain : ReflTransGen (GivesWay absl) first before) {api : TgBotApiImpl}
    {message : RestartMessage} {argv : List CString} {envp : List (Option CString)}
    (hexecve : commandFunction absl api before message = .execve argv envp) :
    Environ.ofArray envp = kept first ++ [restartEntry (.ofMessage message.message)] ∧
      ∀ api' message', Requested absl api' (Environ.ofArray envp) message' ↔
        api'.authorized message' = true ∧ isMyCommand api' message' = true ∧
          DataType.ofMessage message'.message ≠ DataType.ofMessage message.message := by
  refine ⟨?_, fun _ _ => requested_iff_of_execve h hexecve⟩
  rw [environ_of_execve hexecve]
  rcases environ_of_processes hchain with rfl | ⟨t, rfl⟩
  · rfl
  · rw [kept_concat]

-- The bot is restarted by one message and then by another one.
theorem restart_chain_twice :
    let api : TgBotApiImpl := ⟨fun _ => true, [], [], fun _ => true⟩
    let home : Environ := [⟨ascii "HOME=/", by decide⟩]
    ∃ between argv envp, commandFunction Absl.reference api between ⟨⟨1, 3, none⟩, none⟩ =
        .execve argv envp ∧
      Environ.ofArray envp = kept home ++ [restartEntry ⟨1, 3, 0⟩] ∧
      ¬Requested Absl.reference api (Environ.ofArray envp) ⟨⟨1, 3, none⟩, none⟩ := by
  intro api home
  have hdocumented := Absl.reference_documented
  have hfirst : commandFunction Absl.reference api home ⟨⟨1, 2, none⟩, none⟩ = .execve [] _ :=
    execve_iff.mpr ⟨⟨⟨rfl, rfl, rfl⟩, by decide, rfl⟩, rfl, rfl⟩
  have hrequested : Requested Absl.reference api _ ⟨⟨1, 3, none⟩, none⟩ :=
    (requested_iff_of_execve hdocumented hfirst).mpr ⟨rfl, rfl, by decide⟩
  have hsecond := execve_iff.mpr ⟨⟨hrequested, by decide, rfl⟩, rfl, rfl⟩
  obtain ⟨henviron, hiff⟩ := restart_chain Absl.reference hdocumented
    (.single ⟨api, _, _, _, hfirst, rfl⟩) hsecond
  exact ⟨_, _, _, hsecond, henviron, fun h => ((hiff api _).mp h).2.2 rfl⟩

end Processes

end Glider.Api.Restart

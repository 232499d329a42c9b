import Glider.Db.Sqlite.Users

namespace Glider.Db

inductive AccessLevel where
  | Unprotected
  | User
  | AdminUser
  | Owner
  deriving DecidableEq

inductive Reason where
  | Unknown
  | Ok
  | MessageTooOld
  | ForbiddenUser
  | PermissionDenied
  | UserIsBot

structure User where
  id : UserId
  isBot : Bool

structure AuthResult where
  authorized : Bool
  reason : Reason

-- A reason is kept for a refusal only.
def AuthResult.make (cond : Bool) (reason : Reason) : AuthResult :=
  if cond then ⟨true, .Ok⟩ else ⟨false, reason⟩

def kGroupUserId : UserId := 1087968824

def kTelegramOfficialAccountId : UserId := 777000

def kSpecialBotUserIds : List UserId := [kGroupUserId, kTelegramOfficialAccountId]

-- Ids that stand for channels, groups and the accounts of the service itself.
def TreatedAsBot (id : UserId) : Prop := id ∈ kSpecialBotUserIds ∨ id < 0

instance (id : UserId) : Decidable (TreatedAsBot id) :=
  inferInstanceAs (Decidable (id ∈ kSpecialBotUserIds ∨ id < 0))

section AuthContext

variable {σ : Type} (impl : DatabaseBase σ)

-- A backend error counts as being on the blacklist and off the whitelist.
def isInList (type : ListType) (user : UserId) (s : σ) : Bool × σ :=
  match impl.checkUserInList type user s with
  | (.OK, s) => (true, s)
  | (.BACKEND_ERROR, s) => (type = .BLACKLIST, s)
  | (_, s) => (false, s)

def isAuthorized (user : Option User) (flags : AccessLevel) (s : σ) : AuthResult × σ :=
  if user.any fun user => TreatedAsBot user.id then (.make false .UserIsBot, s)
  else
    match user.bind fun user => if user.isBot then none else some user.id with
    | none => (.make (flags = .Unprotected) .UserIsBot, s)
    | some id =>
      let (isInBlacklist, s) := isInList impl .BLACKLIST id s
      let (isInWhitelist, s) := isInList impl .WHITELIST id s
      let (owner, s) := impl.getOwnerUserId s
      let isOwner := owner = some id
      match flags with
      | .User => (.make (isOwner || !isInBlacklist) .ForbiddenUser, s)
      | .AdminUser =>
        (.make (isOwner || (!isInBlacklist && isInWhitelist))
          (if isInBlacklist then .ForbiddenUser else .PermissionDenied), s)
      | .Owner => (.make isOwner .PermissionDenied, s)
      | .Unprotected => (.make true .UserIsBot, s)

def granted (level : AccessLevel) (isOwner isInBlacklist isInWhitelist : Bool) : Bool :=
  match level with
  | .Unprotected => true
  | .User => isOwner || !isInBlacklist
  | .AdminUser => isOwner || (!isInBlacklist && isInWhitelist)
  | .Owner => isOwner

-- For a human the three lookups are made in this order, whatever the level.
theorem isAuthorized_human {id : UserId} (hid : ¬TreatedAsBot id) (level : AccessLevel) (s : σ) :
    (isAuthorized impl (some ⟨id, false⟩) level s).1.authorized =
      let black := isInList impl .BLACKLIST id s
      let white := isInList impl .WHITELIST id black.2
      granted level (decide ((impl.getOwnerUserId white.2).1 = some id)) black.1 white.1 := by
  have hmake : ∀ cond reason, (AuthResult.make cond reason).authorized = cond := by
    intro cond reason
    cases cond <;> rfl
  cases level <;> simp [isAuthorized, hid, hmake, granted]

end AuthContext

section Blacklisted

open Sqlite

variable {c : Conn} {u : UserId}

-- The one lookup that may hide the row: it is prepared, and its step fails.
def LookupStepFails (c : Conn) : Prop := c.fault = none ∧ (c.after 1).fault ≠ none

theorem tables_isInList (type : ListType) :
    (isInList database type u c).2.tables = c.tables := by
  have hcheck : (database.checkUserInList type u c).2.tables = c.tables := by
    simp only [database, checkUserInList, checkUserInInfo_eq]
    split_ifs <;> rfl
  rw [← hcheck]
  unfold isInList
  split <;> rename_i h <;> rw [h]

theorem isInBlacklist_iff (hrow : c.tables.info? u = some 1) :
    (isInList database .BLACKLIST u c).1 = true ↔ ¬LookupStepFails c := by
  have hlisted : listed .BLACKLIST (some 1) = .OK := by decide
  unfold LookupStepFails
  simp only [isInList, database, checkUserInList, toInfoType, checkUserInInfo_eq, hrow, hlisted]
  cases c.fault with
  | some code => simp
  | none =>
    cases (c.after 1).fault with
    | some code | none => simp

theorem not_isInWhitelist (hrow : c.tables.info? u = some 1) :
    (isInList database .WHITELIST u c).1 = false := by
  have hlisted : listed .WHITELIST (some 1) = .ALREADY_IN_OTHER_LIST := by decide
  simp only [isInList, database, checkUserInList, toInfoType, checkUserInInfo_eq, hrow, hlisted]
  cases c.fault with
  | some code => simp
  | none =>
    cases (c.after 1).fault with
    | some code | none => simp

theorem getOwnerUserId_ne (hrow : c.tables.info? u = some 1) :
    (database.getOwnerUserId c).1 ≠ some u := by
  have howner : c.tables.owner? ≠ some u := by
    rw [Ne, Tables.owner?_iff_info?, hrow]
    decide
  simp only [database, getOwnerUserId_eq]
  split_ifs
  · exact nofun
  · exact nofun
  · exact howner

-- A blacklisted user is refused at every level, except that a failed step of the first lookup
-- passes for "not on the blacklist" and lets the user in.
theorem blacklisted_refused_iff (c : Conn) (u : UserId)
    (hrow : ⟨u, InfoType.BLACKLIST.number⟩ ∈ c.tables.usermap.rows) :
    (∀ level, level ≠ .Unprotected →
      (isAuthorized database (some ⟨u, false⟩) level c).1.authorized = false) ↔
      TreatedAsBot u ∨ ¬LookupStepFails c := by
  have hinfo : c.tables.info? u = some 1 := Tables.info?_eq_some.mpr hrow
  by_cases hbot : TreatedAsBot u
  · simp [isAuthorized, hbot, AuthResult.make]
  have hblack := isInBlacklist_iff hinfo
  rw [← @tables_isInList c u .BLACKLIST] at hinfo
  have hwhite := not_isInWhitelist hinfo
  rw [← @tables_isInList _ u .WHITELIST] at hinfo
  have howner := getOwnerUserId_ne hinfo
  simp only [isAuthorized_human _ hbot, hwhite, decide_eq_false howner, hbot, false_or, ← hblack]
  constructor
  · intro h
    simpa [granted] using h .User (by decide)
  · intro hin level hlevel
    cases level with
    | Unprotected => exact absurd rfl hlevel
    | User => simp [granted, hin]
    | AdminUser => simp [granted]
    | Owner => rfl

-- The user 42 is on the blacklist; the call number `n` of the library fails with an I/O error.
def blacklistConn (n : ℕ) : Conn where
  tables := { Tables.empty with usermap := ⟨[⟨42, 1⟩], by decide⟩ }
  saved := none
  changes := 0
  planner := ⟨fun _ rows => rows, fun _ _ => .refl _⟩
  faults := fun call => if call = n then some 10 else none
  calls := 0

theorem blacklisted_refused_unprepared :
    (isAuthorized database (some ⟨42, false⟩) .User (blacklistConn 0)).1.authorized = false :=
  (blacklisted_refused_iff (blacklistConn 0) 42 (by decide)).mpr (Or.inr fun h => nomatch h.1)
    .User (by decide)

-- The step of the blacklist lookup fails.
theorem blacklisted_let_in :
    ¬∀ (c : Conn) (u : UserId), ⟨u, InfoType.BLACKLIST.number⟩ ∈ c.tables.usermap.rows →
      ∀ level, level ≠ .Unprotected →
        (isAuthorized database (some ⟨u, false⟩) level c).1.authorized = false := by
  intro h
  have hbad := h (blacklistConn 1) 42 (by decide) .User (by decide)
  revert hbad
  decide

end Blacklisted

end Glider.Db

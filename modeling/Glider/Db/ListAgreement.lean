import Glider.Db.Lists
import Glider.Db.Persist

namespace Glider.Db

open Glider.Lib

namespace Sqlite

-- What a user is to a list when no call fails: the owner has a row in the same table.
def standing (r : Roster) (type : ListType) (user : UserId) : ListResult :=
  if r.owner = some user then .ALREADY_IN_OTHER_LIST
  else if user ∈ r.list type then .OK
  else if user ∈ r.otherList type then .ALREADY_IN_OTHER_LIST
  else .NOT_IN_LIST

-- The backend without failures, on the roster alone.
def rosterStep : Machine Roster ListCall ListAnswer
  | r, .addUserToList type user =>
    match standing r type user with
    | .NOT_IN_LIST => (.list .OK, r.setList (r.list type ++ [user]) type)
    | .OK => (.list .ALREADY_IN_LIST, r)
    | res => (.list res, r)
  | r, .removeUserFromList type user =>
    match standing r type user with
    | .OK => (.list .OK, r.setList ((r.list type).erase user) type)
    | res => (.list res, r)
  | r, .checkUserInList type user => (.list (standing r type user), r)
  | r, .claimOwnerUserId user =>
    if r.owner.isSome then (.claim .ALREADY_SET, r)
    else if user ∈ r.whitelist ∨ user ∈ r.blacklist then (.claim .BACKEND_ERROR, r)
    else (.claim .OK, { r with owner := some user })
  | r, .getOwnerUserId => (.owner r.owner, r)

section Quiet

variable {c : Conn} {t : Tables} {user : UserId}

-- Only the three kinds of rows are ever written.
def Tables.Valid (t : Tables) : Prop :=
  ∀ r ∈ t.usermap.rows, ∃ type : InfoType, r.info = type.number

theorem Tables.Valid.info? {info : ℤ} (h : t.Valid) (hinfo : t.info? user = some info) :
    ∃ type : InfoType, info = type.number := h _ (Tables.info?_eq_some.mp hinfo)

theorem listed_eq_standing (h : t.Valid) (type : ListType) :
    listed (toInfoType type) (t.info? user) = standing (roster t) type user := by
  have howner : (roster t).owner = some user ↔ t.info? user = some 0 := Tables.owner?_iff_info?
  have hwhite : user ∈ (roster t).whitelist ↔ t.info? user = some 2 := Tables.mem_usersWith
  have hblack : user ∈ (roster t).blacklist ↔ t.info? user = some 1 := Tables.mem_usersWith
  unfold standing
  cases hinfo : t.info? user with
  | none =>
    rw [hinfo] at howner hwhite hblack
    cases type <;> simp [Roster.list, Roster.otherList, howner, hwhite, hblack, listed]
  | some info =>
    obtain ⟨kind, rfl⟩ := h.info? hinfo
    rw [hinfo] at howner hwhite hblack
    cases type <;> cases kind <;>
      simp [Roster.list, Roster.otherList, howner, hwhite, hblack, listed, toInfoType,
        InfoType.number, toInt32]

theorem checkUserInInfo_quiet (h : c.Quiet) (type : InfoType) :
    checkUserInInfo type user c = (listed type (c.tables.info? user), c.after 2) := by
  rw [checkUserInInfo_eq, h.fault, (h.after 1).fault]
  rfl

theorem getOwnerUserId_quiet (h : c.Quiet) :
    getOwnerUserId c = (c.tables.owner?, c.after 2) := by
  rw [getOwnerUserId_eq, h.fault, (h.after 1).fault]
  rfl

theorem insert_of_absent {type : InfoType} (habsent : t.info? user = none)
    (howner : type = .OWNER → t.owner? = none) :
    ∃ usermap, t.usermap.insert ⟨user, type.number⟩ = some usermap := by
  have hfree : t.usermap.Free ⟨user, type.number⟩ := by
    rw [Table.free_iff]
    refine ⟨?_, ?_⟩
    · unfold UserRow.entries
      split_ifs <;> simp
    · intro r hr e he hmine
      have huser : r.userid ≠ user := by
        rintro rfl
        rw [Tables.info?_eq_some.mpr hr] at habsent
        cases habsent
      have hinfo : type.number = 0 → r.info ≠ 0 := by
        intro htype hzero
        have hkind : type = .OWNER := by
          cases type <;> first | rfl | cases htype
        have hrow : (⟨r.userid, 0⟩ : UserRow) ∈ t.usermap.rows := hzero ▸ hr
        rw [Tables.owner?_eq_some.mpr hrow] at howner
        cases howner hkind
      simp only [UserRow.entries, List.mem_cons, List.mem_ite_nil_right, List.not_mem_nil,
        or_false] at he hmine
      rcases hmine with rfl | ⟨hzero, rfl⟩
      · rcases he with he | ⟨_, he⟩
        · exact huser (UserEntry.userid.inj he).symm
        · cases he
      · rcases he with he | ⟨he, _⟩
        · cases he
        · exact hinfo hzero he
  obtain ⟨usermap, hinsert, _⟩ := Table.insert_of_free hfree
  exact ⟨usermap, hinsert⟩

theorem addUserToInfo_absent (h : c.Quiet) {type : InfoType}
    (habsent : c.tables.info? user = none) (howner : type = .OWNER → c.tables.owner? = none) :
    ∃ usermap, c.tables.usermap.insert ⟨user, type.number⟩ = some usermap ∧
      addUserToInfo type user c =
        (.OK, { c.after 4 with tables := { c.tables with usermap }, changes := 1 }) := by
  obtain ⟨usermap, hinsert⟩ := insert_of_absent habsent howner
  have htables : (c.after 2).tables = c.tables := rfl
  refine ⟨usermap, hinsert, ?_⟩
  simp only [addUserToInfo, checkUserInInfo_quiet h, habsent, listed, execute_insertUser,
    (h.after 2).fault, ((h.after 2).after 1).fault, htables, hinsert, Option.isSome_none,
    Bool.false_eq_true, if_false]
  rfl

theorem addUserToInfo_present (h : c.Quiet) {type : InfoType} {info : ℤ}
    (hinfo : c.tables.info? user = some info) :
    addUserToInfo type user c =
      (if toInt32 info = type.number then .ALREADY_IN_LIST else .ALREADY_IN_OTHER_LIST,
        c.after 2) := by
  simp only [addUserToInfo, checkUserInInfo_quiet h, hinfo, listed]
  split_ifs <;> rfl

theorem Tables.Valid.insert {type : InfoType} (h : t.Valid)
    {usermap : Table UserRow UserEntry UserRow.entries}
    (hinsert : t.usermap.insert ⟨user, type.number⟩ = some usermap) :
    Tables.Valid { t with usermap } := by
  intro r hr
  rw [Table.insert_eq_some hinsert, List.mem_append, List.mem_singleton] at hr
  rcases hr with hr | rfl
  · exact h r hr
  · exact ⟨type, rfl⟩

theorem Tables.Valid.delete (h : t.Valid) (gone : UserRow → Bool) :
    Tables.Valid { t with usermap := t.usermap.deleteWhere gone } :=
  fun r hr => h r (List.mem_of_mem_filter hr)

-- A connection on which nothing fails follows the roster.
structure Good (c : Conn) : Prop where
  quiet : c.Quiet
  valid : c.tables.Valid

def Follows (c : Conn) (call : ListCall) : Prop :=
  (listStep database c call).1 = (rosterStep (roster c.tables) call).1 ∧
    roster (listStep database c call).2.tables = (rosterStep (roster c.tables) call).2 ∧
    Good (listStep database c call).2

theorem follows_addUserToList (h : Good c) (type : ListType) (user : UserId) :
    Follows c (.addUserToList type user) := by
  have hstanding := @listed_eq_standing c.tables user h.valid type
  cases hinfo : c.tables.info? user with
  | none =>
    have howner : toInfoType type = .OWNER → c.tables.owner? = none := by
      cases type <;> exact nofun
    obtain ⟨usermap, hinsert, hadd⟩ := addUserToInfo_absent h.quiet hinfo howner
    rw [hinfo] at hstanding
    simp only [Follows, listStep, database, addUserToList, hadd, rosterStep, ← hstanding, listed]
    exact ⟨trivial, roster_insert type hinsert, h.quiet, h.valid.insert hinsert⟩
  | some info =>
    rw [hinfo] at hstanding
    simp only [Follows, listStep, database, addUserToList, addUserToInfo_present h.quiet hinfo,
      rosterStep, ← hstanding, listed]
    split_ifs <;> exact ⟨rfl, rfl, h.quiet, h.valid⟩

theorem follows_removeUserFromList (h : Good c) (type : ListType) (user : UserId) :
    Follows c (.removeUserFromList type user) := by
  have hstanding := @listed_eq_standing c.tables user h.valid type
  have hcheck : checkUserInList type user c =
      (standing (roster c.tables) type user, c.after 2) := by
    rw [← hstanding]
    exact checkUserInInfo_quiet h.quiet _
  simp only [Follows, listStep, database, removeUserFromList, hcheck, rosterStep]
  cases standing (roster c.tables) type user with
  | OK =>
    have hq := h.quiet.after 2
    simp only [execute_removeUser, hq.fault, (hq.after 1).fault, Option.isSome_none,
      Bool.false_eq_true, if_false]
    exact ⟨trivial, roster_delete type, h.quiet, h.valid.delete _⟩
  | NOT_IN_LIST => exact ⟨rfl, rfl, h.quiet, h.valid⟩
  | ALREADY_IN_LIST | ALREADY_IN_OTHER_LIST | BACKEND_ERROR => exact ⟨rfl, rfl, h.quiet, h.valid⟩

theorem follows_claimOwnerUserId (h : Good c) (user : UserId) :
    Follows c (.claimOwnerUserId user) := by
  have hroster : (roster c.tables).owner = c.tables.owner? := rfl
  have hwhite : user ∈ (roster c.tables).whitelist ↔ c.tables.info? user = some 2 :=
    Tables.mem_usersWith
  have hblack : user ∈ (roster c.tables).blacklist ↔ c.tables.info? user = some 1 :=
    Tables.mem_usersWith
  have hq := h.quiet.after 2
  simp only [Follows, listStep, database, claimOwnerUserId, getOwnerUserId_quiet h.quiet,
    rosterStep, hroster, hwhite, hblack]
  cases howner : c.tables.owner? with
  | some owner => exact ⟨rfl, rfl, h.quiet, h.valid⟩
  | none =>
    cases hinfo : c.tables.info? user with
    | none =>
      obtain ⟨usermap, hinsert, hadd⟩ := @addUserToInfo_absent (c.after 2) user hq .OWNER
        hinfo fun _ => howner
      simp only [hadd]
      exact ⟨rfl, roster_claim hinsert, h.quiet, h.valid.insert hinsert⟩
    | some info =>
      have hne : info ≠ 0 := by
        rintro rfl
        rw [← Tables.owner?_iff_info?, howner] at hinfo
        cases hinfo
      obtain ⟨kind, rfl⟩ := h.valid.info? hinfo
      have hsecond : (((c.after 2).after 2).tables).owner? = none := howner
      have hlisted : some kind.number = some 2 ∨ some kind.number = some 1 := by
        cases kind <;> simp [InfoType.number] at hne ⊢
      have hother : toInt32 kind.number ≠ InfoType.OWNER.number := by
        cases kind <;> simp [InfoType.number, toInt32] at hne ⊢
      have hadd := @addUserToInfo_present (c.after 2) user hq .OWNER _ hinfo
      rw [if_neg hother] at hadd
      simp only [hadd, getOwnerUserId_quiet (hq.after 2), hsecond, if_pos hlisted]
      exact ⟨rfl, rfl, h.quiet, h.valid⟩

theorem follows_roster (h : Good c) (call : ListCall) : Follows c call := by
  cases call with
  | addUserToList type user => exact follows_addUserToList h type user
  | removeUserFromList type user => exact follows_removeUserFromList h type user
  | checkUserInList type user =>
    simp only [Follows, listStep, database, checkUserInList, checkUserInInfo_quiet h.quiet,
      listed_eq_standing h.valid, rosterStep]
    exact ⟨trivial, rfl, h.quiet, h.valid⟩
  | claimOwnerUserId user => exact follows_claimOwnerUserId h user
  | getOwnerUserId =>
    simp only [Follows, listStep, database, getOwnerUserId_quiet h.quiet, rosterStep]
    exact ⟨rfl, rfl, h.quiet, h.valid⟩

end Quiet

end Sqlite

namespace Protobuf

-- The backend without failures, on the roster alone.
def rosterStep : Machine Roster ListCall ListAnswer
  | r, .addUserToList type user =>
    if type = .BLACKLIST ∧ r.owner = some user then (.list .ALREADY_IN_OTHER_LIST, r)
    else if user ∈ r.otherList type then (.list .ALREADY_IN_OTHER_LIST, r)
    else if user ∈ r.list type then (.list .ALREADY_IN_LIST, r)
    else (.list .OK, r.setList (r.list type ++ [user]) type)
  | r, .removeUserFromList type user =>
    if user ∈ r.list type then (.list .OK, r.setList ((r.list type).erase user) type)
    else (.list .NOT_IN_LIST, r)
  | r, .checkUserInList type user =>
    if user ∈ r.list type then (.list .OK, r)
    else if user ∈ r.otherList type then (.list .ALREADY_IN_OTHER_LIST, r)
    else (.list .NOT_IN_LIST, r)
  | r, .claimOwnerUserId user =>
    if r.owner.isSome then (.claim .ALREADY_SET, r)
    else if user ∈ r.blacklist then (.claim .BACKEND_ERROR, r)
    else (.claim .OK, { r with owner := some user })
  | r, .getOwnerUserId => (.owner r.owner, r)

variable {codec : Codec} {s : ProtoDatabase} {info : Info}

def Follows (codec : Codec) (s : ProtoDatabase) (call : ListCall) : Prop :=
  (listStep (database codec) s call).1 = (rosterStep (roster s) call).1 ∧
    roster (listStep (database codec) s call).2 = (rosterStep (roster s) call).2 ∧
    Good (listStep (database codec) s call).2

theorem Good.withObject (h : Good s) (object : Database) : Good (s.withObject info object) :=
  ⟨rfl, h.quiet⟩

theorem roster_of_dbinfo (hs : s.dbinfo = some info) : roster s = rosterOf info.object := by
  rw [roster, hs]
  rfl

theorem follows_addUserToList (h : Good s) (hs : s.dbinfo = some info) (type : ListType)
    (user : UserId) : Follows codec s (.addUserToList type user) := by
  have hroster := roster_of_dbinfo hs
  have howner : (rosterOf info.object).owner = info.object.ownerId := rfl
  simp only [Follows, listStep, database, addUserToList, hs, getPersonList_mutable, hroster,
    rosterStep, list_rosterOf, otherList_rosterOf, isSome_findByUid, howner]
  split_ifs
  · exact ⟨rfl, hroster, h⟩
  · exact ⟨rfl, hroster, h⟩
  · exact ⟨rfl, rosterOf_mutablePersonList _ _, h.withObject _⟩
  · obtain ⟨hok, hinfo, hgood⟩ := @commit_quiet codec s _ h.quiet info
      (setPersonList (mutablePersonList info.object type)
        (getPersonList info.object type ++ [user]) type)
      (mutablePersonList info.object type) ListResult.OK .BACKEND_ERROR
    refine ⟨?_, ?_, hgood⟩
    · rw [hok]
    · rw [roster_of_dbinfo hinfo, rosterOf_setPersonList, rosterOf_mutablePersonList]

theorem follows_removeUserFromList (h : Good s) (hs : s.dbinfo = some info) (type : ListType)
    (user : UserId) : Follows codec s (.removeUserFromList type user) := by
  have hroster := roster_of_dbinfo hs
  simp only [Follows, listStep, database, removeUserFromList, hs, getPersonList_mutable, hroster,
    rosterStep, list_rosterOf, ← isSome_findByUid]
  cases hloc : findByUid (getPersonList info.object type) user with
  | none => exact ⟨rfl, rosterOf_mutablePersonList _ _, h.withObject _⟩
  | some loc =>
    obtain ⟨hok, hinfo, hgood⟩ := @commit_quiet codec s _ h.quiet info
      (setPersonList (mutablePersonList info.object type)
        ((getPersonList info.object type).eraseIdx loc) type)
      (mutablePersonList info.object type) ListResult.OK .BACKEND_ERROR
    simp only [Option.isSome_some, if_true]
    refine ⟨?_, ?_, hgood⟩
    · rw [hok]
    · rw [roster_of_dbinfo hinfo, rosterOf_setPersonList, rosterOf_mutablePersonList,
        eraseIdx_findByUid hloc]

theorem follows_claimOwnerUserId (h : Good s) (hs : s.dbinfo = some info) (user : UserId) :
    Follows codec s (.claimOwnerUserId user) := by
  have hroster := roster_of_dbinfo hs
  have howner : (rosterOf info.object).owner = info.object.ownerId := rfl
  have hblack : (rosterOf info.object).blacklist = getPersonList info.object .BLACKLIST := rfl
  simp only [Follows, listStep, database, claimOwnerUserId, hs, hroster, rosterStep,
    isSome_findByUid, howner, hblack]
  split_ifs
  · exact ⟨rfl, hroster, h⟩
  · exact ⟨rfl, hroster, h⟩
  · obtain ⟨hok, hinfo, hgood⟩ := @commit_quiet codec s _ h.quiet info
      { info.object with ownerId := some user } { info.object with ownerId := none }
      OwnerClaimResult.OK .BACKEND_ERROR
    refine ⟨?_, ?_, hgood⟩
    · rw [hok]
    · rw [roster_of_dbinfo hinfo]
      rfl

theorem follows_roster (h : Good s) (call : ListCall) : Follows codec s call := by
  obtain ⟨info, hs⟩ := Option.isSome_iff_exists.mp h.loaded
  cases call with
  | addUserToList type user => exact follows_addUserToList h hs type user
  | removeUserFromList type user => exact follows_removeUserFromList h hs type user
  | checkUserInList type user =>
    have hroster := roster_of_dbinfo hs
    simp only [Follows, listStep, database, checkUserInList, hs, hroster, rosterStep,
      list_rosterOf, otherList_rosterOf, isSome_findByUid]
    split_ifs <;> exact ⟨rfl, hroster, h⟩
  | claimOwnerUserId user => exact follows_claimOwnerUserId h hs user
  | getOwnerUserId => exact ⟨congrArg ListAnswer.owner (getOwnerUserId_eq s), rfl, h⟩

end Protobuf

-- Where the owner's row makes no difference, and a refused removal has the same reason.
def AgreeOn (r : Roster) : ListCall → Prop
  | .addUserToList .WHITELIST user => r.owner ≠ some user
  | .addUserToList .BLACKLIST _ => True
  | .removeUserFromList type user => r.owner ≠ some user ∧ user ∉ r.otherList type
  | .checkUserInList _ user => r.owner ≠ some user
  | .claimOwnerUserId user => r.owner = none → user ∉ r.whitelist
  | .getOwnerUserId => True

-- While the backends agree the owner is on no list at all.
structure Roster.Apart (r : Roster) : Prop where
  consistent : r.Consistent
  owner : ∀ u, r.owner = some u → u ∉ r.whitelist

theorem Roster.Apart.notMem {r : Roster} (h : r.Apart) {user : UserId}
    (howner : r.owner = some user) (type : ListType) : user ∉ r.list type := by
  cases type
  · exact h.owner user howner
  · exact h.consistent.owner user howner

theorem Roster.Apart.notMem_other {r : Roster} (h : r.Apart) {user : UserId}
    (howner : r.owner = some user) (type : ListType) : user ∉ r.otherList type := by
  cases type
  · exact h.consistent.owner user howner
  · exact h.owner user howner

theorem Roster.Consistent.notMem_other {r : Roster} (h : r.Consistent) {user : UserId}
    {type : ListType} (hmine : user ∈ r.list type) : user ∉ r.otherList type := by
  cases type
  · exact h.disjoint user hmine
  · exact fun hother => h.disjoint user hother hmine

theorem rosterStep_agree {r : Roster} {call : ListCall} (h : r.Apart) (hagree : AgreeOn r call) :
    Sqlite.rosterStep r call = Protobuf.rosterStep r call := by
  cases call with
  | addUserToList type user =>
    have hother := @Roster.Consistent.notMem_other r h.consistent user type
    simp only [Sqlite.rosterStep, Sqlite.standing, Protobuf.rosterStep]
    cases type with
    | WHITELIST =>
      have howner : r.owner ≠ some user := hagree
      by_cases hmine : user ∈ r.list .WHITELIST
      · simp [howner, hmine, hother hmine]
      · by_cases hin : user ∈ r.otherList .WHITELIST <;> simp [howner, hmine, hin]
    | BLACKLIST =>
      by_cases howner : r.owner = some user
      · simp [howner]
      by_cases hmine : user ∈ r.list .BLACKLIST
      · simp [howner, hmine, hother hmine]
      · by_cases hin : user ∈ r.otherList .BLACKLIST <;> simp [howner, hmine, hin]
  | removeUserFromList type user =>
    obtain ⟨howner, hother⟩ := hagree
    simp only [Sqlite.rosterStep, Sqlite.standing, Protobuf.rosterStep, howner, hother, if_false]
    by_cases hmine : user ∈ r.list type <;> simp [hmine]
  | checkUserInList type user =>
    have howner : r.owner ≠ some user := hagree
    simp only [Sqlite.rosterStep, Sqlite.standing, Protobuf.rosterStep, howner, if_false]
    split_ifs <;> rfl
  | claimOwnerUserId user =>
    have hwhite : r.owner = none → user ∉ r.whitelist := hagree
    simp only [Sqlite.rosterStep, Protobuf.rosterStep]
    cases howner : r.owner with
    | some owner => rfl
    | none => simp [hwhite howner]
  | getOwnerUserId => rfl

theorem rosterStep_differ {r : Roster} {call : ListCall} (h : r.Apart) (hdiffer : ¬AgreeOn r call) :
    (Sqlite.rosterStep r call).1 ≠ (Protobuf.rosterStep r call).1 := by
  cases call with
  | addUserToList type user =>
    cases type with
    | WHITELIST =>
      have howner : r.owner = some user := not_not.mp hdiffer
      simp [Sqlite.rosterStep, Sqlite.standing, Protobuf.rosterStep, howner,
        h.notMem howner, h.notMem_other howner]
    | BLACKLIST => exact absurd trivial hdiffer
  | removeUserFromList type user =>
    simp only [Sqlite.rosterStep, Sqlite.standing, Protobuf.rosterStep]
    by_cases howner : r.owner = some user
    · simp [howner, h.notMem howner]
    · have hother : user ∈ r.otherList type := by
        by_contra hother
        exact hdiffer ⟨howner, hother⟩
      have hmine : user ∉ r.list type := fun hmine => h.consistent.notMem_other hmine hother
      simp [howner, hother, hmine]
  | checkUserInList type user =>
    have howner : r.owner = some user := not_not.mp hdiffer
    simp [Sqlite.rosterStep, Sqlite.standing, Protobuf.rosterStep, howner, h.notMem howner,
      h.notMem_other howner]
  | claimOwnerUserId user =>
    obtain ⟨howner, hwhite⟩ := Classical.not_imp.mp hdiffer
    have hwhite : user ∈ r.whitelist := not_not.mp hwhite
    have hblack := h.consistent.disjoint user hwhite
    simp [Sqlite.rosterStep, Protobuf.rosterStep, howner, hwhite, hblack]
  | getOwnerUserId => exact absurd trivial hdiffer

theorem Roster.Apart.step {r r' : Roster} {call : ListCall} {answer : ListAnswer} (h : r.Apart)
    (hagree : AgreeOn r call) (hstep : r.Step call answer r') : r'.Apart := by
  refine ⟨h.consistent.step hstep, ?_⟩
  cases hstep with
  | unchanged hanswer => exact h.owner
  | @added type user hnew hother howner =>
    cases type with
    | WHITELIST =>
      intro u hu hmem
      rcases List.mem_append.mp hmem with hmem | hmem
      · exact h.owner u hu hmem
      · rw [List.mem_singleton.mp hmem] at hu
        exact hagree hu
    | BLACKLIST => exact h.owner
  | @removed type user =>
    cases type with
    | WHITELIST => exact fun u hu hmem => h.owner u hu (List.mem_of_mem_erase hmem)
    | BLACKLIST => exact h.owner
  | @claimed user hnone hblack =>
    intro u hu
    rw [← Option.some.inj hu]
    exact hagree hnone

-- Without failures the two backends answer a run alike exactly when every call of it is made
-- where they agree.
theorem lists_agree_iff (codec : Protobuf.Codec) (path : Bytes) (files : FileStore Bytes UInt8)
    (pid sequence : ℕ) (planner : Sqlite.Planner) (calls : List ListCall) :
    (listStep Sqlite.database).outputs (.fresh planner fun _ => none) calls =
        (listStep (Protobuf.database codec)).outputs
          (.fresh path files pid sequence fun _ => none) calls ↔
      (listStep Sqlite.database).Always (fun c call => AgreeOn (Sqlite.roster c.tables) call)
        (.fresh planner fun _ => none) calls := by
  let related (c : Sqlite.Conn) (s : Protobuf.ProtoDatabase) : Prop :=
    Sqlite.Good c ∧ Protobuf.Good s ∧ Sqlite.roster c.tables = Protobuf.roster s ∧
      (Sqlite.roster c.tables).Apart
  have hstep : ∀ c s call, related c s →
      Sqlite.Follows c call ∧ Protobuf.Follows codec s call :=
    fun c s call h => ⟨Sqlite.follows_roster h.1 call, Protobuf.follows_roster h.2.1 call⟩
  refine @Machine.outputs_eq_iff_always _ _ _ _ _ _ _ related ?_ ?_ _ _ ?_ calls
  · intro c s call h hagree
    obtain ⟨⟨ha, hr, hgood⟩, ⟨ha', hr', hgood'⟩⟩ := hstep c s call h
    obtain ⟨_, _, hsame, hapart⟩ := h
    have hboth := rosterStep_agree hapart hagree
    rw [← hsame, ← hboth] at ha' hr'
    exact ⟨ha.trans ha'.symm, hgood, hgood', hr.trans hr'.symm,
      hapart.step hagree (Sqlite.listStep_roster c call)⟩
  · intro c s call h hdiffer
    obtain ⟨⟨ha, _⟩, ⟨ha', _⟩⟩ := hstep c s call h
    obtain ⟨_, _, hsame, hapart⟩ := h
    rw [ha, ha', ← hsame]
    exact rosterStep_differ hapart hdiffer
  · exact ⟨⟨fun _ => rfl, nofun⟩, ⟨rfl, fun _ => rfl⟩, rfl, Roster.consistent_empty, nofun⟩

-- Only one backend says that the user is on the other list.
theorem removal_refused_differently :
    (listStep Sqlite.database).outputs (.fresh .rowOrder fun _ => none)
        [.addUserToList .BLACKLIST 1, .removeUserFromList .WHITELIST 1] ≠
      (listStep (Protobuf.database Protobuf.sampleCodec)).outputs
        (.fresh Protobuf.kInMemoryDatabase .empty 1 0 fun _ => none)
        [.addUserToList .BLACKLIST 1, .removeUserFromList .WHITELIST 1] := by
  decide

end Glider.Db

import Glider.Db.Protobuf
import Glider.Db.Sqlite.Users

namespace Glider.Db

open Glider.Lib

namespace Sqlite

section Roster

variable {t : Tables} {user : UserId}

def Tables.usersWith (t : Tables) (info : ℤ) : List UserId :=
  (t.usermap.rows.filter fun r => r.info = info).map UserRow.userid

def roster (t : Tables) : Roster :=
  ⟨t.owner?, t.usersWith InfoType.WHITELIST.number, t.usersWith InfoType.BLACKLIST.number⟩

theorem Tables.mem_usersWith {info : ℤ} : user ∈ t.usersWith info ↔ t.info? user = some info := by
  simp only [usersWith, List.mem_map, List.mem_filter, decide_eq_true_eq, info?_eq_some]
  constructor
  · rintro ⟨⟨userid, info'⟩, ⟨hr, rfl⟩, rfl⟩
    exact hr
  · exact fun h => ⟨⟨user, info⟩, ⟨h, rfl⟩, rfl⟩

theorem Tables.nodup_usersWith (info : ℤ) : (t.usersWith info).Nodup := by
  have hids : (t.usermap.rows.map UserRow.userid).Nodup := by
    refine List.Nodup.of_map UserEntry.userid ?_
    rw [List.map_map]
    exact t.usermap.nodup_map_entry _ fun r => List.mem_cons_self
  exact (List.filter_sublist.map UserRow.userid).nodup hids

theorem list_roster (type : ListType) :
    (roster t).list type = t.usersWith (toInfoType type).number := by
  cases type <;> rfl

-- A row goes in only when neither the user nor, for the owner, anyone else is there.
theorem info?_of_insert {info : ℤ} {usermap : Table UserRow UserEntry UserRow.entries}
    (h : t.usermap.insert ⟨user, info⟩ = some usermap) : t.info? user = none := by
  have hfree := Table.free_of_insert h
  rw [Option.eq_none_iff_forall_ne_some]
  intro info' hinfo
  apply (Table.free_iff.mp hfree).2 ⟨user, info'⟩ (Tables.info?_eq_some.mp hinfo)
    (.userid user) <;> simp [UserRow.entries]

theorem owner?_of_insert {usermap : Table UserRow UserEntry UserRow.entries}
    (h : t.usermap.insert ⟨user, 0⟩ = some usermap) : t.owner? = none := by
  have hfree := Table.free_of_insert h
  rw [Option.eq_none_iff_forall_ne_some]
  intro user' howner
  apply (Table.free_iff.mp hfree).2 ⟨user', 0⟩ (Tables.owner?_eq_some.mp howner)
    .owner <;> simp [UserRow.entries]

theorem usersWith_insert {info info' : ℤ} {usermap : Table UserRow UserEntry UserRow.entries}
    (h : t.usermap.insert ⟨user, info⟩ = some usermap) :
    Tables.usersWith { t with usermap } info' =
      if info = info' then t.usersWith info' ++ [user] else t.usersWith info' := by
  simp only [Tables.usersWith, Table.insert_eq_some h, List.filter_append, List.map_append,
    List.filter_singleton]
  split_ifs with hinfo <;> simp [hinfo]

theorem usersWith_delete {info info' : ℤ} :
    Tables.usersWith { t with
      usermap := t.usermap.deleteWhere fun r => r.userid = user ∧ r.info = info } info' =
      if info = info' then (t.usersWith info').erase user else t.usersWith info' := by
  rw [Tables.usersWith, Table.rows_deleteWhere, List.filter_filter]
  split_ifs with hinfo
  · rw [t.nodup_usersWith info' |>.erase_eq_filter, Tables.usersWith, List.filter_map,
      List.filter_filter]
    congr 1
    apply List.filter_congr
    intro r _
    subst hinfo
    by_cases hr : r.info = info <;> simp [hr, bne, beq_eq_decide]
  · congr 1
    apply List.filter_congr
    intro r _
    by_cases hr : r.info = info'
    · have hne : r.info ≠ info := fun h => hinfo (h.symm.trans hr)
      simp [hne]
    · simp [hr]

theorem owner?_eq_head? : t.owner? = (t.usersWith 0).head? := by
  rw [Tables.owner?, Tables.usersWith, List.head?_map, List.head?_filter]

theorem roster_insert (type : ListType) {usermap : Table UserRow UserEntry UserRow.entries}
    (h : t.usermap.insert ⟨user, (toInfoType type).number⟩ = some usermap) :
    roster { t with usermap } =
      (roster t).setList ((roster t).list type ++ [user]) type := by
  simp only [roster, owner?_eq_head?, usersWith_insert h]
  cases type <;> rfl

theorem roster_delete (type : ListType) :
    roster { t with
      usermap := t.usermap.deleteWhere fun r =>
        r.userid = user ∧ r.info = (toInfoType type).number } =
      (roster t).setList (((roster t).list type).erase user) type := by
  simp only [roster, owner?_eq_head?, usersWith_delete]
  cases type <;> rfl

theorem roster_claim {usermap : Table UserRow UserEntry UserRow.entries}
    (h : t.usermap.insert ⟨user, 0⟩ = some usermap) :
    roster { t with usermap } = { roster t with owner := some user } := by
  have hnone : t.usersWith 0 = [] := by
    rw [← List.head?_eq_none_iff, ← owner?_eq_head?]
    exact owner?_of_insert h
  simp only [roster, owner?_eq_head?, usersWith_insert h, hnone]
  rfl

end Roster

-- Whatever call of the library fails.
theorem listStep_roster (c : Conn) (call : ListCall) :
    (roster c.tables).Step call (listStep database c call).1
      (roster (listStep database c call).2.tables) := by
  cases call with
  | addUserToList type user =>
    obtain ⟨hok, usermap, hinsert, htables⟩ | ⟨hne, htables⟩ :=
      addUserToInfo_cases (toInfoType type) user c
    · simp only [listStep, database, addUserToList, hok, htables, roster_insert type hinsert]
      have habsent := info?_of_insert hinsert
      have hfree : ∀ info, user ∉ c.tables.usersWith info := by
        intro info
        rw [Tables.mem_usersWith, habsent]
        exact nofun
      refine .added ?_ ?_ ?_
      · rw [list_roster]
        exact hfree _
      · cases type <;> exact hfree _
      · intro _ howner
        rw [roster, Tables.owner?_iff_info?, habsent] at howner
        cases howner
    · simp only [listStep, database, addUserToList, htables]
      exact .unchanged (by simp)
  | removeUserFromList type user =>
    obtain ⟨hok, htables⟩ | ⟨hne, htables⟩ := removeUserFromList_cases type user c
    · simp only [listStep, database, hok, htables, roster_delete]
      exact .removed
    · simp only [listStep, database, htables]
      exact .unchanged (by simp)
  | checkUserInList type user =>
    have htables : (checkUserInList type user c).2.tables = c.tables := by
      rw [checkUserInList, checkUserInInfo_eq]
      split_ifs <;> rfl
    simp only [listStep, database, htables]
    exact .unchanged (by simp)
  | claimOwnerUserId user =>
    obtain ⟨hok, usermap, hinsert, htables⟩ | ⟨hne, htables⟩ := claimOwnerUserId_cases user c
    · simp only [listStep, database, hok, htables, roster_claim hinsert]
      refine .claimed (owner?_of_insert hinsert) ?_
      intro hblack
      rw [roster, Tables.mem_usersWith, info?_of_insert hinsert] at hblack
      cases hblack
    · simp only [listStep, database, htables]
      exact .unchanged (by simpa using hne)
  | getOwnerUserId =>
    simp only [listStep, database, tables_getOwnerUserId]
    exact .unchanged (by simp)

end Sqlite

namespace Protobuf

variable {codec : Codec}

def rosterOf (object : Database) : Roster :=
  ⟨object.ownerId, getPersonList object .WHITELIST, getPersonList object .BLACKLIST⟩

def roster (s : ProtoDatabase) : Roster :=
  (s.dbinfo.map fun info => rosterOf info.object).getD .empty

theorem roster_withObject (s : ProtoDatabase) (info : Info) (object : Database) :
    roster (s.withObject info object) = rosterOf object := rfl

theorem list_rosterOf (object : Database) (type : ListType) :
    (rosterOf object).list type = getPersonList object type := by
  cases type <;> rfl

theorem otherList_rosterOf (object : Database) (type : ListType) :
    (rosterOf object).otherList type = getOtherPersonList object type := by
  cases type <;> rfl

theorem rosterOf_setPersonList (object : Database) (ids : List UserId) (type : ListType) :
    rosterOf (setPersonList object ids type) = (rosterOf object).setList ids type := by
  cases type <;> rfl

theorem rosterOf_mutablePersonList (object : Database) (type : ListType) :
    rosterOf (mutablePersonList object type) = rosterOf object := by
  cases type <;> rfl

theorem getPersonList_mutable (object : Database) (type : ListType) :
    getPersonList (mutablePersonList object type) type = getPersonList object type := by
  cases type <;> rfl

theorem findByUid_eq (list : List UserId) (uid : UserId) :
    findByUid list uid = list.idxOf? uid := by
  simp only [findByUid, List.idxOf?, beq_eq_decide]

theorem isSome_findByUid {list : List UserId} {uid : UserId} :
    (findByUid list uid).isSome = true ↔ uid ∈ list := by
  rw [findByUid_eq, List.isSome_idxOf?]

theorem eraseIdx_findByUid {list : List UserId} {uid : UserId} {loc : ℕ}
    (h : findByUid list uid = some loc) : list.eraseIdx loc = list.erase uid := by
  rw [findByUid_eq] at h
  rw [List.erase_eq_eraseIdx, h]

-- A save that fails puts the roster back.
theorem roster_commit {α : Type} (s : ProtoDatabase) (info : Info) (object previous : Database)
    (success failure : α) :
    (s.commit codec info object previous success failure).1 = success ∧
      roster (s.commit codec info object previous success failure).2 = rosterOf object ∨
    (s.commit codec info object previous success failure).1 = failure ∧
      roster (s.commit codec info object previous success failure).2 = rosterOf previous := by
  have hinfo : (persistLocked codec (s.withObject info object)).2.dbinfo =
      some { info with object } := by
    simp only [persistLocked, ProtoDatabase.withObject]
    split_ifs <;> rfl
  unfold ProtoDatabase.commit
  simp only
  split
  · refine Or.inl ⟨rfl, ?_⟩
    rw [roster, hinfo]
    rfl
  · exact Or.inr ⟨rfl, rfl⟩

theorem listStep_roster (s : ProtoDatabase) (call : ListCall) :
    (roster s).Step call (listStep (database codec) s call).1
      (roster (listStep (database codec) s call).2) := by
  cases hs : s.dbinfo with
  | none =>
    cases call <;> simp only [listStep, database, addUserToList, removeUserFromList,
      checkUserInList, claimOwnerUserId, getOwnerUserId, hs] <;> exact .unchanged (by simp)
  | some info =>
    have hroster : roster s = rosterOf info.object := by
      rw [roster, hs]
      rfl
    cases call with
    | addUserToList type user =>
      simp only [listStep, database, addUserToList, hs, getPersonList_mutable]
      split_ifs with howner hother hmine
      · exact .unchanged (by simp)
      · exact .unchanged (by simp)
      · rw [roster_withObject, rosterOf_mutablePersonList, hroster]
        exact .unchanged (by simp)
      · obtain ⟨hok, hr⟩ | ⟨hfailed, hr⟩ := @roster_commit codec _ s info
          (setPersonList (mutablePersonList info.object type)
            (getPersonList info.object type ++ [user]) type)
          (mutablePersonList info.object type) ListResult.OK .BACKEND_ERROR
        · rw [hok, hr, hroster, rosterOf_setPersonList, rosterOf_mutablePersonList,
            ← list_rosterOf]
          rw [isSome_findByUid] at hother hmine
          refine .added ?_ ?_ ?_
          · rwa [list_rosterOf]
          · rwa [otherList_rosterOf]
          · exact fun htype hown => howner ⟨htype, hown⟩
        · rw [hfailed, hr, hroster, rosterOf_mutablePersonList]
          exact .unchanged (by simp)
    | removeUserFromList type user =>
      simp only [listStep, database, removeUserFromList, hs, getPersonList_mutable]
      cases hloc : findByUid (getPersonList info.object type) user with
      | none =>
        simp only [roster_withObject, rosterOf_mutablePersonList, hroster]
        exact .unchanged (by simp)
      | some loc =>
        simp only
        obtain ⟨hok, hr⟩ | ⟨hfailed, hr⟩ := @roster_commit codec _ s info
          (setPersonList (mutablePersonList info.object type)
            ((getPersonList info.object type).eraseIdx loc) type)
          (mutablePersonList info.object type) ListResult.OK .BACKEND_ERROR
        · rw [hok, hr, hroster, rosterOf_setPersonList, rosterOf_mutablePersonList,
            eraseIdx_findByUid hloc, ← list_rosterOf]
          exact .removed
        · rw [hfailed, hr, hroster, rosterOf_mutablePersonList]
          exact .unchanged (by simp)
    | checkUserInList type user =>
      simp only [listStep, database, checkUserInList, hs]
      split_ifs <;> exact .unchanged (by simp)
    | claimOwnerUserId user =>
      simp only [listStep, database, claimOwnerUserId, hs]
      split_ifs with howner hblack
      · exact .unchanged (by simp)
      · exact .unchanged (by simp)
      · rw [Bool.not_eq_true, Option.isSome_eq_false_iff, Option.isNone_iff_eq_none] at howner
        obtain ⟨hok, hr⟩ | ⟨hfailed, hr⟩ := @roster_commit codec _ s info
          { info.object with ownerId := some user } { info.object with ownerId := none }
          OwnerClaimResult.OK .BACKEND_ERROR
        · rw [hok, hr, hroster]
          rw [isSome_findByUid] at hblack
          exact .claimed howner hblack
        · have hsame :
              rosterOf { info.object with ownerId := none } = rosterOf info.object := by
            simp only [rosterOf, howner]
            rfl
          rw [hfailed, hr, hroster, hsame]
          exact .unchanged (by simp)
    | getOwnerUserId =>
      simp only [listStep, database, getOwnerUserId]
      exact .unchanged (by simp)

theorem getOwnerUserId_eq (s : ProtoDatabase) : (getOwnerUserId s).1 = (roster s).owner := by
  unfold getOwnerUserId roster
  cases s.dbinfo <;> rfl

end Protobuf

-- What holds of a backend after a history of calls: `owner` is what it answers when asked.
structure ListsSound (r : Roster) (history : List (ListCall × ListAnswer))
    (owner : Option UserId) : Prop where
  consistent : r.Consistent
  one_claim : (claimants history).length ≤ 1
  owner_kept : ∀ user ∈ claimants history, owner = some user

theorem Roster.Kept.sound {r : Roster} {history : List (ListCall × ListAnswer)}
    (h : r.Kept history) : ListsSound r history r.owner := by
  obtain ⟨hconsistent, hclaims⟩ := h
  refine ⟨hconsistent, ?_, ?_⟩ <;> rw [hclaims]
  · cases r.owner <;> simp
  · intro user huser
    exact Option.mem_toList.mp huser

-- Every storage failure is possible at every call of the run; the owner is then read without one.
theorem lists_sound (codec : Protobuf.Codec) (path : Bytes) (files : FileStore Bytes UInt8)
    (pid sequence : ℕ) (failures : ℕ → Option Protobuf.SaveStage) (planner : Sqlite.Planner)
    (faults : ℕ → Option ℤ) (calls : List ListCall) :
    (let t := (listStep Sqlite.database).recorded.run (Sqlite.Conn.fresh planner faults, []) calls
     ListsSound (Sqlite.roster t.1.tables) t.2
       (Sqlite.getOwnerUserId { t.1 with faults := fun _ => none }).1) ∧
    (let t := (listStep (Protobuf.database codec)).recorded.run
       (Protobuf.ProtoDatabase.fresh path files pid sequence failures, []) calls
     ListsSound (Protobuf.roster t.1) t.2 (Protobuf.getOwnerUserId t.1).1) := by
  constructor
  · intro t
    have hkept : (Sqlite.roster t.1.tables).Kept t.2 :=
      @kept_of_steps Sqlite.Conn _ (fun c => Sqlite.roster c.tables) Sqlite.listStep_roster _ rfl
        calls
    have howner : (Sqlite.getOwnerUserId { t.1 with faults := fun _ => none }).1 =
        (Sqlite.roster t.1.tables).owner := by
      rw [Sqlite.getOwnerUserId_eq]
      rfl
    rw [howner]
    exact hkept.sound
  · intro t
    have hkept : (Protobuf.roster t.1).Kept t.2 :=
      kept_of_steps Protobuf.listStep_roster rfl calls
    rw [Protobuf.getOwnerUserId_eq]
    exact hkept.sound

end Glider.Db

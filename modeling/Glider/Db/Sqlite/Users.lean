import Glider.Db.Sqlite.Backend

namespace Glider.Db.Sqlite

open Glider.Lib

theorem Planner.order_toList (planner : Planner) (n : ℕ) (row : Option Row) :
    planner.order n row.toList = row.toList := by
  have hperm := planner.perm n row.toList
  cases row with
  | none => exact hperm.eq_nil
  | some row => exact List.perm_singleton.mp hperm

section Lookup

variable (t : Tables) (user : UserId)

-- The list a user is on, and the owner.
def Tables.info? : Option ℤ := (t.usermap.rows.find? fun r => r.userid = user).map UserRow.info

def Tables.owner? : Option UserId := (t.usermap.rows.find? fun r => r.info = 0).map UserRow.userid

variable {t user}

theorem Tables.find_user_iff {r : UserRow} :
    (t.usermap.rows.find? fun r => decide (r.userid = user)) = some r ↔
      r ∈ t.usermap.rows ∧ r.userid = user := by
  rw [t.usermap.find?_eq_some_iff_mem (.userid user), decide_eq_true_eq]
  intro r _ h
  simp only [decide_eq_true_eq] at h
  simp [UserRow.entries, h]

theorem Tables.find_owner_iff {r : UserRow} :
    (t.usermap.rows.find? fun r => decide (r.info = 0)) = some r ↔
      r ∈ t.usermap.rows ∧ r.info = 0 := by
  rw [t.usermap.find?_eq_some_iff_mem .owner, decide_eq_true_eq]
  intro r _ h
  simp only [decide_eq_true_eq] at h
  simp [UserRow.entries, h]

theorem Tables.info?_eq_some {info : ℤ} :
    t.info? user = some info ↔ ⟨user, info⟩ ∈ t.usermap.rows := by
  simp only [Tables.info?, Option.map_eq_some_iff, find_user_iff]
  constructor
  · rintro ⟨⟨userid, info'⟩, ⟨hr, rfl⟩, rfl⟩
    exact hr
  · exact fun h => ⟨⟨user, info⟩, ⟨h, rfl⟩, rfl⟩

theorem Tables.owner?_eq_some : t.owner? = some user ↔ ⟨user, 0⟩ ∈ t.usermap.rows := by
  simp only [Tables.owner?, Option.map_eq_some_iff, find_owner_iff]
  constructor
  · rintro ⟨⟨userid, info⟩, ⟨hr, rfl⟩, rfl⟩
    exact hr
  · exact fun h => ⟨⟨user, 0⟩, ⟨h, rfl⟩, rfl⟩

theorem Tables.owner?_iff_info? : t.owner? = some user ↔ t.info? user = some 0 := by
  rw [owner?_eq_some, info?_eq_some]

end Lookup

section Spec

variable {c : Conn} {user : UserId}

theorem eval_findUser (t : Tables) (user : UserId) :
    Script.findUser.eval ([.int user].map Helper.bound) t =
      .ok (.rows ((t.info? user).map fun info => [.int info]).toList) := by
  have hfilter : (t.usermap.rows.filter fun r => decide (Value.int r.userid = Value.int user)) =
      (t.usermap.rows.find? fun r => decide (r.userid = user)).toList := by
    simp only [Value.int.injEq]
    apply t.usermap.filter_eq_find (.userid user)
    intro r _ h
    simp only [decide_eq_true_eq] at h
    simp [UserRow.entries, h]
  simp only [Script.eval, List.map_cons, List.map_nil, Helper.bound, List.getD_cons_zero, hfilter,
    Tables.info?]
  cases t.usermap.rows.find? fun r => decide (r.userid = user) <;> rfl

theorem eval_findOwner (t : Tables) :
    Script.findOwner.eval ([].map Helper.bound) t =
      .ok (.rows (t.owner?.map fun user => [.int user]).toList) := by
  have hfilter : (t.usermap.rows.filter fun r => decide (r.info = 0)) =
      (t.usermap.rows.find? fun r => decide (r.info = 0)).toList := by
    apply t.usermap.filter_eq_find .owner
    intro r _ h
    simp only [decide_eq_true_eq] at h
    simp [UserRow.entries, h]
  simp only [Script.eval, hfilter, Tables.owner?]
  cases t.usermap.rows.find? fun r => decide (r.info = 0) <;> rfl

-- What the lookup of a user answers for the list `type`.
def listed (type : InfoType) : Option ℤ → ListResult
  | none => .NOT_IN_LIST
  | some info => if toInt32 info = type.number then .OK else .ALREADY_IN_OTHER_LIST

theorem checkUserInInfo_eq (type : InfoType) : checkUserInInfo type user c =
    if c.fault.isSome then (.BACKEND_ERROR, c.after 1)
    else if (c.after 1).fault.isSome then (.NOT_IN_LIST, c.after 2)
    else (listed type (c.tables.info? user), c.after 2) := by
  unfold checkUserInInfo
  rw [firstRow_of_rows (eval_findUser c.tables user), Planner.order_toList]
  cases c.fault.isSome with
  | true => rfl
  | false =>
    cases (c.after 1).fault.isSome with
    | true => rfl
    | false => cases c.tables.info? user <;> rfl

theorem getOwnerUserId_eq : getOwnerUserId c =
    if c.fault.isSome then (none, c.after 1)
    else if (c.after 1).fault.isSome then (none, c.after 2)
    else (c.tables.owner?, c.after 2) := by
  unfold getOwnerUserId
  rw [firstRow_of_rows (eval_findOwner c.tables), Planner.order_toList]
  cases c.fault.isSome with
  | true => rfl
  | false =>
    cases (c.after 1).fault.isSome with
    | true => rfl
    | false => cases c.tables.owner? <;> rfl

theorem execute_insertUser (user info : ℤ) : execute .insertUser [.int user, .int info] c =
    if c.fault.isSome then (none, c.after 1)
    else if (c.after 1).fault.isSome then (some false, c.after 2)
    else
      match c.tables.usermap.insert ⟨user, info⟩ with
      | some usermap =>
        (some true, { c.after 2 with tables := { c.tables with usermap }, changes := 1 })
      | none => (some false, c.after 2) := by
  have heval : Script.insertUser.eval ([.int user, .int info].map Helper.bound) c.tables =
      inserted ((c.tables.usermap.insert ⟨user, info⟩).map fun usermap =>
        { c.tables with usermap }) := rfl
  rw [execute_eq, heval]
  · cases c.tables.usermap.insert ⟨user, info⟩ <;> rfl
  · intro rows
    rw [heval]
    cases c.tables.usermap.insert ⟨user, info⟩ <;> exact nofun

theorem execute_removeUser (user info : ℤ) : execute .removeUser [.int user, .int info] c =
    if c.fault.isSome then (none, c.after 1)
    else if (c.after 1).fault.isSome then (some false, c.after 2)
    else (some true, { c.after 2 with
      tables := { c.tables with
        usermap := c.tables.usermap.deleteWhere fun r => r.userid = user ∧ r.info = info }
      changes := (c.tables.usermap.rows.filter fun r => r.userid = user ∧ r.info = info).length }) := by
  have heval : Script.removeUser.eval ([.int user, .int info].map Helper.bound) c.tables =
      .ok (.changed { c.tables with
        usermap := c.tables.usermap.deleteWhere fun r => r.userid = user ∧ r.info = info }
        (c.tables.usermap.rows.filter fun r => r.userid = user ∧ r.info = info).length) := by
    simp only [Script.eval, List.map_cons, List.map_nil, Helper.bound, List.getD_cons_zero,
      List.getD_cons_succ, Value.int.injEq]
  rw [execute_eq, heval]
  intro rows
  rw [heval]
  exact nofun

-- Only an insertion that the table allows is answered with `OK`, and only it changes the table.
theorem addUserToInfo_cases (type : InfoType) (user : UserId) (c : Conn) :
    ((addUserToInfo type user c).1 = .OK ∧ ∃ usermap,
      c.tables.usermap.insert ⟨user, type.number⟩ = some usermap ∧
        (addUserToInfo type user c).2.tables = { c.tables with usermap }) ∨
    ((addUserToInfo type user c).1 ≠ .OK ∧ (addUserToInfo type user c).2.tables = c.tables) := by
  have hcheck : (checkUserInInfo type user c).2.tables = c.tables := by
    rw [checkUserInInfo_eq]
    split_ifs <;> rfl
  unfold addUserToInfo
  generalize checkUserInInfo type user c = checked at hcheck ⊢
  obtain ⟨res, c'⟩ := checked
  simp only at hcheck
  cases res with
  | NOT_IN_LIST =>
    simp only [execute_insertUser, hcheck]
    cases c'.fault.isSome with
    | true => exact Or.inr ⟨nofun, hcheck⟩
    | false =>
      cases (c'.after 1).fault.isSome with
      | true => exact Or.inr ⟨nofun, hcheck⟩
      | false =>
        cases hinsert : c.tables.usermap.insert ⟨user, type.number⟩ with
        | none => exact Or.inr ⟨nofun, hcheck⟩
        | some usermap => exact Or.inl ⟨rfl, usermap, rfl, rfl⟩
  | OK | ALREADY_IN_LIST | ALREADY_IN_OTHER_LIST | BACKEND_ERROR => exact Or.inr ⟨nofun, hcheck⟩

theorem removeUserFromList_cases (type : ListType) (user : UserId) (c : Conn) :
    ((removeUserFromList type user c).1 = .OK ∧
      (removeUserFromList type user c).2.tables = { c.tables with
        usermap := c.tables.usermap.deleteWhere fun r =>
          r.userid = user ∧ r.info = (toInfoType type).number }) ∨
    ((removeUserFromList type user c).1 ≠ .OK ∧
      (removeUserFromList type user c).2.tables = c.tables) := by
  have hcheck : (checkUserInList type user c).2.tables = c.tables := by
    rw [checkUserInList, checkUserInInfo_eq]
    split_ifs <;> rfl
  unfold removeUserFromList
  generalize checkUserInList type user c = checked at hcheck ⊢
  obtain ⟨res, c'⟩ := checked
  simp only at hcheck
  cases res with
  | OK =>
    simp only [execute_removeUser, hcheck]
    cases c'.fault.isSome with
    | true => exact Or.inr ⟨nofun, hcheck⟩
    | false =>
      cases (c'.after 1).fault.isSome with
      | true => exact Or.inr ⟨nofun, hcheck⟩
      | false => exact Or.inl ⟨rfl, rfl⟩
  | NOT_IN_LIST => exact Or.inr ⟨nofun, hcheck⟩
  | ALREADY_IN_LIST | ALREADY_IN_OTHER_LIST | BACKEND_ERROR => exact Or.inr ⟨nofun, hcheck⟩

theorem tables_getOwnerUserId (c : Conn) : (getOwnerUserId c).2.tables = c.tables := by
  rw [getOwnerUserId_eq]
  split_ifs <;> rfl

theorem claimOwnerUserId_cases (user : UserId) (c : Conn) :
    ((claimOwnerUserId user c).1 = .OK ∧ ∃ usermap,
      c.tables.usermap.insert ⟨user, 0⟩ = some usermap ∧
        (claimOwnerUserId user c).2.tables = { c.tables with usermap }) ∨
    ((claimOwnerUserId user c).1 ≠ .OK ∧ (claimOwnerUserId user c).2.tables = c.tables) := by
  have howner := tables_getOwnerUserId c
  unfold claimOwnerUserId
  generalize getOwnerUserId c = found at howner ⊢
  obtain ⟨owner, c'⟩ := found
  simp only at howner
  cases owner with
  | some _ => exact Or.inr ⟨nofun, howner⟩
  | none =>
    have hadd := addUserToInfo_cases .OWNER user c'
    rw [howner] at hadd
    simp only
    generalize addUserToInfo .OWNER user c' = added at hadd ⊢
    obtain ⟨res, c''⟩ := added
    -- the second look at the owner decides between two refusals only
    have hsecond : (getOwnerUserId c'').2.tables = c''.tables := tables_getOwnerUserId c''
    simp only at hadd
    cases res with
    | OK =>
      rcases hadd with ⟨-, hinsert⟩ | ⟨hne, -⟩
      · exact Or.inl ⟨rfl, hinsert⟩
      · exact absurd rfl hne
    | NOT_IN_LIST => exact Or.inr ⟨nofun, (hadd.resolve_left fun h => nomatch h.1).2⟩
    | ALREADY_IN_LIST => exact Or.inr ⟨nofun, (hadd.resolve_left fun h => nomatch h.1).2⟩
    | ALREADY_IN_OTHER_LIST | BACKEND_ERROR =>
      have htables := (hadd.resolve_left fun h => nomatch h.1).2
      simp only
      generalize getOwnerUserId c'' = found at hsecond ⊢
      obtain ⟨_ | _, last⟩ := found <;> exact Or.inr ⟨nofun, hsecond.trans htables⟩

end Spec

end Glider.Db.Sqlite

import Glider.Db.Sqlite.Backend
import Glider.Db.Sqlite.Load
import Glider.Lib.Transaction

namespace Glider.Db.Sqlite

open Glider.Lib

-- What a column may hold. By the affinity of `info`, a real that is a whole number is stored as an
-- integer.
inductive Datum where
  | null
  | int (n : ℤ)
  | real (bits : ℕ)
  | text (s : Bytes)
  | blob (b : Bytes)
  deriving DecidableEq

structure LegacyRow where
  rowid : ℤ
  userid : ℤ
  info : Datum

-- `info = 0`
def LegacyRow.IsOwner (r : LegacyRow) : Prop := r.info = .int 0

instance : DecidablePred LegacyRow.IsOwner := fun r => inferInstanceAs (Decidable (r.info = _))

def owners (rows : List LegacyRow) : List LegacyRow := rows.filter fun r => r.IsOwner

-- `SELECT .. FROM usermap WHERE info = 0 ORDER BY rowid LIMIT 1`
def earliestOwner (rows : List LegacyRow) : List LegacyRow := firstBy LegacyRow.rowid (owners rows)

-- `UPDATE usermap SET info = 2 WHERE info = 0 AND rowid NOT IN (..)`
def demoteRow (kept : List ℤ) (r : LegacyRow) : LegacyRow :=
  if r.IsOwner ∧ r.rowid ∉ kept then { r with info := .int 2 } else r

def demote (rows : List LegacyRow) : List LegacyRow :=
  rows.map (demoteRow ((earliestOwner rows).map LegacyRow.rowid))

section Demote

variable {rows : List LegacyRow} {r : LegacyRow} {kept : List ℤ}

@[simp] theorem rowid_demoteRow : (demoteRow kept r).rowid = r.rowid := by
  unfold demoteRow
  split <;> rfl

@[simp] theorem userid_demoteRow : (demoteRow kept r).userid = r.userid := by
  unfold demoteRow
  split <;> rfl

theorem map_rowid_demote : (demote rows).map LegacyRow.rowid = rows.map LegacyRow.rowid := by
  simp [demote]

theorem map_userid_demote : (demote rows).map LegacyRow.userid = rows.map LegacyRow.userid := by
  simp [demote]

theorem isOwner_demoteRow : (demoteRow kept r).IsOwner ↔ r.IsOwner ∧ r.rowid ∈ kept := by
  unfold demoteRow
  split
  · next h => simp [LegacyRow.IsOwner, h]
  · next h =>
    rw [not_and, not_not] at h
    exact ⟨fun howner => ⟨howner, h howner⟩, And.left⟩

theorem mem_earliestOwner (hrowids : (rows.map LegacyRow.rowid).Nodup) :
    r ∈ earliestOwner rows ↔
      r ∈ rows ∧ r.IsOwner ∧ ∀ o ∈ rows, o.IsOwner → r.rowid ≤ o.rowid := by
  have hsublist : ((owners rows).map LegacyRow.rowid).Sublist (rows.map LegacyRow.rowid) :=
    List.filter_sublist.map _
  rw [earliestOwner, mem_firstBy (hsublist.nodup hrowids)]
  simp [owners, and_assoc]

-- Whatever the rows were, at most one owner is left for the unique index.
theorem length_owners_demote (hrowids : (rows.map LegacyRow.rowid).Nodup) :
    (owners (demote rows)).length ≤ 1 := by
  have hsublist : ((owners (demote rows)).map LegacyRow.rowid).Sublist
      ((demote rows).map LegacyRow.rowid) := List.filter_sublist.map _
  rw [map_rowid_demote] at hsublist
  have hsubset : (owners (demote rows)).map LegacyRow.rowid ⊆
      (earliestOwner rows).map LegacyRow.rowid := by
    intro rowid hrowid
    obtain ⟨r, hr, rfl⟩ := List.mem_map.mp hrowid
    obtain ⟨hr, howner⟩ := List.mem_filter.mp hr
    obtain ⟨s, -, rfl⟩ := List.mem_map.mp hr
    rw [rowid_demoteRow]
    exact (isOwner_demoteRow.mp (of_decide_eq_true howner)).2
  have hlength := (List.subperm_of_subset (hsublist.nodup hrowids) hsubset).length_le
  rw [List.length_map, List.length_map] at hlength
  exact hlength.trans length_firstBy_le

theorem demote_of_length (h : (owners rows).length ≤ 1) : demote rows = rows := by
  refine (List.map_congr_left fun r hr => ?_).trans (List.map_id rows)
  refine if_neg ?_
  rintro ⟨howner, hrowid⟩
  have hmem : r ∈ owners rows := List.mem_filter.mpr ⟨hr, decide_eq_true howner⟩
  obtain ⟨s, hs⟩ := List.length_eq_one_iff.mp (le_antisymm h (List.length_pos_of_mem hmem))
  rw [hs, List.mem_singleton] at hmem
  subst hmem
  apply hrowid
  rw [earliestOwner, hs]
  simp [firstBy]

end Demote

-- A file with a `usermap`. Of the other four tables some may be missing.
structure DatabaseFile where
  usermap : List LegacyRow
  otherTables : ℕ
  ownerSingleton : Bool
  userVersion : ℤ
  rowids : (usermap.map LegacyRow.rowid).Nodup
  userids : (usermap.map LegacyRow.userid).Nodup
  otherTables_le : otherTables ≤ 4
  singleton : ownerSingleton = true → (owners usermap).length ≤ 1

namespace DatabaseFile

def SQLITE_CONSTRAINT : ErrorCode := ⟨19, by decide⟩

def demoteOwners (f : DatabaseFile) : DatabaseFile :=
  { f with
    usermap := demote f.usermap
    rowids := by
      rw [map_rowid_demote]
      exact f.rowids
    userids := by
      rw [map_userid_demote]
      exact f.userids
    singleton := fun _ => length_owners_demote f.rowids }

-- `CREATE UNIQUE INDEX IF NOT EXISTS owner_singleton ON usermap(info) WHERE info = 0`
def createOwnerSingleton (f : DatabaseFile) : Except ErrorCode DatabaseFile :=
  if f.ownerSingleton then .ok f
  else if h : (owners f.usermap).length ≤ 1 then
    .ok { f with ownerSingleton := true, singleton := fun _ => h }
  else .error SQLITE_CONSTRAINT

def setUserVersion (f : DatabaseFile) : DatabaseFile := { f with userVersion := 2 }

-- What the migration leaves when nothing fails.
def migrated (f : DatabaseFile) : DatabaseFile :=
  { f.demoteOwners with
    ownerSingleton := true
    userVersion := 2
    singleton := fun _ => length_owners_demote f.rowids }

end DatabaseFile

def migrationEffects : List (DatabaseFile → Except ErrorCode DatabaseFile) :=
  [fun f => .ok f.demoteOwners, DatabaseFile.createOwnerSingleton, fun f => .ok f.setUserVersion]

def kOwnerMigration : List (Statement DatabaseFile) :=
  .begin :: migrationEffects.map Statement.change ++ [.commit]

theorem migrationEffects_eq (f : DatabaseFile) :
    migrationEffects.foldlM (fun content effect => effect content) f = .ok f.migrated := by
  have hindex : f.demoteOwners.createOwnerSingleton = .ok { f.demoteOwners with
      ownerSingleton := true
      singleton := fun _ => length_owners_demote f.rowids } := by
    unfold DatabaseFile.createOwnerSingleton
    split
    · next h =>
      obtain ⟨usermap, otherTables, ownerSingleton, userVersion, _, _, _, _⟩ := f
      obtain rfl : ownerSingleton = true := h
      rfl
    · exact dif_pos (length_owners_demote f.rowids)
  simp only [migrationEffects, List.foldlM_cons, List.foldlM_nil, bind, Except.bind, hindex]
  rfl

theorem DatabaseFile.migrated_migrated (f : DatabaseFile) : f.migrated.migrated = f.migrated := by
  have hrows : demote (demote f.usermap) = demote f.usermap :=
    demote_of_length (length_owners_demote f.rowids)
  simp only [DatabaseFile.migrated, DatabaseFile.demoteOwners, hrows]

-- What the other side answers during one load of the file. A query has the codes of its prepare and
-- of its step; the rows come from the file.
structure Attempt where
  lookup : Except String Unit
  opened : OpenResult
  script : ScriptFile
  execScript : String → ℤ
  userVersion : ℤ × ℤ
  tableCount : ℤ × ℤ
  ownerRows : ℤ × ℤ
  migrationFailures : ℕ → Option Failure
  migrationError : Option String
  rollbackFailures : ℕ → Option Failure
  foreignKeys : ℤ

def Query.answered (codes : ℤ × ℤ) (columns : List ℤ) : Query := ⟨codes.1, codes.2, columns⟩

-- `coalesce((SELECT userid ..), 0)`
def retainedOwner (rows : List LegacyRow) : ℤ :=
  ((earliestOwner rows).head?.map LegacyRow.userid).getD 0

namespace Attempt

variable (a : Attempt) (f : DatabaseFile)

-- With the `ROLLBACK` that follows a failure.
def migrate : Option ErrorCode × Session DatabaseFile :=
  match Session.exec a.migrationFailures 0 kOwnerMigration (Session.opened f) with
  | (none, s) => (none, s)
  | (some code, s) => (some code, (Session.exec a.rollbackFailures 0 [.rollback] s).2)

def environment : Environment where
  exists? := a.lookup.map fun _ => true
  opened := a.opened
  script := a.script
  execScript := a.execScript
  userVersion := .answered a.userVersion [f.userVersion]
  tableCount := .answered a.tableCount [(f.otherTables + 1 : ℕ)]
  owners := .answered a.ownerRows [(owners f.usermap).length, retainedOwner f.usermap]
  migration := (((a.migrate f).1.map Subtype.val).getD SQLITE_OK, a.migrationError)
  foreignKeys := a.foreignKeys

variable {a f}

theorem migrate_cases :
    ((a.migrate f).1 = none ∧ (a.migrate f).2.stored = f.migrated) ∨
      ((a.migrate f).1 ≠ none ∧ (a.migrate f).2.stored = f) := by
  have hscript := @Session.exec_transaction _ a.migrationFailures 0 f migrationEffects
  unfold migrate
  change Session.AllOrNothing f f migrationEffects
    (Session.exec a.migrationFailures 0 kOwnerMigration (Session.opened f)) at hscript
  revert hscript
  obtain ⟨code, s⟩ := Session.exec a.migrationFailures 0 kOwnerMigration (Session.opened f)
  rintro (⟨hcode, f', heffects, hs⟩ | ⟨hcode, hs⟩)
  · obtain rfl : code = none := hcode
    obtain rfl : s = Session.opened f' := hs
    rw [migrationEffects_eq] at heffects
    exact Or.inl ⟨rfl, (Except.ok.inj heffects).symm⟩
  · obtain ⟨code, rfl⟩ := Option.ne_none_iff_exists'.mp hcode
    exact Or.inr ⟨by simp, (Session.stored_exec_rollback s).trans hs⟩

theorem migration_eq_ok_iff :
    (a.environment f).migration.1 = SQLITE_OK ↔ (a.migrate f).1 = none := by
  change ((a.migrate f).1.map Subtype.val).getD SQLITE_OK = SQLITE_OK ↔ _
  cases (a.migrate f).1 with
  | none => simp
  | some code => simpa [SQLITE_OK] using code.property

end Attempt

-- The path of a file; the database in memory is not one.
abbrev FilePath := { filepath : String // filepath ≠ kInMemoryDatabase }

-- `afterOpen` up to the statement of the migration.
def beforeMigration (scriptsPath filepath : String) (env : Environment) (existed : Bool) :
    Except Exit Unit := do
  initializeNew scriptsPath filepath env existed
  let schemaVersion ← readSchemaVersion env
  checkLegacy scriptsPath env schemaVersion existed
  let _ ← readRow env.owners "Failed to inspect legacy SQLite owner rows"
  pure ()

theorem afterOpen_eq (scriptsPath filepath : String) (env : Environment) (existed : Bool) :
    afterOpen scriptsPath filepath env existed =
      beforeMigration scriptsPath filepath env existed >>= fun _ =>
        (if env.migration.1 ≠ SQLITE_OK then
          .error (.failLoad ("Failed to migrate SQLite owner invariant: " ++
            env.migration.2.getD "unknown error"))
        else .ok ()) >>= fun _ => enableForeignKeys env := by
  simp only [afterOpen, beforeMigration, migrateOwners, bind_assoc, pure_bind]
  rfl

theorem ok_of_afterOpen {scriptsPath filepath : String} {env : Environment} {existed : Bool}
    (h : afterOpen scriptsPath filepath env existed = .ok ()) :
    beforeMigration scriptsPath filepath env existed = .ok () ∧ env.migration.1 = SQLITE_OK := by
  rw [afterOpen_eq] at h
  cases hbefore : beforeMigration scriptsPath filepath env existed with
  | error exit =>
    rw [hbefore] at h
    cases h
  | ok u =>
    refine ⟨rfl, ?_⟩
    rw [hbefore] at h
    by_contra hfailed
    rw [if_pos hfailed] at h
    cases h

namespace SQLiteDatabase

def unload (d : SQLiteDatabase) (closed : ℤ) : Bool × SQLiteDatabase :=
  if d.db.isSome ∧ closed = SQLITE_OK then (true, { d with db := none }) else (false, d)

-- What `load` leaves in the file.
def fileAfterLoad (d : SQLiteDatabase) (path : FilePath) (a : Attempt) (f : DatabaseFile) :
    DatabaseFile :=
  if d.db.isSome then f
  else
    match existedBefore path (a.environment f) with
    | none => f
    | some existed =>
      match (a.environment f).opened with
      | .error _ _ => f
      | .ok _ =>
        match beforeMigration d.sqlScriptsPath path (a.environment f) existed with
        | .ok () => (a.migrate f).2.close
        | .error _ => f

variable {d : SQLiteDatabase} {path : FilePath} {a : Attempt} {f : DatabaseFile}

theorem fileAfterLoad_of_loaded (h : (d.load path (a.environment f)).1 = .returned true) :
    (a.migrate f).1 = none ∧ d.fileAfterLoad path a f = f.migrated := by
  unfold load at h
  unfold fileAfterLoad
  split at h
  · cases h
  · next hclosed =>
    rw [if_neg hclosed]
    cases hexisted : existedBefore path (a.environment f) with
    | none =>
      rw [hexisted] at h
      cases h
    | some existed =>
      cases hopened : (a.environment f).opened with
      | error code handle =>
        simp only [hexisted, hopened] at h
        cases h
      | ok handle =>
        simp only [hexisted, hopened] at h
        cases hafter : afterOpen d.sqlScriptsPath path (a.environment f) existed with
        | error exit =>
          rw [hafter] at h
          cases exit <;> simp at h
        | ok u =>
          obtain ⟨hbefore, hmigration⟩ := ok_of_afterOpen hafter
          rw [Attempt.migration_eq_ok_iff] at hmigration
          refine ⟨hmigration, ?_⟩
          simp only [hbefore]
          obtain ⟨-, hstored⟩ | ⟨hfailed, -⟩ := @Attempt.migrate_cases a f
          · exact hstored
          · exact absurd hmigration hfailed

-- Whatever the answers are, the migration has come about or the file is as before.
theorem fileAfterLoad_cases :
    d.fileAfterLoad path a f = f ∨
      (a.migrate f).1 = none ∧ d.fileAfterLoad path a f = f.migrated := by
  unfold fileAfterLoad
  split
  · exact Or.inl rfl
  · split
    · exact Or.inl rfl
    · split
      · exact Or.inl rfl
      · split
        · exact (@Attempt.migrate_cases a f).elim Or.inr fun h => Or.inl h.2
        · exact Or.inl rfl

end SQLiteDatabase

inductive Request where
  | unload (closed : ℤ)
  | load (a : Attempt)

-- The object and the file under one path.
def serve (path : FilePath) : Machine (SQLiteDatabase × DatabaseFile) Request Outcome
  | (d, f), .unload closed => (.returned (d.unload closed).1, (d.unload closed).2, f)
  | (d, f), .load a =>
    ((d.load path (a.environment f)).1, (d.load path (a.environment f)).2,
      d.fileAfterLoad path a f)

theorem run_of_migrated {path : FilePath} {f : DatabaseFile} (h : f.migrated = f)
    (d : SQLiteDatabase) (requests : List Request) :
    (Machine.run (serve path) (d, f) requests).2 = f := by
  induction requests generalizing d with
  | nil => rfl
  | cons request rest ih =>
    rw [Machine.run_cons]
    cases request with
    | unload closed => exact ih _
    | load a =>
      have hfile : d.fileAfterLoad path a f = f := by
        obtain hsame | ⟨-, hmigrated⟩ := @SQLiteDatabase.fileAfterLoad_cases d path a f
        · exact hsame
        · exact hmigrated.trans h
      simp only [serve, hfile]
      exact ih _

-- What becomes of one row of the old table.
structure Carried (before : List LegacyRow) (r r' : LegacyRow) : Prop where
  rowid : r'.rowid = r.rowid
  userid : r'.userid = r.userid
  earliest : r.IsOwner → (∀ o ∈ before, o.IsOwner → r.rowid ≤ o.rowid) → r'.info = r.info
  later : r.IsOwner → (∃ o ∈ before, o.IsOwner ∧ o.rowid < r.rowid) →
    r'.info = .int InfoType.WHITELIST.number
  other : ¬r.IsOwner → r'.info = r.info

structure Migrated (before after : List LegacyRow) : Prop where
  one_owner : (owners after).length ≤ 1
  owner : ∀ r, r ∈ owners after ↔
    r ∈ before ∧ r.IsOwner ∧ ∀ o ∈ before, o.IsOwner → r.rowid ≤ o.rowid
  owned : (∃ r ∈ before, r.IsOwner) → ∃ r, r ∈ owners after
  rows : List.Forall₂ (Carried before) before after

section Migrated

variable {rows : List LegacyRow} (hrowids : (rows.map LegacyRow.rowid).Nodup)

include hrowids

theorem mem_rowids_earliestOwner {r : LegacyRow} (hr : r ∈ rows) :
    r.rowid ∈ (earliestOwner rows).map LegacyRow.rowid ↔ r ∈ earliestOwner rows := by
  constructor
  · intro h
    obtain ⟨s, hs, hrowid⟩ := List.mem_map.mp h
    have hsr : s = r :=
      List.inj_on_of_nodup_map hrowids ((mem_earliestOwner hrowids).mp hs).1 hr hrowid
    exact hsr ▸ hs
  · exact List.mem_map_of_mem

theorem carried_demote {r : LegacyRow} (hr : r ∈ rows) :
    Carried rows r (demoteRow ((earliestOwner rows).map LegacyRow.rowid) r) := by
  refine ⟨rowid_demoteRow, userid_demoteRow, fun howner hleast => ?_, fun howner hearlier => ?_,
    fun hother => ?_⟩
  · have hkept : r ∈ earliestOwner rows := (mem_earliestOwner hrowids).mpr ⟨hr, howner, hleast⟩
    rw [demoteRow, if_neg]
    exact fun h => h.2 ((mem_rowids_earliestOwner hrowids hr).mpr hkept)
  · obtain ⟨o, ho, hoowner, hlt⟩ := hearlier
    rw [demoteRow, if_pos]
    · rfl
    · refine ⟨howner, fun hkept => ?_⟩
      rw [mem_rowids_earliestOwner hrowids hr, mem_earliestOwner hrowids] at hkept
      exact absurd (hkept.2.2 o ho hoowner) (not_le.mpr hlt)
  · rw [demoteRow, if_neg]
    exact fun h => hother h.1

theorem mem_owners_demote {r : LegacyRow} : r ∈ owners (demote rows) ↔ r ∈ earliestOwner rows := by
  rw [owners, List.mem_filter, decide_eq_true_eq]
  constructor
  · rintro ⟨hr, howner⟩
    obtain ⟨s, hs, rfl⟩ := List.mem_map.mp hr
    obtain ⟨howner, hkept⟩ := isOwner_demoteRow.mp howner
    rw [demoteRow, if_neg fun h => h.2 hkept]
    exact (mem_rowids_earliestOwner hrowids hs).mp hkept
  · intro h
    obtain ⟨hr, howner, -⟩ := (mem_earliestOwner hrowids).mp h
    refine ⟨List.mem_map.mpr ⟨r, hr, if_neg fun hdemoted => hdemoted.2 ?_⟩, howner⟩
    exact (mem_rowids_earliestOwner hrowids hr).mpr h

theorem migrated_demote : Migrated rows (demote rows) := by
  refine ⟨length_owners_demote hrowids, fun r => ?_, ?_, ?_⟩
  · rw [mem_owners_demote hrowids, mem_earliestOwner hrowids]
  · rintro ⟨r, hr, howner⟩
    have hne : owners rows ≠ [] :=
      List.ne_nil_of_mem (List.mem_filter.mpr ⟨hr, decide_eq_true howner⟩)
    obtain ⟨s, hs⟩ := @exists_mem_firstBy _ _ _ LegacyRow.rowid _ hne
    exact ⟨s, (mem_owners_demote hrowids).mpr hs⟩
  · rw [demote, List.forall₂_map_right_iff, List.forall₂_same]
    exact fun r hr => carried_demote hrowids hr

end Migrated

-- A load that is accepted has migrated the owners, and whatever is unloaded and loaded after it
-- finds nothing more to do. A migration that fails anywhere leaves the file as it was.
theorem load_migrates (d : SQLiteDatabase) (path : FilePath) (a : Attempt) (f : DatabaseFile) :
    ((serve path (d, f) (.load a)).1 = .returned true →
      Migrated f.usermap (serve path (d, f) (.load a)).2.2.usermap ∧
        ∀ requests, (Machine.run (serve path) (serve path (d, f) (.load a)).2 requests).2 =
          (serve path (d, f) (.load a)).2.2) ∧
    ((a.migrate f).1 ≠ none →
      (serve path (d, f) (.load a)).1 ≠ .returned true ∧
        (serve path (d, f) (.load a)).2.2 = f) := by
  constructor
  · intro hloaded
    obtain ⟨-, hfile⟩ := SQLiteDatabase.fileAfterLoad_of_loaded hloaded
    have hserved : (serve path (d, f) (.load a)).2.2 = f.migrated := hfile
    rw [hserved]
    refine ⟨migrated_demote f.rowids, fun requests => ?_⟩
    have hpair : (serve path (d, f) (.load a)).2 =
        ((serve path (d, f) (.load a)).2.1, f.migrated) := Prod.ext rfl hserved
    rw [hpair]
    exact run_of_migrated f.migrated_migrated _ requests
  · intro hfailed
    refine ⟨fun hloaded => hfailed (SQLiteDatabase.fileAfterLoad_of_loaded hloaded).1, ?_⟩
    obtain hsame | ⟨hmigrated, -⟩ := @SQLiteDatabase.fileAfterLoad_cases d path a f
    · exact hsame
    · exact absurd hmigrated hfailed

-- The number in the column `info`; other data there is none that the operations write.
def LegacyRow.number (r : LegacyRow) : ℤ :=
  match r.info with
  | .int n => n
  | _ => -1

def LegacyRow.toUserRow (r : LegacyRow) : UserRow := ⟨r.userid, r.number⟩

theorem LegacyRow.isOwner_of_number {r : LegacyRow} (h : r.number = 0) : r.IsOwner := by
  unfold LegacyRow.number at h
  unfold LegacyRow.IsOwner
  split at h
  · next n hinfo => rw [hinfo, h]
  · omega

theorem pairwise_not_both {rows : List LegacyRow} (h : (owners rows).length ≤ 1) :
    rows.Pairwise fun r s => ¬(r.IsOwner ∧ s.IsOwner) := by
  induction rows with
  | nil => exact .nil
  | cons r rest ih =>
    by_cases hr : r.IsOwner
    · rw [owners, List.filter_cons_of_pos (by simpa using hr), List.length_cons] at h
      have hnone : rest.filter (fun r => decide r.IsOwner) = [] :=
        List.length_eq_zero_iff.mp (by omega)
      refine .cons (fun s hs hboth => ?_) (ih (by rw [owners, hnone]; exact Nat.zero_le 1))
      exact List.filter_eq_nil_iff.mp hnone s hs (decide_eq_true hboth.2)
    · rw [owners, List.filter_cons_of_neg (by simpa using hr)] at h
      exact .cons (fun s _ hboth => hr hboth.1) (ih h)

theorem UserRow.mem_entries {r : UserRow} {entry : UserEntry} :
    entry ∈ r.entries ↔ entry = .userid r.userid ∨ entry = .owner ∧ r.info = 0 := by
  unfold UserRow.entries
  split <;> simp_all

theorem exists_usermap {f : DatabaseFile} (hindex : f.ownerSingleton = true) :
    ∃ t : Table UserRow UserEntry UserRow.entries, t.rows = f.usermap.map LegacyRow.toUserRow := by
  refine ⟨⟨f.usermap.map LegacyRow.toUserRow, ?_⟩, rfl⟩
  rw [List.flatMap_map, List.nodup_flatMap]
  refine ⟨fun r _ => ?_, ?_⟩
  · unfold UserRow.entries
    split <;> simp
  · have huserids : f.usermap.Pairwise fun r s => r.userid ≠ s.userid :=
      List.pairwise_map.mp f.userids
    refine (huserids.and (pairwise_not_both (f.singleton hindex))).imp ?_
    rintro r s ⟨hne, hboth⟩
    refine List.disjoint_left.mpr ?_
    intro entry hr hs
    rcases UserRow.mem_entries.mp hr with rfl | ⟨rfl, hrowner⟩
    · obtain hs | ⟨hs, -⟩ := UserRow.mem_entries.mp hs
      · exact hne (UserEntry.userid.inj hs)
      · cases hs
    · obtain hs | ⟨-, hsowner⟩ := UserRow.mem_entries.mp hs
      · cases hs
      · exact hboth ⟨LegacyRow.isOwner_of_number hrowner, LegacyRow.isOwner_of_number hsowner⟩

-- What a load hands to the operations is a table with its two unique indexes.
theorem exists_usermap_of_loaded {d : SQLiteDatabase} {path : FilePath} {a : Attempt}
    {f : DatabaseFile} (h : (d.load path (a.environment f)).1 = .returned true) :
    ∃ t : Table UserRow UserEntry UserRow.entries,
      t.rows = (d.fileAfterLoad path a f).usermap.map LegacyRow.toUserRow := by
  rw [(SQLiteDatabase.fileAfterLoad_of_loaded h).2]
  exact exists_usermap rfl

end Glider.Db.Sqlite

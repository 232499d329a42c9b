import Glider.Db.Sqlite.Helper

namespace Glider.Db.Sqlite

open Glider.Lib

def kInMemoryDatabase : String := ":memory:"

def kCreateDatabaseFile : String := "createDatabase.sql"

def kCurrentSchemaVersion : ℤ := 2

def SQLITE_OK : ℤ := 0

def SQLITE_ROW : ℤ := 100

-- What the constructor of `Helper` finds when it opens a script and reads it.
inductive ScriptFile where
  | notOpened
  | readThrows (what : String)
  | content (text : String)

-- A handle comes back from a failed `sqlite3_open` too, unless there was no memory for it.
inductive OpenResult where
  | ok (handle : ℕ)
  | error (code : ℤ) (handle : Option ℕ)

-- A statement that is prepared, stepped once and read.
structure Query where
  prepare : ℤ
  step : ℤ
  columns : List ℤ

def Query.row (q : Query) : Option (List ℤ) :=
  if q.prepare ≠ SQLITE_OK ∨ q.step ≠ SQLITE_ROW then none else some q.columns

def columnInt (row : List ℤ) (i : ℕ) : ℤ := toInt32 (row.getD i 0)

-- Everything outside the object that a load asks: the file system and the library.
structure Environment where
  exists? : Except String Bool
  opened : OpenResult
  script : ScriptFile
  execScript : String → ℤ
  userVersion : Query
  tableCount : Query
  owners : Query
  migration : ℤ × Option String
  foreignKeys : ℤ

structure SQLiteDatabase where
  db : Option ℕ
  sqlScriptsPath : String

inductive Outcome where
  | returned (result : Bool)
  | threw (what : String)
  deriving DecidableEq

-- How the part of `load` after `sqlite3_open` is left before its end.
inductive Exit where
  | failLoad (message : String)
  | threw (what : String)

section Load

variable (scriptsPath filepath : String) (env : Environment)

-- `Helper::create` for a script file.
def openScript : Except Exit String :=
  match env.script with
  | .notOpened =>
    .error (.threw ("Could not open SQL script file: " ++ scriptsPath ++ "/" ++
      kCreateDatabaseFile))
  | .readThrows what => .error (.threw what)
  | .content text => .ok text

def runCreateScript (message : String) : Except Exit Unit := do
  let text ← openScript scriptsPath env
  if env.execScript text ≠ SQLITE_OK then
    throw (.failLoad message)

def readRow (query : Query) (message : String) : Except Exit (List ℤ) :=
  match query.row with
  | none => .error (.failLoad message)
  | some row => .ok row

def initializeNew (existed : Bool) : Except Exit Unit :=
  if !existed || filepath = kInMemoryDatabase then
    runCreateScript scriptsPath env "Error initializing database"
  else .ok ()

def readSchemaVersion : Except Exit ℤ := do
  let row ← readRow env.userVersion "Failed to read SQLite schema version"
  let schemaVersion := columnInt row 0
  if schemaVersion < 0 ∨ schemaVersion > kCurrentSchemaVersion then
    .error (.failLoad ("Unsupported SQLite schema version " ++ toString schemaVersion))
  else
    .ok schemaVersion

def checkLegacy (schemaVersion : ℤ) (existed : Bool) : Except Exit Unit :=
  if schemaVersion = 0 ∧ existed then do
    let row ← readRow env.tableCount "Failed to validate legacy SQLite schema"
    let tableCount := columnInt row 0
    if tableCount = 0 then
      runCreateScript scriptsPath env "Failed to initialize empty legacy database"
    else if tableCount ≠ 5 then
      throw (.failLoad "Incomplete legacy SQLite schema")
  else .ok ()

def migrateOwners : Except Exit Unit := do
  let _ ← readRow env.owners "Failed to inspect legacy SQLite owner rows"
  if env.migration.1 ≠ SQLITE_OK then
    throw (.failLoad ("Failed to migrate SQLite owner invariant: " ++
      env.migration.2.getD "unknown error"))

def enableForeignKeys : Except Exit Unit :=
  if env.foreignKeys ≠ SQLITE_OK then .error (.failLoad "Failed to enable SQLite foreign keys")
  else .ok ()

def afterOpen (existed : Bool) : Except Exit Unit := do
  initializeNew scriptsPath filepath env existed
  let schemaVersion ← readSchemaVersion env
  checkLegacy scriptsPath env schemaVersion existed
  migrateOwners env
  enableForeignKeys env

-- A path that cannot be looked up has no answer.
def existedBefore : Option Bool :=
  if filepath = kInMemoryDatabase then some false
  else
    match env.exists? with
    | .error _ => none
    | .ok existed => some existed

end Load

namespace SQLiteDatabase

def load (d : SQLiteDatabase) (filepath : String) (env : Environment) :
    Outcome × SQLiteDatabase :=
  if d.db.isSome then (.returned false, d)
  else
    match existedBefore filepath env with
    | none => (.returned false, d)
    | some existed =>
      match env.opened with
      | .error _ _ => (.returned false, { d with db := none })
      | .ok handle =>
        match afterOpen d.sqlScriptsPath filepath env existed with
        | .ok () => (.returned true, { d with db := some handle })
        | .error (.failLoad _) => (.returned false, { d with db := none })
        | .error (.threw what) => (.threw what, { d with db := some handle })

end SQLiteDatabase

-- The script that creates the tables is run for a new file, for a database in memory, and for a
-- file without a schema version and without any of the tables.
def RunsScript (filepath : String) (env : Environment) : Prop :=
  (∃ handle, env.opened = .ok handle) ∧
    (existedBefore filepath env = some false ∨
      existedBefore filepath env = some true ∧
        env.userVersion.row.map (fun row => columnInt row 0) = some 0 ∧
        env.tableCount.row.map (fun row => columnInt row 0) = some 0)

def ScriptFile.Readable (file : ScriptFile) : Prop := ∃ text, file = .content text

def Throws {α : Type} (e : Except Exit α) : Prop := ∃ what, e = .error (.threw what)

section Throws

variable {α β : Type} {scriptsPath filepath : String} {env : Environment} {existed : Bool}

theorem throws_bind {e : Except Exit α} {f : α → Except Exit β} :
    Throws (e >>= f) ↔ Throws e ∨ ∃ a, e = .ok a ∧ Throws (f a) := by
  cases e with
  | ok a | error exit => simp [Throws, bind, Except.bind]

theorem not_throws_ok (a : α) : ¬Throws (.ok a) := nofun

theorem not_throws_failLoad (message : String) :
    ¬Throws (.error (.failLoad message) : Except Exit α) := nofun

theorem throws_runCreateScript (message : String) :
    Throws (runCreateScript scriptsPath env message) ↔ ¬env.script.Readable := by
  unfold runCreateScript openScript ScriptFile.Readable
  cases env.script with
  | notOpened | readThrows what => simp [Throws, bind, Except.bind]
  | content text =>
    simp only [ScriptFile.content.injEq, exists_eq', not_true_eq_false, iff_false, bind,
      Except.bind]
    split_ifs
    · exact not_throws_failLoad message
    · exact not_throws_ok ()

theorem not_throws_readRow (query : Query) (message : String) :
    ¬Throws (readRow query message) := by
  unfold readRow
  cases query.row with
  | none => exact not_throws_failLoad message
  | some row => exact not_throws_ok row

theorem readRow_eq_ok {query : Query} {message : String} {row : List ℤ} :
    readRow query message = .ok row ↔ query.row = some row := by
  unfold readRow
  cases query.row <;> simp

theorem not_throws_readSchemaVersion : ¬Throws (readSchemaVersion env) := by
  unfold readSchemaVersion
  rw [throws_bind]
  rintro (h | ⟨row, -, h⟩)
  · exact not_throws_readRow _ _ h
  · dsimp only at h
    split_ifs at h
    · exact not_throws_failLoad _ h
    · exact not_throws_ok _ h

-- The version 0 is one that is let through.
theorem readSchemaVersion_eq_zero :
    readSchemaVersion env = .ok 0 ↔
      env.userVersion.row.map (fun row => columnInt row 0) = some 0 := by
  unfold readSchemaVersion readRow
  cases env.userVersion.row with
  | none => simp [bind, Except.bind]
  | some row =>
    simp only [bind, Except.bind, Option.map_some, Option.some.injEq]
    constructor
    · intro h
      split_ifs at h
      exact Except.ok.inj h
    · intro hzero
      rw [hzero]
      rfl

theorem throws_checkLegacy {schemaVersion : ℤ} :
    Throws (checkLegacy scriptsPath env schemaVersion existed) ↔
      schemaVersion = 0 ∧ existed = true ∧
        env.tableCount.row.map (fun row => columnInt row 0) = some 0 ∧ ¬env.script.Readable := by
  unfold checkLegacy
  by_cases hlegacy : schemaVersion = 0 ∧ existed = true
  · rw [if_pos hlegacy, throws_bind, or_iff_right (not_throws_readRow _ _)]
    simp only [readRow_eq_ok, hlegacy, true_and, Option.map_eq_some_iff]
    constructor
    · rintro ⟨row, hrow, h⟩
      split_ifs at h with hzero hfive
      · exact ⟨⟨row, hrow, hzero⟩, (throws_runCreateScript _).mp h⟩
      · exact (not_throws_failLoad _ h).elim
      · exact (not_throws_ok () h).elim
    · rintro ⟨⟨row, hrow, hzero⟩, hscript⟩
      refine ⟨row, hrow, ?_⟩
      rw [if_pos hzero]
      exact (throws_runCreateScript _).mpr hscript
  · rw [if_neg hlegacy]
    refine iff_of_false (not_throws_ok ()) ?_
    rintro ⟨hversion, hexisted, -⟩
    exact hlegacy ⟨hversion, hexisted⟩

theorem not_throws_migrateOwners : ¬Throws (migrateOwners env) := by
  unfold migrateOwners
  rw [throws_bind]
  rintro (h | ⟨row, -, h⟩)
  · exact not_throws_readRow _ _ h
  · revert h
    split_ifs
    · exact not_throws_failLoad _
    · exact not_throws_ok _

theorem not_throws_enableForeignKeys : ¬Throws (enableForeignKeys env) := by
  unfold enableForeignKeys
  split_ifs
  · exact not_throws_failLoad _
  · exact not_throws_ok _

-- The part after `sqlite3_open` throws exactly when it needs the script and cannot read it.
theorem throws_afterOpen (hpath : existed = true → filepath ≠ kInMemoryDatabase) :
    Throws (afterOpen scriptsPath filepath env existed) ↔
      (existed = false ∨ existed = true ∧
        env.userVersion.row.map (fun row => columnInt row 0) = some 0 ∧
        env.tableCount.row.map (fun row => columnInt row 0) = some 0) ∧
      ¬env.script.Readable := by
  have htail : ∀ (u : Unit), ¬Throws (do migrateOwners env; enableForeignKeys env) := by
    intro u
    rw [throws_bind]
    rintro (h | ⟨_, -, h⟩)
    · exact not_throws_migrateOwners h
    · exact not_throws_enableForeignKeys h
  unfold afterOpen
  rw [throws_bind]
  cases existed with
  | false =>
    have hinit : initializeNew scriptsPath filepath env false =
        runCreateScript scriptsPath env "Error initializing database" := rfl
    rw [hinit, throws_runCreateScript]
    constructor
    · rintro (hscript | ⟨_, -, h⟩)
      · exact ⟨Or.inl rfl, hscript⟩
      · rw [throws_bind, or_iff_right not_throws_readSchemaVersion] at h
        obtain ⟨version, -, h⟩ := h
        rw [throws_bind, throws_checkLegacy] at h
        obtain ⟨-, hexisted, -⟩ | ⟨u, -, h⟩ := h
        · cases hexisted
        · exact (htail u h).elim
    · exact fun h => Or.inl h.2
  | true =>
    have hinit : initializeNew scriptsPath filepath env true = .ok () := by
      simp [initializeNew, hpath rfl]
    simp only [hinit, not_throws_ok, false_or, exists_const, reduceCtorEq, true_and]
    rw [throws_bind, or_iff_right not_throws_readSchemaVersion]
    constructor
    · rintro ⟨version, hversion, h⟩
      rw [throws_bind, throws_checkLegacy] at h
      obtain ⟨rfl, -, htables, hscript⟩ | ⟨u, -, h⟩ := h
      · exact ⟨⟨readSchemaVersion_eq_zero.mp hversion, htables⟩, hscript⟩
      · exact (htail u h).elim
    · rintro ⟨⟨hversion, htables⟩, hscript⟩
      refine ⟨0, readSchemaVersion_eq_zero.mpr hversion, ?_⟩
      rw [throws_bind, throws_checkLegacy]
      exact Or.inl ⟨rfl, rfl, htables, hscript⟩

theorem existedBefore_eq_true (h : existedBefore filepath env = some true) :
    filepath ≠ kInMemoryDatabase := by
  rintro rfl
  simp [existedBefore] at h

end Throws

namespace SQLiteDatabase

variable {d : SQLiteDatabase} {filepath : String} {env : Environment}

-- The object can be used again: whatever a new object could load, it loads too.
structure Unloaded (d : SQLiteDatabase) : Prop where
  db : d.db = none
  loads : ∀ filepath env, (load { d with db := none } filepath env).1 = .returned true →
    (load d filepath env).1 = .returned true

theorem unloaded_of_db (h : d.db = none) : d.Unloaded := by
  refine ⟨h, ?_⟩
  intro filepath env hloads
  have hsame : { d with db := none } = d := by
    cases d
    cases h
    rfl
  rwa [hsame] at hloads

theorem load_open (h : d.db ≠ none) : d.load filepath env = (.returned false, d) := by
  rw [load, if_pos (Option.isSome_iff_ne_none.mpr h)]

-- From an object that is not open, only a throw leaves one that is open and not loaded.
theorem load_failed_iff (h : d.db = none) :
    ((d.load filepath env).1 ≠ .returned true ∧ (d.load filepath env).2.db ≠ none) ↔
      RunsScript filepath env ∧ ¬env.script.Readable := by
  have hclosed : d.db.isSome = false := by rw [h]; rfl
  unfold load RunsScript
  rw [hclosed, if_neg Bool.false_ne_true]
  cases hexisted : existedBefore filepath env with
  | none => simp [h]
  | some existed =>
    cases hopened : env.opened with
    | error code handle => simp
    | ok handle =>
      have hthrows := @throws_afterOpen d.sqlScriptsPath filepath env existed (by
        rintro rfl
        exact existedBefore_eq_true hexisted)
      simp only [OpenResult.ok.injEq, exists_eq', true_and, Option.some.injEq]
      rw [← hthrows]
      rcases afterOpen d.sqlScriptsPath filepath env existed with exit | ⟨⟨⟩⟩
      · cases exit <;> simp [Throws]
      · simp [Throws]

-- A load that is refused or that throws leaves an unloaded object exactly when it was unloaded
-- before and the script could be read wherever it was needed.
theorem unloaded_after_failure_iff (d : SQLiteDatabase) (filepath : String) (env : Environment) :
    ((d.load filepath env).1 ≠ .returned true → (d.load filepath env).2.Unloaded) ↔
      d.db = none ∧ (RunsScript filepath env → env.script.Readable) := by
  constructor
  · intro hafter
    have hclosed : d.db = none := by
      by_contra hopen
      rw [load_open hopen] at hafter
      exact hopen (hafter (by simp)).db
    refine ⟨hclosed, ?_⟩
    intro hruns
    by_contra hscript
    obtain ⟨hfailed, hopen⟩ := (load_failed_iff hclosed).mpr ⟨hruns, hscript⟩
    exact hopen (hafter hfailed).db
  · rintro ⟨hclosed, hscript⟩ hfailed
    apply unloaded_of_db
    by_contra hopen
    obtain ⟨hruns, hunread⟩ := (load_failed_iff hclosed).mp ⟨hfailed, hopen⟩
    exact hunread (hscript hruns)

-- A new file, and no script to create its tables.
def scriptless : Environment where
  exists? := .ok false
  opened := .ok 1
  script := .notOpened
  execScript := fun _ => SQLITE_OK
  userVersion := ⟨SQLITE_OK, SQLITE_ROW, [2]⟩
  tableCount := ⟨SQLITE_OK, SQLITE_ROW, [5]⟩
  owners := ⟨SQLITE_OK, SQLITE_ROW, [0, 0]⟩
  migration := (SQLITE_OK, none)
  foreignKeys := SQLITE_OK

theorem open_after_failure :
    ¬∀ (d : SQLiteDatabase) (filepath : String) (env : Environment), d.db = none →
      (d.load filepath env).1 ≠ .returned true → (d.load filepath env).2.Unloaded := by
  intro h
  have hbad := (h ⟨none, "sql"⟩ "new.db" scriptless rfl (by decide)).db
  revert hbad
  decide

end SQLiteDatabase

-- The wrapper turns the exception into `false`.
structure TgBotDatabaseImpl where
  loaded : Bool
  databaseImpl : Option SQLiteDatabase

namespace TgBotDatabaseImpl

def load (t : TgBotDatabaseImpl) (attempt : String × Environment) : Bool × TgBotDatabaseImpl :=
  if t.loaded then (false, t)
  else
    match t.databaseImpl with
    | none => (false, t)
    | some d =>
      match d.load attempt.1 attempt.2 with
      | (.returned loaded, d) => (loaded, ⟨loaded, some d⟩)
      | (.threw _, d) => (false, ⟨false, some d⟩)

variable {t : TgBotDatabaseImpl} {d : SQLiteDatabase}

-- Once the backend is left open no attempt on it gets anywhere, whatever path it names.
theorem load_left_open (ht : t.loaded = false) (hd : t.databaseImpl = some d) (hopen : d.db ≠ none)
    (attempts : List (String × Environment)) :
    Machine.run load t attempts = t ∧
      ∀ answer ∈ Machine.outputs load t attempts, answer = false := by
  have hstep : ∀ attempt, load t attempt = (false, t) := by
    intro attempt
    rw [load, ht, hd]
    simp only [Bool.false_eq_true, if_false, d.load_open hopen]
    rw [← hd, ← ht]
  induction attempts with
  | nil => simp
  | cons attempt rest ih =>
    rw [Machine.run_cons, Machine.outputs_cons, hstep attempt]
    refine ⟨ih.1, ?_⟩
    intro answer hanswer
    rcases List.mem_cons.mp hanswer with rfl | hanswer
    · rfl
    · exact ih.2 answer hanswer

end TgBotDatabaseImpl

end Glider.Db.Sqlite

import Glider.Db.Sqlite.Tables

namespace Glider.Db.Sqlite

open Glider.Lib

-- The statement files under `resources/sql`.
inductive Script where
  | insertUser
  | removeUser
  | findUser
  | findOwner
  | insertMediaId
  | insertMediaName
  | insertMediaMap
  | findMediaName
  | findMediaId
  | findMediaInfo
  | findMediaIdsByName
  | findAllMediaMap
  | deleteMedia
  | insertChat
  | deleteChat
  | findChatId
  | findChatName
  | findAllChatMap

-- What a statement does when nothing goes wrong: its rows, or a change and the number of rows
-- that it changed itself.
inductive Effect where
  | rows (rows : List Row)
  | changed (tables : Tables) (changes : ℕ)

def SQLITE_CONSTRAINT : ℤ := 19

def inserted (tables : Option Tables) : Except ℤ Effect :=
  match tables with
  | some tables => .ok (.changed tables 1)
  | none => .error SQLITE_CONSTRAINT

def Script.eval (script : Script) (args : List Value) (t : Tables) : Except ℤ Effect :=
  let arg := fun i => args.getD i .null
  match script with
  | .insertUser =>
    match arg 0, arg 1 with
    | .int userid, .int info =>
      inserted ((t.usermap.insert ⟨userid, info⟩).map fun usermap => { t with usermap })
    | _, _ => .error SQLITE_CONSTRAINT
  | .removeUser =>
    let gone := fun r : UserRow => Value.int r.userid = arg 0 ∧ Value.int r.info = arg 1
    .ok (.changed { t with usermap := t.usermap.deleteWhere fun r => gone r }
      (t.usermap.rows.filter fun r => gone r).length)
  | .findUser =>
    .ok (.rows ((t.usermap.rows.filter fun r => Value.int r.userid = arg 0).map fun r =>
      [.int r.info]))
  | .findOwner =>
    .ok (.rows ((t.usermap.rows.filter fun r => r.info = 0).map fun r => [.int r.userid]))
  | .insertMediaId =>
    match arg 0, arg 1 with
    | .text mediauniqueid, .text mediaid =>
      inserted ((t.media.insertMediaId mediauniqueid mediaid).map fun media =>
        { t with media })
    | _, _ => .error SQLITE_CONSTRAINT
  | .insertMediaName =>
    match arg 0 with
    | .text name => inserted ((t.media.insertMediaName name).map fun media => { t with media })
    | _ => .error SQLITE_CONSTRAINT
  | .insertMediaMap =>
    match arg 0, arg 1, arg 2 with
    | .int mediaid, .int medianameid, .int mediatype =>
      inserted ((t.media.insertMediaMap mediaid medianameid mediatype).map fun media =>
        { t with media })
    | _, _, _ => .error SQLITE_CONSTRAINT
  | .findMediaName =>
    .ok (.rows ((t.media.medianame.rows.filter fun r => Value.text r.name = arg 0).map fun r =>
      [.int r.id]))
  | .findMediaId =>
    .ok (.rows ((t.media.mediaids.rows.filter fun r =>
      Value.text r.mediauniqueid = arg 0).map fun r => [.int r.id]))
  | .findMediaInfo =>
    .ok (.rows ((t.media.joined.filter fun r => Value.text r.2.1.name = arg 0).map fun r =>
      [.text r.2.2.mediaid, .text r.2.2.mediauniqueid, .int r.1.mediatype]))
  | .findMediaIdsByName =>
    .ok (.rows ((t.media.joined.filter fun r => Value.text r.2.1.name = arg 0).map fun r =>
      [.text r.2.2.mediaid]))
  | .findAllMediaMap =>
    .ok (.rows (t.media.joined.map fun r =>
      [.text r.2.2.mediaid, .text r.2.2.mediauniqueid, .text r.2.1.name, .int r.1.mediatype]))
  | .deleteMedia =>
    match arg 0 with
    | .text mediaid =>
      .ok (.changed { t with media := t.media.deleteMedia mediaid }
        (t.media.mediaids.rows.filter fun r => r.mediaid = mediaid).length)
    | _ => .ok (.changed t 0)
  | .insertChat =>
    match arg 0, arg 1 with
    | .int chatid, .text chatname =>
      inserted ((t.chats.insertChat chatid chatname).map fun chats => { t with chats })
    | _, _ => .error SQLITE_CONSTRAINT
  | .deleteChat =>
    match arg 0 with
    | .int chatid =>
      .ok (.changed { t with chats := t.chats.deleteChat chatid }
        (t.chats.chatmap.rows.filter fun r => r.chatid = chatid).length)
    | _ => .ok (.changed t 0)
  | .findChatId =>
    .ok (.rows ((t.chats.chatmap.rows.filter fun r => Value.text r.chatname = arg 0).map fun r =>
      [.int r.chatid]))
  | .findChatName =>
    .ok (.rows ((t.chats.chatmap.rows.filter fun r => Value.int r.chatid = arg 0).map fun r =>
      [.text r.chatname]))
  | .findAllChatMap =>
    .ok (.rows (t.chats.chatmap.rows.map fun r => [.int r.chatid, .text r.chatname]))

-- The order in which a query without `ORDER BY` gives its rows is up to the library.
structure Planner where
  order : ℕ → List Row → List Row
  perm : ∀ n rows, (order n rows).Perm rows

def Planner.rowOrder : Planner := ⟨fun _ rows => rows, fun _ rows => .refl rows⟩

-- An open connection. The outcome of each call of the library is decided beforehand: `faults n` is
-- the error code of the call number `n`, if it fails. `saved` holds the tables at the begin of the
-- transaction that is open.
structure Conn where
  tables : Tables
  saved : Option Tables
  changes : ℕ
  planner : Planner
  faults : ℕ → Option ℤ
  calls : ℕ

namespace Conn

-- The same connection `n` calls later.
def after (c : Conn) (n : ℕ) : Conn := { c with calls := c.calls + n }

theorem after_after (c : Conn) (n m : ℕ) : (c.after n).after m = c.after (n + m) := by
  simp only [after, Nat.add_assoc]

def tick (c : Conn) : Conn := c.after 1

def fault (c : Conn) : Option ℤ := c.faults c.calls

end Conn

-- A database just created from the scripts, with the outcomes of all calls to come.
def Conn.fresh (planner : Planner) (faults : ℕ → Option ℤ) : Conn :=
  ⟨.empty, none, 0, planner, faults, 0⟩

-- A prepared statement. The rows of a query are there once it has been stepped.
structure Stmt where
  script : Script
  bindings : List Value
  cursor : Option (List Row)

inductive StepResult where
  | SQLITE_ROW (row : Row)
  | SQLITE_DONE
  | error (code : ℤ)

def nextRow (stmt : Stmt) : List Row → StepResult × Stmt
  | [] => (.SQLITE_DONE, { stmt with cursor := some [] })
  | row :: rest => (.SQLITE_ROW row, { stmt with cursor := some rest })

def sqlite3_step (stmt : Stmt) (c : Conn) : StepResult × Stmt × Conn :=
  match c.fault with
  | some code => (.error code, stmt, c.tick)
  | none =>
    match stmt.cursor with
    | some rows => ((nextRow stmt rows).1, (nextRow stmt rows).2, c.tick)
    | none =>
      match stmt.script.eval stmt.bindings c.tables with
      | .error code => (.error code, stmt, c.tick)
      | .ok (.rows rows) =>
        let rows := c.planner.order c.calls rows
        ((nextRow stmt rows).1, (nextRow stmt rows).2, c.tick)
      | .ok (.changed tables changes) =>
        (.SQLITE_DONE, { stmt with cursor := some [] }, { c.tick with tables, changes })

inductive Helper.State where
  | NOTHING
  | PREPARED
  | EXECUTED_AS_SCRIPT
  | HAS_ARGUMENTS
  | BOUND
  | EXECUTED
  | FAILED_TO_PREPARE

structure Helper where
  state : Helper.State
  script : Script
  arguments : List Value
  stmt : Option Stmt

namespace Helper

def create (script : Script) : Helper := ⟨.NOTHING, script, [], none⟩

def prepare (h : Helper) (c : Conn) : Bool × Helper × Conn :=
  match h.state with
  | .NOTHING =>
    match c.fault with
    | some _ => (false, { h with state := .FAILED_TO_PREPARE }, c.tick)
    | none =>
      (true, { h with state := .PREPARED, stmt := some ⟨h.script, [], none⟩ }, c.tick)
  | _ => (false, h, c)

-- In any other state the argument is dropped, but the state is set all the same.
def addArgument (h : Helper) (value : Value) : Helper :=
  match h.state with
  | .HAS_ARGUMENTS | .PREPARED =>
    { h with arguments := h.arguments ++ [value], state := .HAS_ARGUMENTS }
  | _ => { h with state := .HAS_ARGUMENTS }

-- A text is bound up to its first NUL.
def bound : Value → Value
  | .text s => .text s.cstr
  | v => v

def bindArguments (h : Helper) : Bool × Helper :=
  match h.state with
  | .HAS_ARGUMENTS =>
    (true, { h with
      state := .BOUND
      stmt := h.stmt.map fun stmt => { stmt with bindings := h.arguments.map bound } })
  | _ => (false, h)

def commonExecCheck (h : Helper) : Bool × Helper :=
  match h.state with
  | .BOUND | .PREPARED | .EXECUTED => (true, h)
  | .HAS_ARGUMENTS => (true, h.bindArguments.2)
  | _ => (false, h)

-- An error is answered like the end of the rows.
def execAndGetRow (h : Helper) (c : Conn) : Option Row × Helper × Conn :=
  match h.commonExecCheck with
  | (false, h) => (none, h, c)
  | (true, h) =>
    match h.stmt with
    | none => (none, { h with state := .EXECUTED }, c)
    | some stmt =>
      match sqlite3_step stmt c with
      | (.SQLITE_ROW row, stmt, c) => (some row, { h with state := .EXECUTED, stmt }, c)
      | (.SQLITE_DONE, stmt, c) => (none, { h with state := .EXECUTED, stmt }, c)
      | (.error _, stmt, c) => (none, { h with state := .EXECUTED, stmt }, c)

def execute (h : Helper) (c : Conn) : Bool × Helper × Conn :=
  match h.commonExecCheck with
  | (false, h) => (false, h, c)
  | (true, h) =>
    match h.stmt with
    | none => (false, { h with state := .EXECUTED }, c)
    | some stmt =>
      match sqlite3_step stmt c with
      | (.SQLITE_ROW _, stmt, c) => (true, { h with state := .EXECUTED, stmt }, c)
      | (.SQLITE_DONE, stmt, c) => (true, { h with state := .EXECUTED, stmt }, c)
      | (.error _, stmt, c) => (false, { h with state := .EXECUTED, stmt }, c)

-- `create`, `prepare`, `addArgument` for each argument and `bindArguments`, as every operation of
-- the backend begins; `none` when the statement cannot be prepared.
def ready (script : Script) (args : List Value) (c : Conn) : Option Helper × Conn :=
  match (create script).prepare c with
  | (false, _, c) => (none, c)
  | (true, h, c) => (some (args.foldl addArgument h).bindArguments.2, c)

-- How many rows are still to come.
def remaining (h : Helper) (c : Conn) : ℕ :=
  match h.stmt with
  | none => 0
  | some stmt =>
    match stmt.cursor with
    | some rows => rows.length
    | none =>
      match stmt.script.eval stmt.bindings c.tables with
      | .ok (.rows rows) => rows.length
      | _ => 0

-- `while (row = execAndGetRow())`; the last turn finds no row.
def fetchLoop (h : Helper) (c : Conn) : ℕ → List Row × Conn
  | 0 => ([], c)
  | turns + 1 =>
    match h.execAndGetRow c with
    | (none, _, c) => ([], c)
    | (some row, h, c) => (row :: (fetchLoop h c turns).1, (fetchLoop h c turns).2)

end Helper

-- The three ways the backend uses a statement. `none` is a failed `prepare`.
def firstRow (script : Script) (args : List Value) (c : Conn) : Option (Option Row) × Conn :=
  match Helper.ready script args c with
  | (none, c) => (none, c)
  | (some h, c) => (some (h.execAndGetRow c).1, (h.execAndGetRow c).2.2)

def allRows (script : Script) (args : List Value) (c : Conn) : Option (List Row) × Conn :=
  match Helper.ready script args c with
  | (none, c) => (none, c)
  | (some h, c) =>
    (some (h.fetchLoop c (h.remaining c + 1)).1, (h.fetchLoop c (h.remaining c + 1)).2)

def execute (script : Script) (args : List Value) (c : Conn) : Option Bool × Conn :=
  match Helper.ready script args c with
  | (none, c) => (none, c)
  | (some h, c) => (some (h.execute c).1, (h.execute c).2.2)

def Row.getInt (row : Row) (i : ℕ) : ℤ :=
  match row.getD i .null with
  | .int n => toInt32 n
  | _ => 0

def Row.getInt64 (row : Row) (i : ℕ) : ℤ :=
  match row.getD i .null with
  | .int n => n
  | _ => 0

def Row.getString (row : Row) (i : ℕ) : Bytes :=
  match row.getD i .null with
  | .text s => s.cstr
  | _ => []

section Spec

variable {script : Script} {args : List Value} {c : Conn}

namespace Helper

-- A statement that is ready to be stepped.
def readied (script : Script) (args : List Value) : Helper :=
  ⟨if args = [] then .PREPARED else .BOUND, script, args,
    some ⟨script, args.map bound, none⟩⟩

theorem foldl_addArgument (h : Helper) (hstate : h.state = .HAS_ARGUMENTS) (args : List Value) :
    args.foldl addArgument h = { h with arguments := h.arguments ++ args } := by
  induction args generalizing h with
  | nil => simp
  | cons v rest ih =>
    have hv : h.addArgument v = { h with arguments := h.arguments ++ [v] } := by
      unfold addArgument
      rw [hstate]
    rw [List.foldl_cons, hv, ih]
    · simp
    · exact hstate

theorem ready_eq : ready script args c =
    if c.fault.isSome then (none, c.tick) else (some (readied script args), c.tick) := by
  unfold ready prepare
  cases hf : c.fault with
  | some code => simp [create]
  | none =>
    simp only [create]
    cases args with
    | nil => rfl
    | cons v rest =>
      rw [List.foldl_cons, foldl_addArgument _ rfl]
      simp [addArgument, bindArguments, readied]

theorem commonExecCheck_readied : (readied script args).commonExecCheck =
    (true, readied script args) := by
  cases args <;> rfl

end Helper

theorem firstRow_of_rows {rows : List Row}
    (h : script.eval (args.map Helper.bound) c.tables = .ok (.rows rows)) :
    firstRow script args c =
      if c.fault.isSome then (none, c.after 1)
      else if (c.after 1).fault.isSome then (some none, c.after 2)
      else (some (c.planner.order (c.calls + 1) rows).head?, c.after 2) := by
  unfold firstRow
  rw [Helper.ready_eq]
  cases hf : c.fault with
  | some code => rfl
  | none =>
    simp only [Helper.execAndGetRow, Helper.commonExecCheck_readied, Option.isSome_none,
      Bool.false_eq_true, if_false]
    simp only [Helper.readied, sqlite3_step, Conn.tick]
    cases hf' : (c.after 1).fault with
    | some code => rfl
    | none =>
      have ht : (c.after 1).tables = c.tables := rfl
      have ho : (c.after 1).planner.order (c.after 1).calls rows =
          c.planner.order (c.calls + 1) rows := rfl
      simp only [ht, h, ho]
      cases c.planner.order (c.calls + 1) rows <;> rfl

-- A statement that changes the tables.
theorem execute_eq (hchange : ∀ rows, script.eval (args.map Helper.bound) c.tables ≠
      .ok (.rows rows)) :
    execute script args c =
      if c.fault.isSome then (none, c.after 1)
      else if (c.after 1).fault.isSome then (some false, c.after 2)
      else
        match script.eval (args.map Helper.bound) c.tables with
        | .ok (.changed tables changes) => (some true, { c.after 2 with tables, changes })
        | _ => (some false, c.after 2) := by
  unfold execute
  rw [Helper.ready_eq]
  cases hf : c.fault with
  | some code => rfl
  | none =>
    simp only [Helper.execute, Helper.commonExecCheck_readied, Option.isSome_none,
      Bool.false_eq_true, if_false]
    simp only [Helper.readied, sqlite3_step, Conn.tick]
    cases hf' : (c.after 1).fault with
    | some code => rfl
    | none =>
      have ht : (c.after 1).tables = c.tables := rfl
      simp only [ht]
      cases heval : script.eval (args.map Helper.bound) c.tables with
      | error code => rfl
      | ok effect =>
        cases effect with
        | rows rows => exact absurd heval (hchange rows)
        | changed tables changes => rfl

-- No call of the library fails.
def Conn.Quiet (c : Conn) : Prop := ∀ n, c.faults n = none

theorem Conn.Quiet.fault (h : c.Quiet) : c.fault = none := h _

theorem Conn.Quiet.after (h : c.Quiet) (n : ℕ) : (c.after n).Quiet := h

theorem firstRow_quiet (h : c.Quiet) {script : Script} {args : List Value} {rows : List Row}
    (heval : script.eval (args.map Helper.bound) c.tables = .ok (.rows rows)) :
    firstRow script args c =
      (some (c.planner.order (c.calls + 1) rows).head?, c.after 2) := by
  rw [firstRow_of_rows heval, h.fault, (h.after 1).fault]
  rfl

theorem execute_quiet (h : c.Quiet) {script : Script} {args : List Value} {tables : Tables}
    {changes : ℕ}
    (heval : script.eval (args.map Helper.bound) c.tables = .ok (.changed tables changes)) :
    execute script args c = (some true, { c.after 2 with tables, changes }) := by
  rw [execute_eq (by simp [heval]), h.fault, (h.after 1).fault, heval]
  rfl

theorem execute_quiet_error (h : c.Quiet) {script : Script} {args : List Value} {code : ℤ}
    (heval : script.eval (args.map Helper.bound) c.tables = .error code) :
    execute script args c = (some false, c.after 2) := by
  rw [execute_eq (by simp [heval]), h.fault, (h.after 1).fault, heval]
  rfl

theorem Planner.head?_eq_none (planner : Planner) (n : ℕ) (rows : List Row) :
    (planner.order n rows).head? = none ↔ rows = [] := by
  rw [List.head?_eq_none_iff]
  constructor
  · intro h
    exact (h ▸ planner.perm n rows).nil_eq.symm
  · rintro rfl
    exact (planner.perm n []).eq_nil

theorem Planner.mem_of_head? (planner : Planner) {n : ℕ} {rows : List Row} {row : Row}
    (h : (planner.order n rows).head? = some row) : row ∈ rows :=
  (planner.perm n rows).mem_iff.mp (List.mem_of_head? h)

theorem fetchLoop_executed (hquiet : c.Quiet) (h : Helper) (stmt : Stmt) (rows : List Row)
    (hstate : h.state = .EXECUTED) (hstmt : h.stmt = some { stmt with cursor := some rows }) :
    h.fetchLoop c (rows.length + 1) = (rows, c.after (rows.length + 1)) := by
  induction rows generalizing h c with
  | nil =>
    have hf : c.fault = none := hquiet _
    simp [Helper.fetchLoop, Helper.execAndGetRow, Helper.commonExecCheck, hstate, hstmt,
      sqlite3_step, hf, nextRow, Conn.tick]
  | cons row rest ih =>
    have hf : c.fault = none := hquiet _
    have hrest := @ih (c.after 1) hquiet
      { h with state := .EXECUTED, stmt := some { stmt with cursor := some rest } } rfl rfl
    simp only [Helper.fetchLoop, Helper.execAndGetRow, Helper.commonExecCheck, hstate, hstmt,
      sqlite3_step, hf, nextRow, Conn.tick, List.length_cons, hrest]
    simp [Conn.after, Nat.add_comm, Nat.add_left_comm]

theorem allRows_of_rows (hquiet : c.Quiet) {rows : List Row}
    (h : script.eval (args.map Helper.bound) c.tables = .ok (.rows rows)) :
    allRows script args c =
      (some (c.planner.order (c.calls + 1) rows), c.after (rows.length + 2)) := by
  have hf : c.fault = none := hquiet _
  have hf' : (c.after 1).fault = none := hquiet _
  have ht : (c.after 1).tables = c.tables := rfl
  have hlen := (c.planner.perm (c.calls + 1) rows).length_eq
  have ho : (c.after 1).planner.order (c.after 1).calls rows =
      c.planner.order (c.calls + 1) rows := rfl
  unfold allRows
  rw [Helper.ready_eq, hf]
  simp only [Option.isSome_none, Bool.false_eq_true, if_false]
  have hremaining : (Helper.readied script args).remaining (c.after 1) = rows.length := by
    simp only [Helper.remaining, Helper.readied, ht, h]
  simp only [Conn.tick, hremaining, Helper.fetchLoop, Helper.execAndGetRow,
    Helper.commonExecCheck_readied]
  simp only [Helper.readied, sqlite3_step, hf', ht, h, ho]
  cases hrows : c.planner.order (c.calls + 1) rows with
  | nil =>
    rw [hrows, List.length_nil] at hlen
    simp [nextRow, Conn.tick, Conn.after, ← hlen]
  | cons row rest =>
    rw [hrows, List.length_cons] at hlen
    have hrest := @fetchLoop_executed (c.after 2) hquiet
      ⟨.EXECUTED, script, args, some ⟨script, args.map Helper.bound, some rest⟩⟩
      ⟨script, args.map Helper.bound, none⟩ rest rfl rfl
    simp only [nextRow, Conn.tick]
    have hc : (c.after 1).after 1 = c.after 2 := rfl
    rw [hc, ← hlen, hrest]
    simp [Conn.after, Nat.add_comm, Nat.add_left_comm]

end Spec

end Glider.Db.Sqlite

import Glider.Db.Sqlite.Media

namespace Glider.Db.Sqlite

open Glider.Lib

-- A relation between the connection before and after, for as long as only `script` is run on it.
structure Kept (script : Script) (K : Conn → Conn → Prop) : Prop where
  trans : ∀ {c c' c''}, K c c' → K c' c'' → K c c''
  tick : ∀ c, K c c.tick
  step : ∀ stmt c, stmt.script = script → K c (sqlite3_step stmt c).2.2

namespace Kept

variable {script : Script} {K : Conn → Conn → Prop} {args : List Value} {c : Conn}

theorem script_sqlite3_step (stmt : Stmt) (c : Conn) :
    (sqlite3_step stmt c).2.1.script = stmt.script := by
  have hnext : ∀ rows, (nextRow stmt rows).2.script = stmt.script := by
    intro rows
    cases rows <;> rfl
  unfold sqlite3_step
  cases c.fault with
  | some code => rfl
  | none =>
    cases stmt.cursor with
    | some rows => exact hnext rows
    | none =>
      cases stmt.script.eval stmt.bindings c.tables with
      | error code => rfl
      | ok effect =>
        cases effect with
        | rows rows => exact hnext _
        | changed tables changes => rfl

-- A helper whose statement is that of the script.
def Runs (script : Script) (h : Helper) : Prop :=
  ∃ stmt, h.stmt = some stmt ∧ stmt.script = script

theorem runs_commonExecCheck {h : Helper} (hruns : Runs script h) :
    Runs script h.commonExecCheck.2 := by
  obtain ⟨stmt, hstmt, hscript⟩ := hruns
  unfold Helper.commonExecCheck Helper.bindArguments
  cases h.state <;> simp [Runs, hstmt, hscript]

theorem execAndGetRow (hkept : Kept script K) {h : Helper} (hruns : Runs script h)
    (hrefl : K c c) : K c (h.execAndGetRow c).2.2 ∧ Runs script (h.execAndGetRow c).2.1 := by
  have hchecked := runs_commonExecCheck hruns
  unfold Helper.execAndGetRow
  generalize h.commonExecCheck = checked at hchecked ⊢
  obtain ⟨ok, h⟩ := checked
  obtain ⟨stmt, hstmt, hscript⟩ := hchecked
  cases ok with
  | false => exact ⟨hrefl, stmt, hstmt, hscript⟩
  | true =>
    have hstep := hkept.step stmt c hscript
    have hnext := (script_sqlite3_step stmt c).trans hscript
    simp only at hstmt
    simp only [hstmt]
    generalize sqlite3_step stmt c = stepped at hstep hnext ⊢
    obtain ⟨result, stmt', c'⟩ := stepped
    cases result <;> exact ⟨hstep, stmt', rfl, hnext⟩

theorem execute_helper (hkept : Kept script K) {h : Helper} (hruns : Runs script h)
    (hrefl : K c c) : K c (h.execute c).2.2 := by
  have hchecked := runs_commonExecCheck hruns
  unfold Helper.execute
  generalize h.commonExecCheck = checked at hchecked ⊢
  obtain ⟨ok, h⟩ := checked
  obtain ⟨stmt, hstmt, hscript⟩ := hchecked
  cases ok with
  | false => exact hrefl
  | true =>
    have hstep := hkept.step stmt c hscript
    simp only at hstmt
    simp only [hstmt]
    generalize sqlite3_step stmt c = stepped at hstep ⊢
    obtain ⟨result, stmt', c'⟩ := stepped
    cases result <;> exact hstep

theorem fetchLoop (hkept : Kept script K) (hrefl : ∀ c, K c c) {h : Helper}
    (hruns : Runs script h) (turns : ℕ) : K c (h.fetchLoop c turns).2 := by
  induction turns generalizing h c with
  | zero => exact hrefl c
  | succ turns ih =>
    obtain ⟨hrow, hnext⟩ := hkept.execAndGetRow hruns (hrefl c)
    unfold Helper.fetchLoop
    generalize h.execAndGetRow c = fetched at hrow hnext ⊢
    obtain ⟨row | row, h', c'⟩ := fetched
    · exact hrow
    · exact hkept.trans hrow (ih hnext)

theorem runs_readied : Runs script (Helper.readied script args) := ⟨_, rfl, rfl⟩

variable (hkept : Kept script K) (hrefl : ∀ c, K c c)

include hkept hrefl

theorem firstRow : K c (firstRow script args c).2 := by
  unfold Sqlite.firstRow
  rw [Helper.ready_eq]
  by_cases hprepare : c.fault.isSome = true
  · rw [if_pos hprepare]
    exact hkept.tick c
  · rw [if_neg hprepare]
    exact hkept.trans (hkept.tick c) (hkept.execAndGetRow runs_readied (hrefl _)).1

theorem execute : K c (execute script args c).2 := by
  unfold Sqlite.execute
  rw [Helper.ready_eq]
  by_cases hprepare : c.fault.isSome = true
  · rw [if_pos hprepare]
    exact hkept.tick c
  · rw [if_neg hprepare]
    exact hkept.trans (hkept.tick c) (hkept.execute_helper runs_readied (hrefl _))

theorem allRows : K c (allRows script args c).2 := by
  unfold Sqlite.allRows
  rw [Helper.ready_eq]
  by_cases hprepare : c.fault.isSome = true
  · rw [if_pos hprepare]
    exact hkept.tick c
  · rw [if_neg hprepare]
    exact hkept.trans (hkept.tick c) (hkept.fetchLoop hrefl runs_readied _)

end Kept

section InsertNames

variable {K : Conn → Conn → Prop} {c : Conn} (hinsert : Kept .insertMediaName K)
  (hfind : Kept .findMediaName K) (hrefl : ∀ c, K c c)

include hinsert hfind hrefl

theorem Kept.insertName (name : Bytes) : K c (insertName name c).2 := by
  have hexecute := @Kept.execute _ K [.text name] c hinsert hrefl
  unfold Sqlite.insertName
  generalize Sqlite.execute .insertMediaName [.text name] c = done at hexecute ⊢
  obtain ⟨answer, c'⟩ := done
  rcases answer with _ | _ | _
  · exact hexecute
  · exact hexecute
  · have hrow := @Kept.firstRow _ K [.text name] c' hfind hrefl
    simp only
    generalize Sqlite.firstRow .findMediaName [.text name] c' = found at hrow ⊢
    obtain ⟨row, c''⟩ := found
    rcases row with _ | _ | row <;> exact hinsert.trans hexecute hrow

theorem Kept.insertNames (updates : List UpdateInfo) : K c (insertNames updates c).2 := by
  induction updates generalizing c with
  | nil => exact hrefl c
  | cons update rest ih =>
    cases update with
    | USE_EXISTING id =>
      have hrest := @ih c
      simp only [Sqlite.insertNames]
      generalize Sqlite.insertNames rest c = others at hrest ⊢
      obtain ⟨ids | ids, c''⟩ := others <;> exact hrest
    | INSERT name =>
      have hname := @Kept.insertName K c hinsert hfind hrefl name
      simp only [Sqlite.insertNames]
      generalize Sqlite.insertName name c = inserted at hname ⊢
      obtain ⟨id | id, c'⟩ := inserted
      · exact hname
      · have hrest := @ih c'
        simp only
        generalize Sqlite.insertNames rest c' = others at hrest ⊢
        obtain ⟨ids | ids, c''⟩ := others <;> exact hinsert.trans hname hrest

end InsertNames

-- What the effect of the statement keeps of the tables.
theorem kept_tables {script : Script} {P : Tables → Tables → Prop} (hrefl : ∀ t, P t t)
    (htrans : ∀ {t t' t''}, P t t' → P t' t'' → P t t'')
    (heval : ∀ {args t tables changes}, script.eval args t = .ok (.changed tables changes) →
      P t tables) : Kept script fun c c' => P c.tables c'.tables where
  trans := htrans
  tick := fun c => hrefl c.tables
  step := by
    rintro stmt c rfl
    unfold sqlite3_step
    cases c.fault with
    | some code => exact hrefl _
    | none =>
      cases stmt.cursor with
      | some rows => exact hrefl _
      | none =>
        cases hchange : stmt.script.eval stmt.bindings c.tables with
        | error code => exact hrefl _
        | ok effect =>
          cases effect with
          | rows rows => exact hrefl _
          | changed tables changes => exact heval hchange

section Saved

variable {c : Conn}

-- No statement of the scripts begins or ends a transaction.
theorem kept_saved (script : Script) : Kept script fun c c' => c'.saved = c.saved where
  trans := fun h h' => h'.trans h
  tick := fun _ => rfl
  step := by
    intro stmt c _
    unfold sqlite3_step
    cases c.fault with
    | some code => rfl
    | none =>
      cases stmt.cursor with
      | some rows => rfl
      | none =>
        cases stmt.script.eval stmt.bindings c.tables with
        | error code => rfl
        | ok effect => cases effect <;> rfl

theorem saved_firstRow (script : Script) (args : List Value) :
    (firstRow script args c).2.saved = c.saved := (kept_saved script).firstRow fun _ => rfl

theorem saved_execute (script : Script) (args : List Value) :
    (execute script args c).2.saved = c.saved := (kept_saved script).execute fun _ => rfl

theorem saved_insertNames (updates : List UpdateInfo) :
    (insertNames updates c).2.saved = c.saved :=
  Kept.insertNames (kept_saved .insertMediaName) (kept_saved .findMediaName) (fun _ => rfl) updates

-- The names have no part in the table of the media.
theorem mediaids_insertNames (updates : List UpdateInfo) :
    (insertNames updates c).2.tables.media.mediaids.rows = c.tables.media.mediaids.rows := by
  refine Kept.insertNames (K := fun c c' =>
    c'.tables.media.mediaids.rows = c.tables.media.mediaids.rows) ?_ ?_ (fun _ => rfl) updates
  · refine kept_tables (P := fun t t' => t'.media.mediaids.rows = t.media.mediaids.rows)
      (fun _ => rfl) (fun h h' => h'.trans h) ?_
    intro args t tables changes heval
    simp only [Script.eval] at heval
    split at heval
    · next name _ =>
      cases hmedia : t.media.insertMediaName name with
      | none =>
        rw [hmedia] at heval
        cases heval
      | some media =>
        rw [hmedia] at heval
        obtain ⟨rfl, -⟩ := Effect.changed.inj (Except.ok.inj heval)
        exact congrArg Media.Data.mediaids (Media.of_insertMediaName hmedia).2
    · cases heval
  · exact kept_tables (P := fun t t' => t'.media.mediaids.rows = t.media.mediaids.rows)
      (fun _ => rfl) (fun h h' => h'.trans h) (fun h => by cases h)

theorem saved_insertMaps (mediaIdIndex : ℤ) (type : MediaType) (ids : List ℤ) :
    (insertMaps mediaIdIndex type ids c).2.saved = c.saved := by
  induction ids generalizing c with
  | nil => rfl
  | cons id rest ih =>
    have hexecute := @saved_execute c .insertMediaMap
      [.int mediaIdIndex, .int id, .int type.toNumber]
    unfold insertMaps
    generalize execute .insertMediaMap
      [.int mediaIdIndex, .int id, .int type.toNumber] c = done at hexecute ⊢
    obtain ⟨answer, c'⟩ := done
    rcases answer with _ | _ | _
    · exact hexecute
    · exact hexecute
    · exact (@ih c').trans hexecute

end Saved

section Lookup

variable {c c' : Conn} {name : Bytes} {rest : List Bytes}

theorem firstRow_found {script : Script} {args : List Value} {rows : List Row} {row : Row}
    (heval : script.eval (args.map Helper.bound) c.tables = .ok (.rows rows))
    (h : firstRow script args c = (some (some row), c')) : c' = c.after 2 ∧ row ∈ rows := by
  rw [firstRow_of_rows heval] at h
  split_ifs at h
  · cases h
  · cases h
  · obtain ⟨hrow, rfl⟩ := Prod.mk.inj h
    exact ⟨rfl, c.planner.mem_of_head? (Option.some.inj hrow)⟩

theorem rollback_rollback (c : Conn) : rollback (rollback c) = rollback c := rfl

-- The connection with which the next name is looked up.
def lookedUp (c : Conn) : Conn := if givesUp c then rollback (c.after 2) else c.after 2

theorem tables_rollback_lookedUp (c : Conn) :
    (rollback (lookedUp c)).tables = (rollback c).tables := by
  unfold lookedUp
  split <;> rfl

theorem faults_lookedUp (c : Conn) : (lookedUp c).faults = c.faults := by
  unfold lookedUp
  split <;> rfl

theorem calls_lookedUp (c : Conn) : (lookedUp c).calls = c.calls + 2 := by
  unfold lookedUp
  split <;> rfl

-- What `findNames` makes of one lookup.
def Plans (known : List MediaNameRow) (failed : Option ℤ) (name : Bytes) : UpdateInfo → Prop
  | .INSERT name' => name' = name ∧ (failed = none → ∀ n ∈ known, n.name ≠ name.cstr)
  | .USE_EXISTING id => failed = none ∧ ∃ n ∈ known, n.name = name.cstr ∧ id = toInt32 n.id

theorem findNames_plans (name : Bytes) (rest : List Bytes) (c : Conn) :
    (c.fault ≠ none ∧ findNames (name :: rest) c = (none, c.after 1)) ∨
      c.fault = none ∧ ∃ update,
        Plans c.tables.media.medianame.rows (c.after 1).fault name update ∧
        findNames (name :: rest) c =
          ((findNames rest (lookedUp c)).1.map (update :: ·), (findNames rest (lookedUp c)).2) := by
  have hrow := firstRow_of_rows (eval_findMediaName c.tables name)
  cases hprepare : c.fault with
  | some code =>
    rw [hprepare] at hrow
    refine Or.inl ⟨nofun, ?_⟩
    rw [findNames, hrow]
    rfl
  | none =>
    refine Or.inr ⟨rfl, ?_⟩
    have hnext : ∀ row update, firstRow .findMediaName [.text name] c = (some row, c.after 2) →
        (row.elim (.INSERT name) fun row => .USE_EXISTING (row.getInt 0)) = update →
          findNames (name :: rest) c =
            ((findNames rest (lookedUp c)).1.map (update :: ·),
              (findNames rest (lookedUp c)).2) := by
      rintro row update hrow rfl
      simp only [findNames, hrow]
      rw [← lookedUp]
      generalize findNames rest (lookedUp c) = others
      obtain ⟨updates | updates, c'⟩ := others <;> cases row <;> rfl
    rw [hprepare] at hrow
    cases hstep : (c.after 1).fault with
    | some code =>
      rw [hstep] at hrow
      exact ⟨.INSERT name, ⟨rfl, nofun⟩, hnext none _ hrow rfl⟩
    | none =>
      rw [hstep] at hrow
      cases hfound : (c.planner.order (c.calls + 1)
          ((c.tables.media.medianame.rows.filter fun r => r.name = name.cstr).map fun r =>
            [.int r.id])).head? with
      | none =>
        refine ⟨.INSERT name, ⟨rfl, fun _ n hn hname => ?_⟩,
          hnext none _ (hrow.trans (by rw [hfound]; rfl)) rfl⟩
        rw [Planner.head?_eq_none, List.map_eq_nil_iff, List.filter_eq_nil_iff] at hfound
        exact hfound n hn (decide_eq_true hname)
      | some row =>
        obtain ⟨n, hn, rfl⟩ := List.mem_map.mp (c.planner.mem_of_head? hfound)
        obtain ⟨hn, hname⟩ := List.mem_filter.mp hn
        exact ⟨.USE_EXISTING (toInt32 n.id), ⟨rfl, n, hn, of_decide_eq_true hname, rfl⟩,
          hnext _ _ (hrow.trans (by rw [hfound]; rfl)) rfl⟩

-- A rollback after the lookups undoes what was done before them.
theorem tables_rollback_findNames (names : List Bytes) (c : Conn) :
    (rollback (findNames names c).2).tables = (rollback c).tables := by
  induction names generalizing c with
  | nil => rfl
  | cons name rest ih =>
    obtain ⟨-, hnone⟩ | ⟨-, update, -, hsome⟩ := findNames_plans name rest c
    · rw [hnone]
      rfl
    · rw [hsome]
      exact (ih (lookedUp c)).trans (tables_rollback_lookedUp c)

-- No lookup of these names ends the transaction.
def KeepsTransaction (names : List Bytes) (c : Conn) : Prop :=
  ∀ k < names.length, ∀ code, c.faults (c.calls + 2 * k + 1) = some code →
    endsTransaction code = false

theorem keepsTransaction_cons : KeepsTransaction (name :: rest) c ↔
    (∀ code, (c.after 1).fault = some code → endsTransaction code = false) ∧
      KeepsTransaction rest (c.after 2) := by
  have hcalls : ∀ k, (c.after 2).calls + 2 * k + 1 = c.calls + 2 * (k + 1) + 1 := by
    intro k
    show c.calls + 2 + 2 * k + 1 = _
    omega
  constructor
  · intro h
    refine ⟨h 0 (by simp), fun k hk code hcode => h (k + 1) (by simpa using hk) code ?_⟩
    rwa [hcalls] at hcode
  · rintro ⟨hfirst, hrest⟩ k hk code hcode
    cases k with
    | zero => exact hfirst code hcode
    | succ k =>
      refine hrest k (by simpa using hk) code ?_
      rwa [hcalls]

theorem lookedUp_of_keeps (h : KeepsTransaction (name :: rest) c) : lookedUp c = c.after 2 := by
  refine if_neg fun hgives => ?_
  obtain ⟨-, hgives⟩ := Bool.and_eq_true_iff.mp hgives
  cases hcode : (c.after 1).fault with
  | none =>
    rw [hcode] at hgives
    cases hgives
  | some code =>
    rw [hcode, Option.any_some, (keepsTransaction_cons.mp h).1 code hcode] at hgives
    cases hgives

-- After the lookups the transaction goes on, or it has been rolled back.
theorem findNames_conn (names : List Bytes) (c : Conn) :
    ∃ n, ((findNames names c).2 = c.after n ∧
        ((findNames names c).1 = none ∨ KeepsTransaction names c)) ∨
      (findNames names c).2 = (rollback c).after n := by
  induction names generalizing c with
  | nil => exact ⟨0, Or.inl ⟨rfl, Or.inr nofun⟩⟩
  | cons name rest ih =>
    obtain ⟨-, hnone⟩ | ⟨hprepare, update, -, hsome⟩ := findNames_plans name rest c
    · rw [hnone]
      exact ⟨1, Or.inl ⟨rfl, Or.inl rfl⟩⟩
    · rw [hsome]
      obtain ⟨n, hrest⟩ := ih (lookedUp c)
      refine ⟨2 + n, ?_⟩
      simp only
      rw [← Conn.after_after, ← Conn.after_after]
      by_cases hgives : givesUp c = true
      · rw [show lookedUp c = rollback (c.after 2) from if_pos hgives] at hrest ⊢
        rw [rollback_rollback] at hrest
        exact Or.inr (hrest.elim And.left id)
      · rw [show lookedUp c = c.after 2 from if_neg hgives] at hrest ⊢
        refine hrest.imp_left fun ⟨hconn, hkeeps⟩ => ⟨hconn, ?_⟩
        refine hkeeps.imp (fun hnone => by rw [hnone]; rfl) fun hkeeps => ?_
        refine keepsTransaction_cons.mpr ⟨fun code hcode => ?_, hkeeps⟩
        rw [givesUp, hprepare, hcode, Option.isNone_none, Bool.true_and, Option.any_some,
          Bool.not_eq_true] at hgives
        exact hgives

theorem findNames_of_keeps {names : List Bytes} {updates : List UpdateInfo}
    (hkeeps : KeepsTransaction names c) (h : findNames names c = (some updates, c')) :
    c' = c.after (2 * names.length) ∧
      List.Forall₂ (Planned c.tables.media.medianame.rows) updates names := by
  induction names generalizing c updates with
  | nil =>
    obtain ⟨hupdates, rfl⟩ := Prod.mk.inj h
    obtain rfl := Option.some.inj hupdates
    exact ⟨rfl, .nil⟩
  | cons name rest ih =>
    obtain ⟨-, hnone⟩ | ⟨-, update, hplans, hsome⟩ := findNames_plans name rest c
    · rw [hnone] at h
      cases h
    · rw [hsome, lookedUp_of_keeps hkeeps] at h
      obtain ⟨hupdates, hlast⟩ := Prod.mk.inj h
      obtain ⟨others, hothers, rfl⟩ := Option.map_eq_some_iff.mp hupdates
      obtain ⟨rfl, hplanned⟩ := ih (keepsTransaction_cons.mp hkeeps).2 (Prod.ext hothers hlast)
      refine ⟨?_, .cons ?_ hplanned⟩
      · rw [Conn.after_after, List.length_cons, Nat.mul_add, Nat.add_comm]
      · cases update with
        | INSERT name' => exact hplans.1
        | USE_EXISTING id => exact hplans.2

-- All names have been looked up only if every lookup was prepared.
theorem prepared_of_findNames {names : List Bytes} {updates : List UpdateInfo}
    (h : (findNames names c).1 = some updates) :
    ∀ k < names.length, c.faults (c.calls + 2 * k) = none := by
  induction names generalizing c updates with
  | nil => exact nofun
  | cons name rest ih =>
    obtain ⟨-, hnone⟩ | ⟨hprepare, update, -, hsome⟩ := findNames_plans name rest c
    · rw [hnone] at h
      cases h
    · rw [hsome] at h
      obtain ⟨others, hothers, -⟩ := Option.map_eq_some_iff.mp h
      have hrest := ih hothers
      rw [faults_lookedUp, calls_lookedUp] at hrest
      intro k hk
      cases k with
      | zero => exact hprepare
      | succ k =>
        have hnext := hrest k (by simpa using hk)
        rwa [show c.calls + 2 + 2 * k = c.calls + 2 * (k + 1) by omega] at hnext

end Lookup

section Refused

variable {c c' : Conn} {info : MediaInfo}

theorem tables_rollback {t : Tables} (h : c.saved = some t) : (rollback c).tables = t := by
  simp only [rollback, h, Option.getD_some]

-- The last two parts of `addMediaRows`, as it has them.
def linkNames (info : MediaInfo) (updates : List UpdateInfo) (c : Conn) : AddResult × Conn :=
  match insertNames updates c with
  | (none, c) => (.BACKEND_ERROR, c)
  | (some ids, c) =>
    match firstRow .findMediaId [.text info.mediaUniqueId] c with
    | (some (some row), c) =>
      match insertMaps (row.getInt 0) info.mediaType ids c with
      | (true, c) => (.OK, c)
      | (false, c) => (.BACKEND_ERROR, c)
    | (_, c) => (.BACKEND_ERROR, c)

-- The four ways through `addMediaRows`.
theorem addMediaRows_cases (info : MediaInfo) (c : Conn) :
    ((addMediaRows info c).1 ≠ .OK ∧ (addMediaRows info c).2.saved = c.saved) ∨
    ∃ media, c.tables.media.insertMediaId info.mediaUniqueId.cstr info.mediaId.cstr = some media ∧
      c.fault = none ∧ (c.after 1).fault = none ∧
      (((findNames info.names (c.stored media)).1 = none ∧
        addMediaRows info c = (.BACKEND_ERROR, (findNames info.names (c.stored media)).2)) ∨
      ∃ updates c₂, findNames info.names (c.stored media) = (some updates, c₂) ∧
        addMediaRows info c = linkNames info updates c₂) := by
  have hexecute := @saved_execute c .insertMediaId [.text info.mediaUniqueId, .text info.mediaId]
  unfold addMediaRows
  cases hdone : execute .insertMediaId [.text info.mediaUniqueId, .text info.mediaId] c with
  | mk answer c₁ =>
    rw [hdone] at hexecute
    rcases answer with _ | _ | _
    · exact Or.inl ⟨nofun, hexecute⟩
    · exact Or.inl ⟨nofun, hexecute⟩
    · obtain ⟨hquiet, media, hmedia, rfl⟩ := (execute_inserted
        (eval_insertMediaId c.tables info.mediaUniqueId info.mediaId)).mp hdone
      obtain ⟨hprepare, hstep⟩ := c.quietFor_two.mp hquiet
      refine Or.inr ⟨media, hmedia, hprepare, hstep, ?_⟩
      simp only
      generalize findNames info.names (c.stored media) = found
      obtain ⟨updates | updates, c₂⟩ := found
      · exact Or.inl ⟨rfl, rfl⟩
      · exact Or.inr ⟨updates, c₂, rfl, rfl⟩

theorem saved_linkNames (updates : List UpdateInfo) :
    (linkNames info updates c).2.saved = c.saved := by
  have hnames := @saved_insertNames c updates
  unfold linkNames
  generalize insertNames updates c = inserted at hnames ⊢
  obtain ⟨ids | ids, c₁⟩ := inserted
  · exact hnames
  · have hfound := @saved_firstRow c₁ .findMediaId [.text info.mediaUniqueId]
    simp only
    generalize firstRow .findMediaId [.text info.mediaUniqueId] c₁ = found at hfound ⊢
    obtain ⟨row, c₂⟩ := found
    rcases row with _ | _ | row
    · exact hfound.trans hnames
    · exact hfound.trans hnames
    · have hmaps := @saved_insertMaps c₂ (row.getInt 0) info.mediaType ids
      simp only
      generalize insertMaps (row.getInt 0) info.mediaType ids c₂ = mapped at hmaps ⊢
      obtain ⟨_ | _, c₃⟩ := mapped <;> exact hmaps.trans (hfound.trans hnames)

-- Once the media is inserted and every lookup prepared, no lookup fails so that the transaction
-- ends.
def LookupsKeep (info : MediaInfo) (c : Conn) : Prop :=
  (∀ r ∈ c.tables.media.mediaids.rows, r.mediauniqueid ≠ info.mediaUniqueId.cstr) →
    c.fault = none → (c.after 1).fault = none →
      (∀ k < info.names.length, c.faults (c.calls + 2 + 2 * k) = none) →
        KeepsTransaction info.names (c.after 2)

-- The rollback leaves what was there at the begin.
theorem tables_rollback_addMediaRows {t : Tables} (hsaved : c.saved = some t)
    (hkeeps : LookupsKeep info c) : (rollback (addMediaRows info c).2).tables = t := by
  obtain ⟨-, hsame⟩ | ⟨media, hmedia, hprepare, hstep, ⟨-, hrows⟩ |
    ⟨updates, c₂, hfound, hrows⟩⟩ := addMediaRows_cases info c
  · exact tables_rollback (hsame.trans hsaved)
  · rw [hrows]
    exact (tables_rollback_findNames _ _).trans (tables_rollback hsaved)
  · have hnames : KeepsTransaction info.names (c.stored media) :=
      hkeeps (Media.of_insertMediaId hmedia).1 hprepare hstep
        (prepared_of_findNames (congrArg Prod.fst hfound))
    obtain ⟨rfl, -⟩ := findNames_of_keeps hnames hfound
    rw [hrows]
    exact tables_rollback ((saved_linkNames updates).trans hsaved)

-- Without its row a media gets no links.
theorem linkNames_unused (hunused : ∀ r ∈ c.tables.media.mediaids.rows,
    r.mediauniqueid ≠ info.mediaUniqueId.cstr) (updates : List UpdateInfo) :
    (linkNames info updates c).1 ≠ .OK := by
  have hmediaids := @mediaids_insertNames c updates
  unfold linkNames
  generalize insertNames updates c = inserted at hmediaids ⊢
  obtain ⟨ids | ids, c₁⟩ := inserted
  · exact nofun
  · simp only at hmediaids ⊢
    cases hfound : firstRow .findMediaId [.text info.mediaUniqueId] c₁ with
    | mk row c₂ =>
      rcases row with _ | _ | row
      · exact nofun
      · exact nofun
      · obtain ⟨-, hrow⟩ := firstRow_found (eval_findMediaId c₁.tables info.mediaUniqueId) hfound
        obtain ⟨m, hm, -⟩ := List.mem_map.mp hrow
        obtain ⟨hm, huid⟩ := List.mem_filter.mp hm
        rw [hmediaids] at hm
        exact absurd (of_decide_eq_true huid) (hunused m hm)

end Refused

end Glider.Db.Sqlite

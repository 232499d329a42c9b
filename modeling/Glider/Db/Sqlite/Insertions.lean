import Glider.Db.Sqlite.Backend
import Glider.Db.Sqlite.Joined

namespace Glider.Db.Sqlite

open Glider.Lib

section Eval

variable (t : Tables)

theorem eval_findMediaName (name : Bytes) :
    Script.findMediaName.eval ([.text name].map Helper.bound) t =
      .ok (.rows ((t.media.medianame.rows.filter fun r => r.name = name.cstr).map fun r =>
        [.int r.id])) := by
  simp only [Script.eval, List.map_cons, List.map_nil, Helper.bound, List.getD_cons_zero,
    Value.text.injEq]

theorem eval_findMediaId (mediauniqueid : Bytes) :
    Script.findMediaId.eval ([.text mediauniqueid].map Helper.bound) t =
      .ok (.rows ((t.media.mediaids.rows.filter fun r =>
        r.mediauniqueid = mediauniqueid.cstr).map fun r => [.int r.id])) := by
  simp only [Script.eval, List.map_cons, List.map_nil, Helper.bound, List.getD_cons_zero,
    Value.text.injEq]

theorem eval_insertMediaId (mediauniqueid mediaid : Bytes) :
    Script.insertMediaId.eval ([.text mediauniqueid, .text mediaid].map Helper.bound) t =
      inserted ((t.media.insertMediaId mediauniqueid.cstr mediaid.cstr).map fun media =>
        { t with media }) := rfl

theorem eval_insertMediaName (name : Bytes) :
    Script.insertMediaName.eval ([.text name].map Helper.bound) t =
      inserted ((t.media.insertMediaName name.cstr).map fun media => { t with media }) := rfl

theorem eval_insertMediaMap (mediaid medianameid mediatype : ℤ) :
    Script.insertMediaMap.eval
        ([.int mediaid, .int medianameid, .int mediatype].map Helper.bound) t =
      inserted ((t.media.insertMediaMap mediaid medianameid mediatype).map fun media =>
        { t with media }) := rfl

end Eval

-- The next `n` calls of the library succeed.
def Conn.QuietFor (c : Conn) (n : ℕ) : Prop := ∀ j < n, c.faults (c.calls + j) = none

-- After an insertion into one of the three tables.
def Conn.stored (c : Conn) (media : Media) : Conn :=
  { c.after 2 with tables := { c.tables with media }, changes := 1 }

section Calls

variable {c c' : Conn}

theorem Conn.quietFor_add (c : Conn) (n m : ℕ) :
    c.QuietFor (n + m) ↔ c.QuietFor n ∧ (c.after n).QuietFor m := by
  constructor
  · intro h
    refine ⟨fun j hj => h j (by omega), fun j hj => ?_⟩
    have hlater := h (n + j) (by omega)
    rwa [← Nat.add_assoc] at hlater
  · rintro ⟨h, hlater⟩ j hj
    by_cases hfirst : j < n
    · exact h j hfirst
    · have hlast := hlater (j - n) (by omega)
      change c.faults (c.calls + n + (j - n)) = none at hlast
      rwa [show c.calls + n + (j - n) = c.calls + j by omega] at hlast

theorem Conn.quietFor_one (c : Conn) : c.QuietFor 1 ↔ c.fault = none := by
  refine ⟨fun h => h 0 (by omega), fun h j hj => ?_⟩
  obtain rfl : j = 0 := by omega
  exact h

theorem Conn.quietFor_two (c : Conn) :
    c.QuietFor 2 ↔ c.fault = none ∧ (c.after 1).fault = none := by
  rw [show 2 = 1 + 1 from rfl, quietFor_add, quietFor_one, quietFor_one]

-- An insertion that is answered with success.
theorem execute_inserted {script : Script} {args : List Value} {made : Option Media}
    (heval : script.eval (args.map Helper.bound) c.tables =
      inserted (made.map fun media => { c.tables with media })) :
    execute script args c = (some true, c') ↔
      c.QuietFor 2 ∧ ∃ media, made = some media ∧ c' = c.stored media := by
  rw [execute_eq (by rw [heval]; cases made <;> exact nofun), heval, Conn.quietFor_two]
  cases c.fault with
  | some code => simp
  | none =>
    cases (c.after 1).fault with
    | some code => simp
    | none =>
      cases made with
      | none => simp [inserted]
      | some media => simp [inserted, Conn.stored, eq_comm]

-- A query for the only row with a key.
theorem firstRow_only {script : Script} {args : List Value} {row found : Row}
    (heval : script.eval (args.map Helper.bound) c.tables = .ok (.rows [row])) :
    firstRow script args c = (some (some found), c') ↔
      c.QuietFor 2 ∧ found = row ∧ c' = c.after 2 := by
  rw [firstRow_of_rows heval, Conn.quietFor_two,
    List.perm_singleton.mp (c.planner.perm (c.calls + 1) [row])]
  cases c.fault with
  | some code => simp
  | none => cases (c.after 1).fault <;> simp [eq_comm]

end Calls

section Names

variable {c c' : Conn} {t : Media} {n : ℕ}

-- The row that is read back is the one that was written.
theorem insertName_iff {name : Bytes} {id : ℤ} :
    insertName name c = (some id, c') ↔ c.QuietFor 4 ∧
      ∃ media, c.tables.media.insertMediaName name.cstr = some media ∧
        id = toInt32 (c.tables.media.medianameSeq + 1) ∧ c' = (c.stored media).after 2 := by
  have hread : ∀ media, c.tables.media.insertMediaName name.cstr = some media →
      Script.findMediaName.eval ([.text name].map Helper.bound) (c.stored media).tables =
        .ok (.rows [[.int (c.tables.media.medianameSeq + 1)]]) := by
    intro media hmedia
    obtain ⟨hnew, hdata⟩ := Media.of_insertMediaName hmedia
    have hrows : media.medianame.rows = c.tables.media.medianame.rows ++
        [⟨c.tables.media.medianameSeq + 1, name.cstr⟩] := congrArg Media.Data.medianame hdata
    have hold : (c.tables.media.medianame.rows.filter fun r => r.name = name.cstr) = [] := by
      rw [List.filter_eq_nil_iff]
      exact fun n hn hname => hnew n hn (of_decide_eq_true hname)
    rw [eval_findMediaName, show (c.stored media).tables.media = media from rfl, hrows,
      List.filter_append, hold, List.nil_append, List.filter_cons_of_pos (by simp)]
    rfl
  rw [show 4 = 2 + 2 from rfl, Conn.quietFor_add, insertName]
  constructor
  · intro h
    cases hdone : execute .insertMediaName [.text name] c with
    | mk answer c₁ =>
      rw [hdone] at h
      rcases answer with _ | _ | _
      · cases h
      · cases h
      · obtain ⟨hquiet, media, hmedia, rfl⟩ :=
          (execute_inserted (eval_insertMediaName c.tables name)).mp hdone
        simp only at h
        cases hfound : firstRow .findMediaName [.text name] (c.stored media) with
        | mk row c₂ =>
          rw [hfound] at h
          rcases row with _ | _ | row
          · cases h
          · cases h
          · obtain ⟨hquiet', rfl, rfl⟩ := (firstRow_only (hread media hmedia)).mp hfound
            obtain ⟨hid, rfl⟩ := Prod.mk.inj h
            exact ⟨⟨hquiet, hquiet'⟩, media, hmedia, (Option.some.inj hid).symm, rfl⟩
  · rintro ⟨⟨hquiet, hquiet'⟩, media, hmedia, hid, rfl⟩
    rw [hid, (execute_inserted (eval_insertMediaName c.tables name)).mpr ⟨hquiet, media, hmedia, rfl⟩]
    simp only
    rw [(firstRow_only (hread media hmedia)).mpr ⟨hquiet', rfl, rfl⟩]
    rfl

-- The names that are to be inserted, as they are stored.
def inserts : List UpdateInfo → List Bytes
  | [] => []
  | .INSERT name :: rest => name.cstr :: inserts rest
  | .USE_EXISTING _ :: rest => inserts rest

-- The rows that the names get, one after the other.
def numbered : ℕ → List Bytes → List MediaNameRow
  | _, [] => []
  | seq, name :: rest => ⟨seq + 1, name⟩ :: numbered (seq + 1) rest

-- None of the names is there, and there are numbers for all of them.
structure Storable (t : Media) (names : List Bytes) : Prop where
  distinct : names.Nodup
  unknown : ∀ name ∈ names, ∀ n ∈ t.medianame.rows, n.name ≠ name
  numbers : ∀ i < names.length, t.medianameSeq + i < Media.maxId

theorem storable_cons {name : Bytes} {rest : List Bytes} :
    Storable t (name :: rest) ↔
      ∃ t', t.insertMediaName name = some t' ∧ Storable t' rest := by
  constructor
  · rintro ⟨hdistinct, hunknown, hnumbers⟩
    obtain ⟨hother, hdistinct⟩ := List.nodup_cons.mp hdistinct
    have hnumber : t.medianameSeq < Media.maxId := by simpa using hnumbers 0 (by simp)
    obtain ⟨t', hinsert, hdata⟩ := Media.insertMediaName_data hnumber
      (hunknown name List.mem_cons_self)
    have hrows : t'.medianame.rows = t.medianame.rows ++ [⟨t.medianameSeq + 1, name⟩] :=
      congrArg Media.Data.medianame hdata
    have hseq : t'.medianameSeq = t.medianameSeq + 1 := congrArg Media.Data.medianameSeq hdata
    refine ⟨t', hinsert, hdistinct, fun name' hname' n hn => ?_, fun i hi => ?_⟩
    · rw [hrows, List.mem_append, List.mem_singleton] at hn
      rcases hn with hn | rfl
      · exact hunknown name' (List.mem_cons_of_mem _ hname') n hn
      · rintro rfl
        exact hother hname'
    · have hnumber := hnumbers (i + 1) (by simpa using hi)
      omega
  · rintro ⟨t', hinsert, hdistinct, hunknown, hnumbers⟩
    obtain ⟨hseq, hnew⟩ := Media.insertMediaName_iff.mp ⟨t', hinsert⟩
    obtain ⟨-, hdata⟩ := Media.of_insertMediaName hinsert
    have hrows : t'.medianame.rows = t.medianame.rows ++ [⟨t.medianameSeq + 1, name⟩] :=
      congrArg Media.Data.medianame hdata
    have hseq' : t'.medianameSeq = t.medianameSeq + 1 := congrArg Media.Data.medianameSeq hdata
    refine ⟨List.nodup_cons.mpr ⟨fun hmem => ?_, hdistinct⟩, fun name' hname' n hn => ?_,
      fun i hi => ?_⟩
    · refine hunknown name hmem ⟨t.medianameSeq + 1, name⟩ ?_ rfl
      rw [hrows]
      exact List.mem_append_right _ List.mem_cons_self
    · rcases List.mem_cons.mp hname' with rfl | hname'
      · exact hnew n hn
      · refine hunknown name' hname' n ?_
        rw [hrows]
        exact List.mem_append_left _ hn
    · cases i with
      | zero => exact hseq
      | succ i =>
        have hnumber := hnumbers i (by simpa using hi)
        omega

-- What `insertNames` does for one name.
def Inserts (c : Conn) : UpdateInfo → ℤ → Conn → Prop
  | .INSERT name, id, c₁ => insertName name c = (some id, c₁)
  | .USE_EXISTING id', id, c₁ => id = id' ∧ c₁ = c

theorem insertNames_cons {update : UpdateInfo} {rest : List UpdateInfo} {ids : List ℤ} :
    insertNames (update :: rest) c = (some ids, c') ↔
      ∃ id c₁ others, Inserts c update id c₁ ∧ insertNames rest c₁ = (some others, c') ∧
        ids = id :: others := by
  constructor
  · intro h
    cases update with
    | USE_EXISTING id =>
      simp only [insertNames] at h
      cases hothers : insertNames rest c with
      | mk others c₂ =>
        rw [hothers] at h
        cases others with
        | none => cases h
        | some others =>
          obtain ⟨hids, rfl⟩ := Prod.mk.inj h
          exact ⟨id, c, others, ⟨rfl, rfl⟩, hothers, (Option.some.inj hids).symm⟩
    | INSERT name =>
      simp only [insertNames] at h
      cases hinserted : insertName name c with
      | mk id c₁ =>
        rw [hinserted] at h
        cases id with
        | none => cases h
        | some id =>
          cases hothers : insertNames rest c₁ with
          | mk others c₂ =>
            simp only [hothers] at h
            cases others with
            | none => cases h
            | some others =>
              obtain ⟨hids, rfl⟩ := Prod.mk.inj h
              exact ⟨id, c₁, others, hinserted, hothers, (Option.some.inj hids).symm⟩
  · rintro ⟨id, c₁, others, hfirst, hrest, rfl⟩
    cases update with
    | USE_EXISTING id' =>
      obtain ⟨rfl, rfl⟩ := hfirst
      simp only [insertNames, hrest]
    | INSERT name =>
      have hfirst : insertName name c = (some id, c₁) := hfirst
      simp only [insertNames, hfirst, hrest]

theorem insertNames_iff {updates : List UpdateInfo} :
    (∃ ids c', insertNames updates c = (some ids, c')) ↔
      c.QuietFor (4 * (inserts updates).length) ∧ Storable c.tables.media (inserts updates) := by
  induction updates generalizing c with
  | nil =>
    refine iff_of_true ⟨[], c, rfl⟩ ⟨fun j hj => absurd hj (by simp [inserts]), ?_⟩
    exact ⟨List.nodup_nil, nofun, fun i hi => absurd hi (by simp [inserts])⟩
  | cons update rest ih =>
    simp only [insertNames_cons]
    cases update with
    | USE_EXISTING id =>
      rw [inserts, ← ih]
      constructor
      · rintro ⟨_, c', _, _, others, ⟨rfl, rfl⟩, hrest, rfl⟩
        exact ⟨others, c', hrest⟩
      · rintro ⟨others, c', hrest⟩
        exact ⟨_, c', _, _, others, ⟨rfl, rfl⟩, hrest, rfl⟩
    | INSERT name =>
      rw [inserts, List.length_cons,
        show 4 * ((inserts rest).length + 1) = 4 + 4 * (inserts rest).length by omega,
        Conn.quietFor_add, storable_cons]
      simp only [Inserts, insertName_iff]
      constructor
      · rintro ⟨_, c', _, _, others, ⟨hquiet, media, hmedia, -, rfl⟩, hrest, -⟩
        obtain ⟨hlater, hstorable⟩ := ih.mp ⟨others, c', hrest⟩
        exact ⟨⟨hquiet, hlater⟩, media, hmedia, hstorable⟩
      · rintro ⟨⟨hquiet, hlater⟩, media, hmedia, hstorable⟩
        obtain ⟨others, c', hrest⟩ := (@ih ((c.stored media).after 2)).mpr ⟨hlater, hstorable⟩
        exact ⟨_, c', _, _, others, ⟨hquiet, media, hmedia, rfl, rfl⟩, hrest, rfl⟩

-- After `n` more calls of the library, none of which ended the transaction.
structure Conn.Later (c : Conn) (n : ℕ) (c' : Conn) : Prop where
  faults : c'.faults = c.faults
  calls : c'.calls = c.calls + n
  saved : c'.saved = c.saved

theorem Conn.Later.quietFor (h : c.Later n c') (m : ℕ) :
    c'.QuietFor m ↔ (c.after n).QuietFor m := by
  unfold QuietFor
  rw [h.faults, h.calls]
  rfl

-- What `findNames` has found out about a name, whatever failed.
def Planned (known : List MediaNameRow) : UpdateInfo → Bytes → Prop
  | .INSERT name', name => name' = name
  | .USE_EXISTING id, name => ∃ n ∈ known, n.name = name.cstr ∧ id = toInt32 n.id

theorem of_insertNames {known : List MediaNameRow} {updates : List UpdateInfo}
    {names : List Bytes} {ids : List ℤ} (hplanned : List.Forall₂ (Planned known) updates names)
    (hknown : ∀ n ∈ known, n ∈ c.tables.media.medianame.rows)
    (h : insertNames updates c = (some ids, c')) :
    c.Later (4 * (inserts updates).length) c' ∧
      c'.tables.media.data = { c.tables.media.data with
        medianame := c.tables.media.medianame.rows ++
          numbered c.tables.media.medianameSeq (inserts updates)
        medianameSeq := c.tables.media.medianameSeq + (inserts updates).length } ∧
      List.Forall₂ (fun id name => ∃ n ∈ c'.tables.media.medianame.rows,
        n.name = Bytes.cstr name ∧ id = toInt32 n.id) ids names := by
  induction hplanned generalizing c ids with
  | nil =>
    obtain ⟨hids, rfl⟩ := Prod.mk.inj h
    obtain rfl := Option.some.inj hids
    refine ⟨⟨rfl, rfl, rfl⟩, ?_, .nil⟩
    simp only [inserts, numbered, List.append_nil, List.length_nil, Nat.add_zero]
    rfl
  | @cons update name updates rest hfit _ ih =>
    obtain ⟨id, c₁, others, hfirst, hrest, rfl⟩ := insertNames_cons.mp h
    cases update with
    | USE_EXISTING id' =>
      obtain ⟨rfl, rfl⟩ := hfirst
      obtain ⟨n, hn, hname, rfl⟩ := hfit
      obtain ⟨hlater, hdata, hids⟩ := ih hknown hrest
      refine ⟨hlater, hdata, .cons ⟨n, ?_, hname, rfl⟩ hids⟩
      rw [show c'.tables.media.medianame.rows = _ from congrArg Media.Data.medianame hdata]
      exact List.mem_append_left _ (hknown n hn)
    | INSERT name' =>
      obtain rfl : name' = name := hfit
      obtain ⟨-, media, hmedia, hid, rfl⟩ := insertName_iff.mp hfirst
      obtain ⟨-, hdata₁⟩ := Media.of_insertMediaName hmedia
      have hrows : media.medianame.rows = c.tables.media.medianame.rows ++
          [⟨c.tables.media.medianameSeq + 1, name'.cstr⟩] :=
        congrArg Media.Data.medianame hdata₁
      have hseq : media.medianameSeq = c.tables.media.medianameSeq + 1 :=
        congrArg Media.Data.medianameSeq hdata₁
      have hknown₁ : ∀ n ∈ known, n ∈ media.medianame.rows := by
        intro n hn
        rw [hrows]
        exact List.mem_append_left _ (hknown n hn)
      obtain ⟨hlater, hdata, hids⟩ := @ih ((c.stored media).after 2) _ hknown₁ hrest
      have hdata : c'.tables.media.data = { c.tables.media.data with
          medianame := c.tables.media.medianame.rows ++
            numbered c.tables.media.medianameSeq (name'.cstr :: inserts updates)
          medianameSeq := c.tables.media.medianameSeq + (inserts updates).length + 1 } := by
        rw [hdata]
        change ({ media.data with
          medianame := media.medianame.rows ++ numbered media.medianameSeq (inserts updates)
          medianameSeq := media.medianameSeq + (inserts updates).length } : Media.Data) = _
        rw [hdata₁, hrows, hseq, numbered, List.append_assoc, List.singleton_append,
          Nat.add_right_comm]
      refine ⟨⟨hlater.faults, hlater.calls.trans ?_, hlater.saved⟩, hdata,
        .cons ⟨⟨c.tables.media.medianameSeq + 1, name'.cstr⟩, ?_, rfl, hid⟩ hids⟩
      · show c.calls + 2 + 2 + 4 * (inserts updates).length =
          c.calls + 4 * ((inserts updates).length + 1)
        omega
      · rw [show c'.tables.media.medianame.rows = _ from congrArg Media.Data.medianame hdata]
        exact List.mem_append_right _ List.mem_cons_self

end Names

section Maps

variable {c c' : Conn} {t t' : Media} {mediaIdIndex : ℤ} {type : MediaType}

-- Both sides of every link are there, and there are numbers for all of them.
structure Linkable (t : Media) (mediaIdIndex : ℤ) (ids : List ℤ) : Prop where
  media : ids ≠ [] → ∃ m ∈ t.mediaids.rows, m.id = mediaIdIndex
  names : ∀ id ∈ ids, ∃ n ∈ t.medianame.rows, n.id = id
  numbers : ∀ i < ids.length, t.mediamapSeq + i < Media.maxId

theorem linkable_cons {id mediatype : ℤ} {ids : List ℤ} :
    Linkable t mediaIdIndex (id :: ids) ↔
      ∃ t', t.insertMediaMap mediaIdIndex id mediatype = some t' ∧
        Linkable t' mediaIdIndex ids := by
  constructor
  · rintro ⟨hmedia, hnames, hnumbers⟩
    have hnumber : t.mediamapSeq < Media.maxId := by simpa using hnumbers 0 (by simp)
    have hmedia := hmedia (List.cons_ne_nil _ _)
    obtain ⟨t', hinsert, hdata⟩ := @Media.insertMediaMap_data t mediaIdIndex id mediatype hnumber
      (hnames id List.mem_cons_self) hmedia
    have hmediaids : t'.mediaids.rows = t.mediaids.rows := congrArg Media.Data.mediaids hdata
    have hmedianame : t'.medianame.rows = t.medianame.rows := congrArg Media.Data.medianame hdata
    have hseq : t'.mediamapSeq = t.mediamapSeq + 1 := congrArg Media.Data.mediamapSeq hdata
    refine ⟨t', hinsert, fun _ => hmediaids ▸ hmedia, fun id' hid' => ?_, fun i hi => ?_⟩
    · rw [hmedianame]
      exact hnames id' (List.mem_cons_of_mem _ hid')
    · have hnumber := hnumbers (i + 1) (by simpa using hi)
      omega
  · rintro ⟨t', hinsert, -, hnames, hnumbers⟩
    obtain ⟨hname, hmedia, hdata⟩ := Media.of_insertMediaMap hinsert
    have hmedianame : t'.medianame.rows = t.medianame.rows := congrArg Media.Data.medianame hdata
    have hseq' : t'.mediamapSeq = t.mediamapSeq + 1 := congrArg Media.Data.mediamapSeq hdata
    refine ⟨fun _ => hmedia, fun id' hid' => ?_, fun i hi => ?_⟩
    · rcases List.mem_cons.mp hid' with rfl | hid'
      · exact hname
      · exact hmedianame ▸ hnames id' hid'
    · cases i with
      | zero =>
        by_contra hseq
        rw [Media.insertMediaMap, dif_neg fun hkeys => hseq hkeys.1] at hinsert
        cases hinsert
      | succ i =>
        have hnumber := hnumbers i (by simpa using hi)
        omega

theorem insertMaps_cons {id : ℤ} {ids : List ℤ} :
    insertMaps mediaIdIndex type (id :: ids) c = (true, c') ↔ c.QuietFor 2 ∧
      ∃ media, c.tables.media.insertMediaMap mediaIdIndex id type.toNumber = some media ∧
        insertMaps mediaIdIndex type ids (c.stored media) = (true, c') := by
  have hdone := fun c₁ => @execute_inserted c c₁ _ _ _
    (eval_insertMediaMap c.tables mediaIdIndex id type.toNumber)
  rw [insertMaps]
  constructor
  · intro h
    cases hexecute : execute .insertMediaMap
        [.int mediaIdIndex, .int id, .int type.toNumber] c with
    | mk answer c₁ =>
      rw [hexecute] at h
      rcases answer with _ | _ | _
      · cases h
      · cases h
      · obtain ⟨hquiet, media, hmedia, rfl⟩ := (hdone c₁).mp hexecute
        exact ⟨hquiet, media, hmedia, h⟩
  · rintro ⟨hquiet, media, hmedia, h⟩
    rw [(hdone _).mpr ⟨hquiet, media, hmedia, rfl⟩]
    exact h

theorem insertMaps_iff {ids : List ℤ} :
    (∃ c', insertMaps mediaIdIndex type ids c = (true, c')) ↔
      c.QuietFor (2 * ids.length) ∧ Linkable c.tables.media mediaIdIndex ids := by
  induction ids generalizing c with
  | nil =>
    refine iff_of_true ⟨c, rfl⟩ ⟨fun j hj => absurd hj (by simp), fun hne => absurd rfl hne,
      nofun, fun i hi => absurd hi (by simp)⟩
  | cons id ids ih =>
    rw [List.length_cons, show 2 * (ids.length + 1) = 2 + 2 * ids.length by omega,
      Conn.quietFor_add, @linkable_cons _ _ _ type.toNumber]
    simp only [insertMaps_cons]
    constructor
    · rintro ⟨c', hquiet, media, hmedia, hrest⟩
      obtain ⟨hlater, hlinkable⟩ := ih.mp ⟨c', hrest⟩
      exact ⟨⟨hquiet, hlater⟩, media, hmedia, hlinkable⟩
    · rintro ⟨⟨hquiet, hlater⟩, media, hmedia, hlinkable⟩
      obtain ⟨c', hrest⟩ := (@ih (c.stored media)).mpr ⟨hlater, hlinkable⟩
      exact ⟨c', hquiet, media, hmedia, hrest⟩

theorem of_insertMaps {ids : List ℤ} (h : insertMaps mediaIdIndex type ids c = (true, c')) :
    c.Later (2 * ids.length) c' ∧
    ∃ rows, c'.tables.media.data = { c.tables.media.data with
        mediamap := c.tables.media.mediamap.rows ++ rows
        mediamapSeq := c.tables.media.mediamapSeq + ids.length } ∧
      List.Forall₂ (fun r id => r.medianameid = id ∧ r.mediaid = mediaIdIndex ∧
        r.mediatype = type.toNumber) rows ids := by
  induction ids generalizing c with
  | nil =>
    obtain ⟨-, rfl⟩ := Prod.mk.inj h
    refine ⟨⟨rfl, rfl, rfl⟩, [], ?_, .nil⟩
    simp only [List.append_nil, List.length_nil, Nat.add_zero]
    rfl
  | cons id rest ih =>
    obtain ⟨-, media, hmedia, hrest⟩ := insertMaps_cons.mp h
    obtain ⟨-, -, hdata⟩ := Media.of_insertMediaMap hmedia
    obtain ⟨hlater, rows, hdata', hrows⟩ := ih hrest
    refine ⟨⟨hlater.faults, hlater.calls.trans ?_, hlater.saved⟩,
      ⟨c.tables.media.mediamapSeq + 1, id, mediaIdIndex, type.toNumber⟩ :: rows, ?_,
      .cons ⟨rfl, rfl, rfl⟩ hrows⟩
    · show c.calls + 2 + 2 * rest.length = c.calls + 2 * (rest.length + 1)
      omega
    · have hmaps : media.mediamap.rows = c.tables.media.mediamap.rows ++
          [⟨c.tables.media.mediamapSeq + 1, id, mediaIdIndex, type.toNumber⟩] :=
        congrArg Media.Data.mediamap hdata
      have hseq : media.mediamapSeq = c.tables.media.mediamapSeq + 1 :=
        congrArg Media.Data.mediamapSeq hdata
      rw [hdata']
      show ({ media.data with
        mediamap := media.mediamap.rows ++ rows
        mediamapSeq := media.mediamapSeq + rest.length } : Media.Data) = _
      rw [hmaps, hseq, hdata, List.append_assoc, List.length_cons, Nat.add_assoc, Nat.add_comm 1]
      rfl

end Maps

end Glider.Db.Sqlite

import Glider.Db.Sqlite.AddMedia

namespace Glider.Db.Sqlite

open Glider.Lib

-- Every lookup is prepared, and one that fails is that of a name that is not there, and does not
-- end the transaction. The lookups begin with the call number `n`.
def LookupsPass (known : List MediaNameRow) (faults : ℕ → Option ℤ) : List Bytes → ℕ → Prop
  | [], _ => True
  | name :: rest, n =>
    faults n = none ∧
      (∀ code, faults (n + 1) = some code →
        endsTransaction code = false ∧ ∀ r ∈ known, r.name ≠ name.cstr) ∧
      LookupsPass known faults rest (n + 2)

section Lookups

variable {c c' : Conn} {names : List Bytes} {updates : List UpdateInfo}

theorem exists_findNames
    (h : LookupsPass c.tables.media.medianame.rows c.faults names c.calls) :
    KeepsTransaction names c ∧ ∃ updates c', findNames names c = (some updates, c') := by
  induction names generalizing c with
  | nil => exact ⟨nofun, [], c, rfl⟩
  | cons name rest ih =>
    obtain ⟨hprepare, hfirst, hrest⟩ := h
    obtain ⟨hkeeps, updates, c', hothers⟩ := @ih (c.after 2) hrest
    have hkeeps : KeepsTransaction (name :: rest) c :=
      keepsTransaction_cons.mpr ⟨fun code hcode => (hfirst code hcode).1, hkeeps⟩
    refine ⟨hkeeps, ?_⟩
    obtain ⟨hfails, -⟩ | ⟨-, update, -, hfound⟩ := findNames_plans name rest c
    · exact absurd hprepare hfails
    · rw [lookedUp_of_keeps hkeeps, hothers] at hfound
      exact ⟨update :: updates, c', hfound⟩

-- A stored name whose lookup fails would be inserted once more.
theorem lookupsPass_iff (hkeeps : KeepsTransaction names c)
    (h : findNames names c = (some updates, c')) :
    LookupsPass c.tables.media.medianame.rows c.faults names c.calls ↔
      ∀ name ∈ inserts updates, ∀ n ∈ c.tables.media.medianame.rows, n.name ≠ name := by
  induction names generalizing c updates with
  | nil =>
    obtain ⟨hupdates, rfl⟩ := Prod.mk.inj h
    obtain rfl := Option.some.inj hupdates
    exact iff_of_true trivial nofun
  | cons name rest ih =>
    obtain ⟨hfirst, hrest⟩ := keepsTransaction_cons.mp hkeeps
    obtain ⟨-, hnone⟩ | ⟨hprepare, update, hplans, hsome⟩ := findNames_plans name rest c
    · rw [hnone] at h
      cases h
    · rw [hsome, lookedUp_of_keeps hkeeps] at h
      obtain ⟨hupdates, hlast⟩ := Prod.mk.inj h
      obtain ⟨others, hothers, rfl⟩ := Option.map_eq_some_iff.mp hupdates
      have hiff := ih hrest (Prod.ext hothers hlast)
      cases update with
      | INSERT name' =>
        obtain ⟨rfl, hunknown⟩ := hplans
        rw [LookupsPass, inserts, List.forall_mem_cons]
        refine (and_iff_right hprepare).trans (and_congr ⟨fun hpass => ?_,
          fun hnew code hcode => ⟨hfirst code hcode, hnew⟩⟩ hiff)
        cases hstep : (c.after 1).fault with
        | none => exact hunknown hstep
        | some code => exact (hpass code hstep).2
      | USE_EXISTING id =>
        obtain ⟨hstep, -⟩ := hplans
        rw [LookupsPass, inserts]
        refine (and_iff_right hprepare).trans ((and_iff_right fun code hcode => ?_).trans hiff)
        cases hstep.symm.trans hcode

end Lookups

-- The names that are not in the table yet, as they are stored.
def unknownNames (known : List MediaNameRow) (names : List Bytes) : List Bytes :=
  (names.map Bytes.cstr).filter fun name => name ∉ known.map MediaNameRow.name

-- The rows that these names get.
def Media.newNames (t : Media) (names : List Bytes) : List MediaNameRow :=
  numbered t.medianameSeq (unknownNames t.medianame.rows names)

-- The row that the media gets.
def Media.newMedia (t : Media) (info : MediaInfo) : MediaIdRow :=
  ⟨t.mediaidsSeq + 1, info.mediaUniqueId.cstr, info.mediaId.cstr⟩

theorem inserts_eq {known : List MediaNameRow} {updates : List UpdateInfo} {names : List Bytes}
    (hplanned : List.Forall₂ (Planned known) updates names)
    (hunknown : ∀ name ∈ inserts updates, ∀ n ∈ known, n.name ≠ name) :
    inserts updates = unknownNames known names := by
  induction hplanned with
  | nil => rfl
  | @cons update name updates rest hfit _ ih =>
    cases update with
    | USE_EXISTING id =>
      obtain ⟨n, hn, hname, -⟩ := hfit
      rw [inserts, ih hunknown, unknownNames, unknownNames, List.map_cons,
        List.filter_cons_of_neg]
      simpa using ⟨n, hn, hname⟩
    | INSERT name' =>
      obtain rfl : name' = name := hfit
      obtain ⟨hfirst, hrest⟩ := List.forall_mem_cons.mp hunknown
      rw [inserts, ih hrest, unknownNames, unknownNames, List.map_cons,
        List.filter_cons_of_pos]
      simpa using hfirst

-- What an accepted call has done: the row of the media, the names that were not there, and a link
-- for every name, between the numbers as they were read back.
structure Added (info : MediaInfo) (t t' : Media) (rows : List MediaMapRow) : Prop where
  mediaids : t'.mediaids.rows = t.mediaids.rows ++ [t.newMedia info]
  medianame : t'.medianame.rows = t.medianame.rows ++ t.newNames info.names
  mediamap : t'.mediamap.rows = t.mediamap.rows ++ rows
  linked : List.Forall₂ (fun r name => ∃ n ∈ t'.medianame.rows, n.name = Bytes.cstr name ∧
    r.medianameid = toInt32 n.id ∧ r.mediaid = toInt32 (t.newMedia info).id ∧
      r.mediatype = info.mediaType.toNumber) rows info.names

section Links

variable {c c' : Conn} {t : Media} {info : MediaInfo} {updates : List UpdateInfo}

-- The tables once the media has its row.
structure Opened (t : Media) (info : MediaInfo) (c : Conn) : Prop where
  unused : ∀ r ∈ t.mediaids.rows, r.mediauniqueid ≠ info.mediaUniqueId.cstr
  data : c.tables.media.data = { t.data with
    mediaids := t.mediaids.rows ++ [t.newMedia info]
    mediaidsSeq := t.mediaidsSeq + 1 }

theorem Opened.medianame (h : Opened t info c) :
    c.tables.media.medianame.rows = t.medianame.rows := congrArg Media.Data.medianame h.data

theorem Opened.seq (h : Opened t info c) : c.tables.media.medianameSeq = t.medianameSeq :=
  congrArg Media.Data.medianameSeq h.data

-- The media is found again under the number that it got.
theorem linkNames_iff (hopened : Opened t info c) :
    linkNames info updates c = (.OK, c') ↔ ∃ ids c₁, insertNames updates c = (some ids, c₁) ∧
      c₁.QuietFor 2 ∧ insertMaps (toInt32 (t.newMedia info).id) info.mediaType ids (c₁.after 2) =
        (true, c') := by
  unfold linkNames
  have hsame := @mediaids_insertNames c updates
  cases hinserted : insertNames updates c with
  | mk ids c₁ =>
    rw [hinserted] at hsame
    have hold : (t.mediaids.rows.filter fun r =>
        r.mediauniqueid = info.mediaUniqueId.cstr) = [] := by
      rw [List.filter_eq_nil_iff]
      exact fun r hr huid => hopened.unused r hr (of_decide_eq_true huid)
    have heval : Script.findMediaId.eval ([.text info.mediaUniqueId].map Helper.bound)
        c₁.tables = .ok (.rows [[.int (t.newMedia info).id]]) := by
      rw [eval_findMediaId, hsame, show c.tables.media.mediaids.rows = _ from
        congrArg Media.Data.mediaids hopened.data, List.filter_append, hold, List.nil_append,
        List.filter_cons_of_pos (by simp [Media.newMedia])]
      rfl
    have hnumber : Row.getInt [.int (t.newMedia info).id] 0 = toInt32 (t.newMedia info).id := rfl
    cases ids with
    | none => simp
    | some ids =>
      simp only [Prod.mk.injEq, Option.some.injEq, ↓existsAndEq, and_true, exists_eq_left']
      constructor
      · intro h
        cases hfound : firstRow .findMediaId [.text info.mediaUniqueId] c₁ with
        | mk row c₂ =>
          rw [hfound] at h
          rcases row with _ | _ | row
          · cases h
          · cases h
          · obtain ⟨hquiet, rfl, rfl⟩ := (firstRow_only heval).mp hfound
            refine ⟨hquiet, ?_⟩
            simp only [hnumber] at h
            generalize insertMaps _ info.mediaType ids (c₁.after 2) = mapped at h ⊢
            obtain ⟨_ | _, c₃⟩ := mapped
            · cases h
            · rw [(Prod.mk.inj h).2]
      · rintro ⟨hquiet, hmapped⟩
        rw [(firstRow_only heval).mpr ⟨hquiet, rfl, rfl⟩]
        simp only [hnumber, hmapped]

-- The links can be made when every number is, as it is read back, that of a row.
theorem linkable_iff {t : Media} {names : List Bytes} {ids : List ℤ} {mediaIdIndex : ℤ}
    (hsome : names ≠ []) (hids : List.Forall₂ (fun id name => ∃ n ∈ t.medianame.rows,
      n.name = Bytes.cstr name ∧ id = toInt32 n.id) ids names) :
    Linkable t mediaIdIndex ids ↔ (∃ m ∈ t.mediaids.rows, m.id = mediaIdIndex) ∧
      (∀ n ∈ t.medianame.rows, n.name ∈ names.map Bytes.cstr →
        ∃ n' ∈ t.medianame.rows, n'.id = toInt32 n.id) ∧
      ∀ i < names.length, t.mediamapSeq + i < Media.maxId := by
  have hlength := hids.length_eq
  constructor
  · rintro ⟨hmedia, hnames, hnumbers⟩
    refine ⟨hmedia ?_, fun n hn hname => ?_, hlength ▸ hnumbers⟩
    · rintro rfl
      exact hsome (List.length_eq_zero_iff.mp hlength.symm)
    · obtain ⟨name, hname, heq⟩ := List.mem_map.mp hname
      obtain ⟨id, hid, n', hn', hname', rfl⟩ := exists_of_forall₂_right hids hname
      have hsame : n' = n := by
        apply @Table.row_eq_of_entry _ _ _ t.medianame _ _ (.text n.name) hn' hn
        · simp [MediaNameRow.entries, hname', heq]
        · simp [MediaNameRow.entries]
      exact hsame ▸ hnames _ hid
  · rintro ⟨hmedia, hnames, hnumbers⟩
    refine ⟨fun _ => hmedia, fun id hid => ?_, hlength ▸ hnumbers⟩
    obtain ⟨name, hname, n, hn, heq, rfl⟩ := exists_of_forall₂_left hids hid
    exact hnames n hn (List.mem_map.mpr ⟨name, hname, heq.symm⟩)

end Links

section Accepts

variable (info : MediaInfo) (t : Media)

-- Nothing in the tables makes an insertion fail before the links are made.
structure Reaches : Prop where
  some : info.names ≠ []
  unused : ∀ r ∈ t.mediaids.rows, r.mediauniqueid ≠ info.mediaUniqueId.cstr
  distinct : (unknownNames t.medianame.rows info.names).Nodup

-- Every number of the call, as it is read back, is that of a row, and there are numbers for the
-- links.
structure Joins : Prop where
  media : ∃ m ∈ t.mediaids.rows ++ [t.newMedia info], m.id = toInt32 (t.newMedia info).id
  names : ∀ n ∈ t.medianame.rows ++ t.newNames info.names, n.name ∈ info.names.map Bytes.cstr →
    ∃ n' ∈ t.medianame.rows ++ t.newNames info.names, n'.id = toInt32 n.id
  numbers : ∀ i < info.names.length, t.mediamapSeq + i < Media.maxId

-- How many calls of the library store the names and their links.
def storeCalls : ℕ :=
  4 * (unknownNames t.medianame.rows info.names).length + 2 + 2 * info.names.length

end Accepts

section Accepted

variable {c c' : Conn} {t : Media} {info : MediaInfo} {updates : List UpdateInfo}

theorem Opened.grown (hopened : Opened t info c) {names : List Bytes} {t' : Media}
    (hdata : t'.data = { c.tables.media.data with
      medianame := c.tables.media.medianame.rows ++ numbered c.tables.media.medianameSeq names
      medianameSeq := c.tables.media.medianameSeq + names.length }) :
    t'.mediaids.rows = t.mediaids.rows ++ [t.newMedia info] ∧
      t'.medianame.rows = t.medianame.rows ++ numbered t.medianameSeq names ∧
      t'.mediamap.rows = t.mediamap.rows ∧ t'.mediamapSeq = t.mediamapSeq := by
  refine ⟨?_, ?_, ?_, ?_⟩
  · exact (congrArg Media.Data.mediaids hdata).trans (congrArg Media.Data.mediaids hopened.data)
  · rw [← hopened.medianame, ← hopened.seq]
    exact congrArg Media.Data.medianame hdata
  · exact (congrArg Media.Data.mediamap hdata).trans (congrArg Media.Data.mediamap hopened.data)
  · exact (congrArg Media.Data.mediamapSeq hdata).trans
      (congrArg Media.Data.mediamapSeq hopened.data)

theorem exists_linkNames (hopened : Opened t info c) (hsome : info.names ≠ [])
    (hplanned : List.Forall₂ (Planned c.tables.media.medianame.rows) updates info.names)
    (hinserts : inserts updates = unknownNames t.medianame.rows info.names) :
    (∃ c', linkNames info updates c = (.OK, c')) ↔
      c.QuietFor (storeCalls info t) ∧ Storable c.tables.media (inserts updates) ∧
        Joins info t := by
  simp only [linkNames_iff hopened]
  rw [storeCalls, ← hinserts, Nat.add_assoc, Conn.quietFor_add]
  have hrest : ∀ ids c₁, insertNames updates c = (some ids, c₁) →
      ((c.after (4 * (inserts updates).length)).QuietFor (2 + 2 * info.names.length) ↔
        c₁.QuietFor 2 ∧ (c₁.after 2).QuietFor (2 * ids.length)) ∧
      (Joins info t ↔
        Linkable (c₁.after 2).tables.media (toInt32 (t.newMedia info).id) ids) := by
    intro ids c₁ hinserted
    obtain ⟨hlater, hdata, hids⟩ := of_insertNames hplanned (fun _ hn => hn) hinserted
    obtain ⟨hmediaids, hmedianame, -, hseq⟩ := hopened.grown hdata
    refine ⟨by rw [← hlater.quietFor, Conn.quietFor_add, hids.length_eq], ?_⟩
    have hlinkable := @linkable_iff c₁.tables.media _ _ (toInt32 (t.newMedia info).id) hsome hids
    rw [hmediaids, hmedianame, hseq, hinserts] at hlinkable
    refine Iff.trans ?_ hlinkable.symm
    exact ⟨fun h => ⟨h.media, h.names, h.numbers⟩, fun h => ⟨h.1, h.2.1, h.2.2⟩⟩
  constructor
  · rintro ⟨c', ids, c₁, hinserted, hquiet, hmapped⟩
    obtain ⟨hfirst, hstorable⟩ := insertNames_iff.mp ⟨ids, c₁, hinserted⟩
    obtain ⟨hlast, hlinkable⟩ := insertMaps_iff.mp ⟨c', hmapped⟩
    obtain ⟨hcalls, hjoins⟩ := hrest ids c₁ hinserted
    exact ⟨⟨hfirst, hcalls.mpr ⟨hquiet, hlast⟩⟩, hstorable, hjoins.mpr hlinkable⟩
  · rintro ⟨⟨hfirst, hlater⟩, hstorable, hjoins⟩
    obtain ⟨ids, c₁, hinserted⟩ := insertNames_iff.mpr ⟨hfirst, hstorable⟩
    obtain ⟨hcalls, hlinkable⟩ := hrest ids c₁ hinserted
    obtain ⟨hquiet, hlast⟩ := hcalls.mp hlater
    obtain ⟨c', hmapped⟩ := (@insertMaps_iff (c₁.after 2) _ info.mediaType ids).mpr
      ⟨hlast, hlinkable.mp hjoins⟩
    exact ⟨c', ids, c₁, hinserted, hquiet, hmapped⟩

theorem added_of_linkNames (hopened : Opened t info c)
    (hplanned : List.Forall₂ (Planned c.tables.media.medianame.rows) updates info.names)
    (hinserts : inserts updates = unknownNames t.medianame.rows info.names)
    (h : linkNames info updates c = (.OK, c')) :
    c.Later (storeCalls info t) c' ∧ ∃ rows, Added info t c'.tables.media rows := by
  obtain ⟨ids, c₁, hinserted, -, hmapped⟩ := (linkNames_iff hopened).mp h
  obtain ⟨hlater, hdata, hids⟩ := of_insertNames hplanned (fun _ hn => hn) hinserted
  obtain ⟨hmediaids, hmedianame, hmediamap, -⟩ := hopened.grown hdata
  obtain ⟨hlast, rows, hdata', hrows⟩ := of_insertMaps hmapped
  have hnames : c'.tables.media.medianame.rows = c₁.tables.media.medianame.rows :=
    congrArg Media.Data.medianame hdata'
  refine ⟨⟨hlast.faults.trans hlater.faults, hlast.calls.trans ?_, hlast.saved.trans hlater.saved⟩,
    rows, (congrArg Media.Data.mediaids hdata').trans hmediaids, ?_,
    (congrArg Media.Data.mediamap hdata').trans ?_, ?_⟩
  · show c₁.calls + 2 + 2 * ids.length = c.calls + storeCalls info t
    rw [hlater.calls, hids.length_eq, hinserts, storeCalls]
    omega
  · rw [hnames, hmedianame, hinserts, Media.newNames]
  · show c₁.tables.media.mediamap.rows ++ rows = _
    rw [hmediamap]
  · rw [hnames]
    refine (forall₂_comp hrows hids).imp ?_
    rintro r name ⟨id, ⟨hid, hmedia, htype⟩, n, hn, hname, rfl⟩
    exact ⟨n, hn, hname, hid, hmedia, htype⟩

-- An accepted call went on in the transaction in which it began.
theorem addMediaRows_iff (hsaved : c.saved = some c.tables) :
    addMediaRows info c = (.OK, c') ↔ c.QuietFor 2 ∧ ∃ media updates,
      c.tables.media.insertMediaId info.mediaUniqueId.cstr info.mediaId.cstr = some media ∧
      KeepsTransaction info.names (c.stored media) ∧
      findNames info.names (c.stored media) =
        (some updates, (c.stored media).after (2 * info.names.length)) ∧
      linkNames info updates ((c.stored media).after (2 * info.names.length)) = (.OK, c') := by
  constructor
  · intro h
    obtain ⟨hrefused, -⟩ | ⟨media, hmedia, hprepare, hstep, ⟨-, hrows⟩ |
      ⟨updates, c₂, hfound, hrows⟩⟩ := addMediaRows_cases info c
    · rw [h] at hrefused
      exact absurd rfl hrefused
    · rw [h] at hrows
      cases hrows
    · rw [h] at hrows
      refine ⟨c.quietFor_two.mpr ⟨hprepare, hstep⟩, media, updates, hmedia, ?_⟩
      obtain ⟨n, ⟨-, hnone | hkeeps⟩ | hgone⟩ := findNames_conn info.names (c.stored media)
      · rw [hfound] at hnone
        cases hnone
      · obtain ⟨rfl, -⟩ := findNames_of_keeps hkeeps hfound
        exact ⟨hkeeps, hfound, hrows.symm⟩
      · -- without the row of the media there is nothing to link
        refine absurd (congrArg Prod.fst hrows.symm) (linkNames_unused ?_ updates)
        rw [hfound] at hgone
        obtain rfl : c₂ = _ := hgone
        have htables : ((rollback (c.stored media)).after n).tables = c.tables :=
          congrArg (Option.getD · _) hsaved
        rw [htables]
        exact (Media.of_insertMediaId hmedia).1
  · rintro ⟨hquiet, media, updates, hmedia, -, hfound, h⟩
    rw [addMediaRows, (execute_inserted (eval_insertMediaId c.tables info.mediaUniqueId
      info.mediaId)).mpr ⟨hquiet, media, hmedia, rfl⟩]
    simp only [hfound]
    exact h

theorem opened_stored {media : Media} (n : ℕ)
    (hmedia : c.tables.media.insertMediaId info.mediaUniqueId.cstr info.mediaId.cstr = some media) :
    Opened c.tables.media info ((c.stored media).after n) :=
  ⟨(Media.of_insertMediaId hmedia).1, (Media.of_insertMediaId hmedia).2⟩

-- The tables and the outcomes with which the part between `BEGIN IMMEDIATE` and `COMMIT` is done.
structure AcceptsRows (info : MediaInfo) (c : Conn) : Prop where
  reaches : Reaches info c.tables.media
  mediaNumber : c.tables.media.mediaidsSeq < Media.maxId
  nameNumbers : ∀ i < (unknownNames c.tables.media.medianame.rows info.names).length,
    c.tables.media.medianameSeq + i < Media.maxId
  joins : Joins info c.tables.media
  inserted : c.QuietFor 2
  lookups : LookupsPass c.tables.media.medianame.rows c.faults info.names (c.calls + 2)
  stored : (c.after (2 + 2 * info.names.length)).QuietFor (storeCalls info c.tables.media)

theorem storable_unknownNames {names : List Bytes} :
    Storable t (unknownNames t.medianame.rows names) ↔
      (unknownNames t.medianame.rows names).Nodup ∧
        ∀ i < (unknownNames t.medianame.rows names).length, t.medianameSeq + i < Media.maxId := by
  refine ⟨fun h => ⟨h.distinct, h.numbers⟩, fun ⟨hdistinct, hnumbers⟩ =>
    ⟨hdistinct, fun name hname n hn heq => ?_, hnumbers⟩⟩
  have hnew := of_decide_eq_true (List.mem_filter.mp hname).2
  exact hnew (List.mem_map.mpr ⟨n, hn, heq⟩)

theorem Opened.storable (hopened : Opened t info c) {names : List Bytes} :
    Storable c.tables.media names ↔ Storable t names := by
  constructor <;>
  · rintro ⟨hdistinct, hunknown, hnumbers⟩
    refine ⟨hdistinct, ?_, ?_⟩
    · simpa only [hopened.medianame] using hunknown
    · simpa only [hopened.seq] using hnumbers

theorem addMediaRows_ok (hsaved : c.saved = some c.tables) (hsome : info.names ≠ [])
    (h : addMediaRows info c = (.OK, c')) :
    AcceptsRows info c ∧
      c.Later (2 + 2 * info.names.length + storeCalls info c.tables.media) c' ∧
      ∃ rows, Added info c.tables.media c'.tables.media rows := by
  obtain ⟨hquiet, media, updates, hmedia, hkeeps, hfound, hlinked⟩ :=
    (addMediaRows_iff hsaved).mp h
  have hopened := opened_stored (2 * info.names.length) hmedia
  obtain ⟨hnumber, hunused⟩ := Media.insertMediaId_iff.mp ⟨media, hmedia⟩
  obtain ⟨-, hplanned⟩ := findNames_of_keeps hkeeps hfound
  have hmedianame : media.medianame.rows = c.tables.media.medianame.rows := hopened.medianame
  obtain ⟨ids, c₁, hinserted, -⟩ := (linkNames_iff hopened).mp hlinked
  have hunknown := (insertNames_iff.mp ⟨ids, c₁, hinserted⟩).2.unknown
  have hinserts := inserts_eq hplanned hunknown
  change inserts updates = unknownNames media.medianame.rows info.names at hinserts
  rw [hmedianame] at hinserts
  obtain ⟨hstored, hstorable, hjoins⟩ :=
    (exists_linkNames hopened hsome hplanned hinserts).mp ⟨c', hlinked⟩
  obtain ⟨hlater, hadded⟩ := added_of_linkNames hopened hplanned hinserts hlinked
  rw [hopened.storable, hinserts, storable_unknownNames] at hstorable
  have hlookups := (lookupsPass_iff hkeeps hfound).mpr hunknown
  change LookupsPass media.medianame.rows c.faults info.names (c.calls + 2) at hlookups
  rw [hmedianame] at hlookups
  refine ⟨⟨⟨hsome, hunused, hstorable.1⟩, hnumber, hstorable.2, hjoins, hquiet, hlookups, ?_⟩,
    ⟨hlater.faults, hlater.calls.trans ?_, hlater.saved⟩, hadded⟩
  · rw [← Conn.after_after]
    exact hstored
  · show c.calls + 2 + 2 * info.names.length + _ = c.calls + (2 + 2 * info.names.length + _)
    omega

theorem exists_addMediaRows (hsaved : c.saved = some c.tables) (h : AcceptsRows info c) :
    ∃ c', addMediaRows info c = (.OK, c') := by
  obtain ⟨media, hmedia⟩ := Media.insertMediaId_iff.mpr ⟨h.mediaNumber, h.reaches.unused⟩
  have hopened := opened_stored (2 * info.names.length) hmedia
  have hmedianame : media.medianame.rows = c.tables.media.medianame.rows := hopened.medianame
  have hlookups : LookupsPass (c.stored media).tables.media.medianame.rows
      (c.stored media).faults info.names (c.stored media).calls := by
    rw [show (c.stored media).tables.media.medianame.rows = _ from hmedianame]
    exact h.lookups
  obtain ⟨hkeeps, updates, c₂, hfound⟩ := exists_findNames hlookups
  have hunknown := (lookupsPass_iff hkeeps hfound).mp hlookups
  obtain ⟨rfl, hplanned⟩ := findNames_of_keeps hkeeps hfound
  have hinserts := inserts_eq hplanned hunknown
  rw [show (c.stored media).tables.media.medianame.rows = _ from hmedianame] at hinserts
  have hstored := h.stored
  rw [← Conn.after_after] at hstored
  obtain ⟨c', hlinked⟩ := (exists_linkNames hopened h.reaches.some hplanned hinserts).mpr
    ⟨hstored, hopened.storable.mpr (hinserts ▸
      storable_unknownNames.mpr ⟨h.reaches.distinct, h.nameNumbers⟩), h.joins⟩
  exact ⟨c', (addMediaRows_iff hsaved).mpr
    ⟨h.inserted, media, updates, hmedia, hkeeps, hfound, hlinked⟩⟩

end Accepted

-- The tables, the names and the outcomes with which a media is accepted.
structure Accepts (info : MediaInfo) (c : Conn) : Prop where
  closed : c.saved = none
  begun : c.fault = none
  rows : AcceptsRows info c.tick
  committed :
    (c.after (3 + 2 * info.names.length + storeCalls info c.tables.media)).fault = none

section Call

variable {c c' : Conn} {info : MediaInfo}

theorem addMediaInfo_ok (h : addMediaInfo info c = (.OK, c')) :
    Accepts info c ∧ c'.saved = none ∧ c'.faults = c.faults ∧
      ∃ rows, Added info c.tables.media c'.tables.media rows := by
  unfold addMediaInfo at h
  by_cases hnames : info.names = []
  · rw [if_pos hnames] at h
    cases h
  · rw [if_neg hnames] at h
    by_cases hrefused : c.fault.isSome ∨ c.saved.isSome
    · rw [show beginImmediate c = (false, c.tick) from if_pos hrefused] at h
      cases h
    · rw [show beginImmediate c = (true, { c.tick with saved := some c.tables }) from
        if_neg hrefused] at h
      simp only [not_or, Option.not_isSome_iff_eq_none] at hrefused
      simp only at h
      cases hrows : addMediaRows info { c.tick with saved := some c.tables } with
      | mk result c₁ =>
        rw [hrows] at h
        cases result with
        | ALREADY_EXISTS | BACKEND_ERROR => cases h
        | OK =>
          obtain ⟨haccepts, hlater, hadded⟩ := addMediaRows_ok rfl hnames hrows
          simp only at h
          by_cases hfailed : c₁.fault.isSome ∨ c₁.saved.isNone
          · rw [show commit c₁ = (false, c₁.tick) from if_pos hfailed] at h
            cases h
          · rw [show commit c₁ = (true, { c₁.tick with saved := none }) from
              if_neg hfailed] at h
            obtain ⟨-, rfl⟩ := Prod.mk.inj h
            rw [not_or, Option.not_isSome_iff_eq_none, Conn.fault, hlater.faults,
              hlater.calls] at hfailed
            refine ⟨⟨hrefused.2, hrefused.1, ⟨haccepts.reaches, haccepts.mediaNumber,
              haccepts.nameNumbers, haccepts.joins, haccepts.inserted, haccepts.lookups,
              haccepts.stored⟩, ?_⟩, rfl, hlater.faults, hadded⟩
            rw [← hfailed.1]
            show c.faults _ = c.faults (c.calls + 1 + _)
            congr 1
            simp only [Conn.after, Conn.tick]
            omega

theorem addMediaInfo_iff : (addMediaInfo info c).1 = .OK ↔ Accepts info c := by
  refine ⟨fun h => (addMediaInfo_ok (Prod.ext h rfl)).1, fun h => ?_⟩
  obtain ⟨c₁, hrows⟩ :=
    @exists_addMediaRows { c.tick with saved := some c.tables } info rfl
      ⟨h.rows.reaches, h.rows.mediaNumber, h.rows.nameNumbers, h.rows.joins, h.rows.inserted,
        h.rows.lookups, h.rows.stored⟩
  obtain ⟨-, hlater, -⟩ := addMediaRows_ok rfl h.rows.reaches.some hrows
  have hcommitted : c₁.fault = none := by
    rw [Conn.fault, hlater.faults, hlater.calls, ← h.committed]
    show c.faults (c.calls + 1 + _) = c.faults _
    congr 1
    simp only [Conn.after, Conn.tick]
    omega
  have hopen : c₁.saved = some c.tables := hlater.saved
  simp only [addMediaInfo, if_neg h.rows.reaches.some, beginImmediate, h.begun, h.closed, hrows,
    commit, hcommitted, hopen, Option.isSome_none, Option.isNone_some, Bool.false_eq_true,
    or_self, if_false]

-- Whatever fails, a refused call leaves nothing.
theorem addMediaInfo_refused (hsaved : c.saved = none)
    (hkeeps : c.fault = none → LookupsKeep info c.tick) (h : (addMediaInfo info c).1 ≠ .OK) :
    (addMediaInfo info c).2.saved = none ∧ (addMediaInfo info c).2.tables = c.tables := by
  unfold addMediaInfo at h ⊢
  by_cases hnames : info.names = []
  · rw [if_pos hnames]
    exact ⟨hsaved, rfl⟩
  · rw [if_neg hnames] at h ⊢
    by_cases hrefused : c.fault.isSome ∨ c.saved.isSome
    · rw [show beginImmediate c = (false, c.tick) from if_pos hrefused]
      exact ⟨hsaved, rfl⟩
    · rw [show beginImmediate c = (true, { c.tick with saved := some c.tables }) from
        if_neg hrefused] at h ⊢
      have hkeeps : LookupsKeep info { c.tick with saved := some c.tables } :=
        hkeeps (by simpa using (not_or.mp hrefused).1)
      have hrolled := tables_rollback_addMediaRows (c := { c.tick with saved := some c.tables })
        rfl hkeeps
      simp only at h ⊢
      cases hrows : addMediaRows info { c.tick with saved := some c.tables } with
      | mk result c₁ =>
        rw [hrows] at h hrolled
        cases result with
        | OK =>
          simp only at h ⊢
          by_cases hfailed : c₁.fault.isSome ∨ c₁.saved.isNone
          · rw [show commit c₁ = (false, c₁.tick) from if_pos hfailed]
            exact ⟨rfl, hrolled⟩
          · rw [show commit c₁ = (true, { c₁.tick with saved := none }) from
              if_neg hfailed] at h
            exact absurd rfl h
        | ALREADY_EXISTS | BACKEND_ERROR => exact ⟨rfl, hrolled⟩

end Call

section Guard

variable (info : MediaInfo) (t : Media)

-- The numbers that the names not yet in the table would get.
def IsNew (k : ℤ) : Prop :=
  t.medianameSeq < k ∧
    k ≤ (t.medianameSeq + (unknownNames t.medianame.rows info.names).length : ℕ)

def Known (k : ℤ) : Prop := (∃ n ∈ t.medianame.rows, n.id = k) ∨ IsNew info t k

-- The numbers of the names of the call.
def Used (k : ℤ) : Prop :=
  (∃ n ∈ t.medianame.rows, n.id = k ∧ n.name ∈ info.names.map Bytes.cstr) ∨ IsNew info t k

-- The texts are stored as they are, and no number read back as an `int` is that of another row.
structure Intact : Prop where
  uniqueId : info.mediaUniqueId.NulFree
  mediaId : info.mediaId.NulFree
  names : ∀ name ∈ info.names, name.NulFree
  mediaNumber : ∀ m ∈ t.mediaids.rows, m.id ≠ toInt32 (t.mediaidsSeq + 1)
  nameNumbers : ∀ k, Used info t k → Known info t (toInt32 k) → toInt32 k = k

variable {info t} {t' : Media} {k : ℤ} {rows : List MediaMapRow}

theorem numbered_range {seq : ℕ} {names : List Bytes} {n : MediaNameRow}
    (hn : n ∈ numbered seq names) : seq < n.id ∧ n.id ≤ (seq + names.length : ℕ) := by
  induction names generalizing seq with
  | nil => cases hn
  | cons name rest ih =>
    rw [List.length_cons]
    rcases List.mem_cons.mp hn with rfl | hn
    · simp only
      omega
    · have hrest := ih hn
      omega

-- The number of a name of the call, old or new.
theorem used_of_mem {n : MediaNameRow} (hn : n ∈ t.medianame.rows ++ t.newNames info.names)
    (hname : n.name ∈ info.names.map Bytes.cstr) : Used info t n.id :=
  (List.mem_append.mp hn).imp (fun hold => ⟨n, hold, rfl, hname⟩) numbered_range

-- As long as the numbers are small, only the texts matter.
theorem toInt32_of_used (hroom : t.Room info.names.length) (hused : Used info t k) :
    toInt32 k = k := by
  have hnameseq := hroom.medianame
  have hunknown : (unknownNames t.medianame.rows info.names).length ≤ info.names.length :=
    (List.length_filter_le _ _).trans (List.length_map _).le
  have hrange : 0 < k ∧ k ≤ (t.medianameSeq + info.names.length : ℕ) := by
    obtain ⟨n, hn, rfl, -⟩ | hnew := hused
    · have hrange := t.medianame_le n hn
      omega
    · unfold IsNew at hnew
      omega
  apply toInt32_of_range <;> omega

theorem intact_of_room (hroom : t.Room info.names.length) (huid : info.mediaUniqueId.NulFree)
    (hid : info.mediaId.NulFree) (hnames : ∀ name ∈ info.names, name.NulFree) :
    Intact info t := by
  have hmediaseq := hroom.mediaids
  refine ⟨huid, hid, hnames, fun m hm => ?_, fun k hused _ => toInt32_of_used hroom hused⟩
  have hrange := t.mediaids_le m hm
  rw [toInt32_of_range (by omega) (by omega)]
  omega

-- Every link is made between the rows that it was meant for.
theorem Added.linked_rows (h : Added info t t' rows) (hintact : Intact info t) :
    List.Forall₂ (fun r name => ⟨r.medianameid, name⟩ ∈ t'.medianame.rows ∧
      r.mediaid = (t.newMedia info).id ∧ r.mediatype = info.mediaType.toNumber) rows info.names := by
  refine forall₂_imp_of_mem h.linked ?_
  rintro r hr name hname ⟨n, hn, heq, hid, hmedia, htype⟩
  have hrow : r ∈ t'.mediamap.rows := by
    rw [h.mediamap]
    exact List.mem_append_right _ hr
  refine ⟨?_, ?_, htype⟩
  · obtain ⟨n', hn', hid'⟩ := t'.name_key r hrow
    rw [h.medianame] at hn' hn
    have hknown : Known info t (toInt32 n.id) := by
      rw [← hid, ← hid']
      exact (List.mem_append.mp hn').imp (fun hold => ⟨n', hold, rfl⟩) numbered_range
    have hused := used_of_mem hn (heq ▸ List.mem_map_of_mem hname)
    rw [hid, hintact.nameNumbers n.id hused hknown, ← Bytes.cstr_of_nulFree
      (hintact.names name hname), ← heq, h.medianame]
    exact hn
  · obtain ⟨m, hm, hid⟩ := t'.media_key r hrow
    rw [h.mediaids, List.mem_append, List.mem_singleton] at hm
    rcases hm with hold | rfl
    · exact absurd (hid.trans hmedia) (hintact.mediaNumber m hold)
    · exact hid.symm

theorem Added.shelved (h : Added info t t' rows) (hintact : Intact info t)
    (hunused : ∀ r ∈ t.mediaids.rows, r.mediauniqueid ≠ info.mediaUniqueId.cstr) :
    ∃ links, Shelved t t' info (t.newMedia info) links := by
  have hm : t.newMedia info ∈ t'.mediaids.rows := by
    rw [h.mediaids]
    exact List.mem_append_right _ (List.mem_singleton.mpr rfl)
  obtain ⟨links, hresolved, hown, hnames⟩ := @exists_links t'.data _ _ _ _ hm (h.linked_rows hintact)
  have hold : List.Forall₂ (Media.Resolves t'.data) t.mediamap.rows t.joined := by
    refine t.resolves_joined.imp ?_
    intro r j hj
    refine ⟨hj.row, ⟨?_, hj.name.2⟩, ⟨?_, hj.media.2⟩⟩
    · show j.2.1 ∈ t'.medianame.rows
      rw [h.medianame]
      exact List.mem_append_left _ hj.name.1
    · show j.2.2 ∈ t'.mediaids.rows
      rw [h.mediaids]
      exact List.mem_append_left _ hj.media.1
  refine ⟨links, fun hm => hunused _ hm rfl, Bytes.cstr_of_nulFree hintact.uniqueId,
    Bytes.cstr_of_nulFree hintact.mediaId, h.mediaids, ?_, hown, hnames⟩
  apply Media.joined_eq
  rw [h.mediamap]
  exact List.rel_append hold hresolved

end Guard

section Quiet

variable {c : Conn} {info : MediaInfo}

theorem lookupsPass_quiet (h : c.Quiet) (known : List MediaNameRow) (names : List Bytes) (n : ℕ) :
    LookupsPass known c.faults names n := by
  induction names generalizing n with
  | nil => trivial
  | cons name rest ih =>
    refine ⟨h n, fun code hcode => ?_, ih (n + 2)⟩
    cases (h (n + 1)).symm.trans hcode

theorem addMediaInfo_quiet (h : c.Quiet) (hsaved : c.saved = none)
    (hroom : c.tables.media.Room info.names.length) (hsome : info.names ≠ [])
    (huid : info.mediaUniqueId.NulFree) (hid : info.mediaId.NulFree)
    (hnames : ∀ name ∈ info.names, name.NulFree) (hdistinct : info.names.Nodup)
    (hnew : ∀ r ∈ c.tables.media.mediaids.rows, r.mediauniqueid ≠ info.mediaUniqueId) :
    ∃ c' m links, addMediaInfo info c = (.OK, c') ∧ c'.Quiet ∧ c'.saved = none ∧
      Shelved c.tables.media c'.tables.media info m links := by
  have hmediaseq := hroom.mediaids
  have hnameseq := hroom.medianame
  have hmapseq := hroom.mediamap
  have hcstr : info.names.map Bytes.cstr = info.names := by
    refine (List.map_congr_left fun name hname => ?_).trans (List.map_id _)
    exact Bytes.cstr_of_nulFree (hnames name hname)
  have hunknown : (unknownNames c.tables.media.medianame.rows info.names).length ≤
      info.names.length := (List.length_filter_le _ _).trans (List.length_map _).le
  have hread : toInt32 (c.tables.media.newMedia info).id = (c.tables.media.newMedia info).id := by
    show toInt32 (c.tables.media.mediaidsSeq + 1) = c.tables.media.mediaidsSeq + 1
    apply toInt32_of_range <;> omega
  have haccepts : Accepts info c := by
    refine ⟨hsaved, h _, ⟨⟨hsome, ?_, ?_⟩, ?_, fun i hi => ?_, ⟨?_, fun n hn hname => ?_,
      fun i hi => ?_⟩, fun _ _ => h _, lookupsPass_quiet h _ _ _, fun _ _ => h _⟩, h _⟩
    · rwa [Bytes.cstr_of_nulFree huid]
    · rw [unknownNames, hcstr]
      exact hdistinct.filter _
    · unfold Media.maxId
      simp only [Conn.tick, Conn.after]
      omega
    · unfold Media.maxId
      simp only [Conn.tick, Conn.after] at hi ⊢
      omega
    · exact ⟨_, List.mem_append_right _ List.mem_cons_self, hread.symm⟩
    · exact ⟨n, hn, (toInt32_of_used hroom (used_of_mem hn hname)).symm⟩
    · simp only [Conn.tick, Conn.after]
      omega
  obtain ⟨-, hclosed, hfaults, rows, hadded⟩ :=
    addMediaInfo_ok (Prod.ext (addMediaInfo_iff.mpr haccepts) rfl)
  obtain ⟨links, hshelved⟩ :=
    hadded.shelved (intact_of_room hroom huid hid hnames) haccepts.rows.reaches.unused
  refine ⟨_, _, links, Prod.ext (addMediaInfo_iff.mpr haccepts) rfl, fun n => ?_, hclosed, hshelved⟩
  rw [hfaults]
  exact h n

end Quiet

end Glider.Db.Sqlite

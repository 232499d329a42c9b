import Mathlib.Data.List.Induction
import Glider.Db.Sqlite.Insertions

namespace Glider.Db.Sqlite

open Glider.Lib

section Quiet

variable {c : Conn}

-- The numbers in use are still far from those that no longer fit an `int`.
structure Media.Room (t : Media) (n : ℕ) : Prop where
  mediaids : t.mediaidsSeq + 1 < 2 ^ 31
  medianame : t.medianameSeq + n < 2 ^ 31
  mediamap : t.mediamapSeq + n ≤ Media.maxId

-- One more media with its names, and everything else as before.
structure Shelved (t t' : Media) (info : MediaInfo) (m : MediaIdRow) (links : List Media.Link) :
    Prop where
  isNew : m ∉ t.mediaids.rows
  uniqueId : m.mediauniqueid = info.mediaUniqueId
  mediaId : m.mediaid = info.mediaId
  mediaids : t'.mediaids.rows = t.mediaids.rows ++ [m]
  joined : t'.joined = t.joined ++ links
  own : ∀ j ∈ links, j.2.2 = m
  names : (links.map fun j => (j.2.1.name, j.1.mediatype)) =
    info.names.map fun name => (name, info.mediaType.toNumber)

theorem exists_links {d : Media.Data} {m : MediaIdRow} {mediatype : ℤ} {rows : List MediaMapRow}
    {names : List Bytes} (hm : m ∈ d.mediaids)
    (hrows : List.Forall₂ (fun r name => ⟨r.medianameid, name⟩ ∈ d.medianame ∧ r.mediaid = m.id ∧
      r.mediatype = mediatype) rows names) :
    ∃ links, List.Forall₂ (Media.Resolves d) rows links ∧ (∀ j ∈ links, j.2.2 = m) ∧
      (links.map fun j => (j.2.1.name, j.1.mediatype)) =
        names.map fun name => (name, mediatype) := by
  induction hrows with
  | nil => exact ⟨[], .nil, fun _ h => absurd h List.not_mem_nil, rfl⟩
  | @cons r name rows names hr _ ih =>
    obtain ⟨links, hresolved, hown, hnames⟩ := ih
    obtain ⟨hname, hmedia, rfl⟩ := hr
    refine ⟨(r, ⟨r.medianameid, name⟩, m) :: links,
      .cons ⟨rfl, ⟨hname, rfl⟩, ⟨hm, hmedia⟩⟩ hresolved, ?_, ?_⟩
    · intro j hj
      rcases List.mem_cons.mp hj with rfl | hj
      · rfl
      · exact hown j hj
    · rw [List.map_cons, hnames, List.map_cons]

variable {info : MediaInfo}

theorem beginImmediate_quiet (h : c.Quiet) (hsaved : c.saved = none) :
    beginImmediate c = (true, { c.tick with saved := some c.tables }) := by
  simp only [beginImmediate, h.fault, hsaved, Option.isSome_none, Bool.false_eq_true, or_self,
    if_false]

-- The transaction is rolled back, and all is as before.
theorem addMediaInfo_known (h : c.Quiet) (hsaved : c.saved = none) (hsome : info.names ≠ [])
    (huid : info.mediaUniqueId.NulFree) {r : MediaIdRow}
    (hr : r ∈ c.tables.media.mediaids.rows) (hknown : r.mediauniqueid = info.mediaUniqueId) :
    ∃ c', addMediaInfo info c = (.ALREADY_EXISTS, c') ∧ c'.Quiet ∧ c'.saved = none ∧
      c'.tables = c.tables := by
  let opened : Conn := { c.tick with saved := some c.tables }
  have hbegin : beginImmediate c = (true, opened) := beginImmediate_quiet h hsaved
  have heval : Script.insertMediaId.eval
      ([.text info.mediaUniqueId, .text info.mediaId].map Helper.bound) opened.tables =
        .error SQLITE_CONSTRAINT := by
    have htaken : opened.tables.media.insertMediaId info.mediaUniqueId info.mediaId.cstr = none :=
      Media.insertMediaId_eq_none hr hknown
    rw [eval_insertMediaId, Bytes.cstr_of_nulFree huid, htaken]
    rfl
  have hopened : opened.Quiet := h
  refine ⟨rollback (opened.after 2), ?_, h, rfl, rfl⟩
  simp only [addMediaInfo, if_neg hsome, hbegin, addMediaRows, execute_quiet_error hopened heval]

theorem deleteMediaInfo_quiet (h : c.Quiet) (mediaId : Bytes) :
    deleteMediaInfo mediaId c =
      (decide (0 < (c.tables.media.mediaids.rows.filter fun r =>
        r.mediaid = mediaId.cstr).length),
        { c.after 2 with
          tables := { c.tables with media := c.tables.media.deleteMedia mediaId.cstr }
          changes := (c.tables.media.mediaids.rows.filter fun r =>
            r.mediaid = mediaId.cstr).length }) := by
  have heval : Script.deleteMedia.eval ([.text mediaId].map Helper.bound) c.tables =
      .ok (.changed { c.tables with media := c.tables.media.deleteMedia mediaId.cstr }
        (c.tables.media.mediaids.rows.filter fun r => r.mediaid = mediaId.cstr).length) := rfl
  simp only [deleteMediaInfo, execute_quiet h heval]

-- The links with a name, as the statements compare it.
def Media.named (t : Media) (name : Bytes) : List Media.Link :=
  t.joined.filter fun j => j.2.1.name = name

theorem queryMediaInfo_quiet (h : c.Quiet) (str : Bytes) :
    queryMediaInfo str c = ((c.planner.order (c.calls + 1)
      ((c.tables.media.named str.cstr).map fun j =>
        [.text j.2.2.mediaid, .text j.2.2.mediauniqueid, .int j.1.mediatype])).head?.map fun row =>
          ⟨Row.getString row 0, Row.getString row 1, [], .ofNumber (Row.getInt row 2)⟩,
      c.after 2) := by
  have heval : Script.findMediaInfo.eval ([.text str].map Helper.bound) c.tables =
      .ok (.rows ((c.tables.media.named str.cstr).map fun j =>
        [.text j.2.2.mediaid, .text j.2.2.mediauniqueid, .int j.1.mediatype])) := by
    simp only [Script.eval, List.map_cons, List.map_nil, Helper.bound, List.getD_cons_zero,
      Value.text.injEq, Media.named]
  rw [queryMediaInfo, firstRow_quiet h heval]
  cases (c.planner.order (c.calls + 1) _).head? <;> rfl

theorem getMediaIds_quiet (h : c.Quiet) (name : Bytes) :
    ∃ ids n, getMediaIds name c = (if ids = [] then none else some ids, c.after n) ∧
      ids.Perm ((c.tables.media.named name.cstr).map fun j => j.2.2.mediaid.cstr) := by
  have heval : Script.findMediaIdsByName.eval ([.text name].map Helper.bound) c.tables =
      .ok (.rows ((c.tables.media.named name.cstr).map fun j => [.text j.2.2.mediaid])) := by
    simp only [Script.eval, List.map_cons, List.map_nil, Helper.bound, List.getD_cons_zero,
      Value.text.injEq, Media.named]
  have hperm := (c.planner.perm (c.calls + 1)
    ((c.tables.media.named name.cstr).map fun j => [.text j.2.2.mediaid])).map
    fun row => Row.getString row 0
  rw [List.map_map] at hperm
  refine ⟨_, ((c.tables.media.named name.cstr).map fun j => [Value.text j.2.2.mediaid]).length + 2,
    ?_, hperm⟩
  rw [getMediaIds, allRows_of_rows h heval]
  cases c.planner.order (c.calls + 1) _ <;> rfl

def Media.Link.row (j : Media.Link) : Row :=
  [.text j.2.2.mediaid, .text j.2.2.mediauniqueid, .text j.2.1.name, .int j.1.mediatype]

theorem getAllMediaInfos_quiet (h : c.Quiet) :
    ∃ (rows : List Row) (n : ℕ), getAllMediaInfos c =
        (rows.foldl (fun map row => mergeRow row map) [], c.after n) ∧
      rows.Perm (c.tables.media.joined.map Media.Link.row) := by
  have heval : Script.findAllMediaMap.eval ([].map Helper.bound) c.tables =
      .ok (.rows (c.tables.media.joined.map Media.Link.row)) := rfl
  refine ⟨_, (c.tables.media.joined.map Media.Link.row).length + 2, ?_,
    c.planner.perm (c.calls + 1) _⟩
  rw [getAllMediaInfos, allRows_of_rows h heval]

end Quiet

section Merge

-- What the map is keyed by.
def key (info : MediaInfo) : Bytes × Bytes := (info.mediaId, info.mediaUniqueId)

def rowKey (row : Row) : Bytes × Bytes := (row.getString 0, row.getString 1)

theorem mergeRow_new {row : Row} {map : List MediaInfo} (h : rowKey row ∉ map.map key) :
    mergeRow row map = map ++
      [⟨row.getString 0, row.getString 1, [row.getString 2], .ofNumber (row.getInt 3)⟩] := by
  induction map with
  | nil => rfl
  | cons info rest ih =>
    rw [List.map_cons, List.mem_cons, not_or] at h
    have hne : ¬(info.mediaId = row.getString 0 ∧ info.mediaUniqueId = row.getString 1) := by
      rintro ⟨hid, huid⟩
      exact h.1 (Prod.ext hid.symm huid.symm)
    rw [mergeRow, if_neg hne, ih h.2, List.cons_append]

theorem mergeRow_known {row : Row} {map : List MediaInfo} (h : rowKey row ∈ map.map key) :
    ∃ before info after, map = before ++ info :: after ∧ key info = rowKey row ∧
      mergeRow row map = before ++ { info with
        names := info.names ++ [row.getString 2]
        mediaType := .ofNumber (row.getInt 3) } :: after := by
  induction map with
  | nil => cases h
  | cons info rest ih =>
    by_cases heq : info.mediaId = row.getString 0 ∧ info.mediaUniqueId = row.getString 1
    · refine ⟨[], info, rest, rfl, Prod.ext heq.1 heq.2, ?_⟩
      rw [mergeRow, if_pos heq]
      rfl
    · have hrest : rowKey row ∈ rest.map key := by
        refine (List.mem_cons.mp h).resolve_left fun hfirst => heq ?_
        exact ⟨(congrArg Prod.fst hfirst).symm, (congrArg Prod.snd hfirst).symm⟩
      obtain ⟨before, found, after, rfl, hkey, hmerge⟩ := ih hrest
      refine ⟨info :: before, found, after, rfl, hkey, ?_⟩
      rw [mergeRow, if_neg heq, hmerge, List.cons_append]

-- The map after the rows: one entry a key, with the names of its rows.
structure Merged (rows : List Row) (map : List MediaInfo) : Prop where
  keys : (map.map key).Nodup
  found : ∀ row ∈ rows, rowKey row ∈ map.map key
  names : ∀ info ∈ map, info.names =
    (rows.filter fun row => rowKey row = key info).map fun row => row.getString 2
  types : ∀ info ∈ map, ∃ row ∈ rows, rowKey row = key info ∧
    info.mediaType = .ofNumber (row.getInt 3)

-- An entry that the row is not for stays as it is.
theorem Merged.kept {rows : List Row} {map : List MediaInfo} (h : Merged rows map) {row : Row}
    {info : MediaInfo} (hinfo : info ∈ map) (hne : rowKey row ≠ key info) :
    (info.names = ((rows ++ [row]).filter fun row => rowKey row = key info).map fun row =>
      row.getString 2) ∧
    ∃ r ∈ rows ++ [row], rowKey r = key info ∧ info.mediaType = .ofNumber (r.getInt 3) := by
  constructor
  · rw [List.filter_append, List.filter_cons_of_neg (by simpa using hne), List.filter_nil,
      List.append_nil]
    exact h.names info hinfo
  · obtain ⟨r, hr, hkey, htype⟩ := h.types info hinfo
    exact ⟨r, List.mem_append_left _ hr, hkey, htype⟩

theorem Merged.step {rows : List Row} {map : List MediaInfo} (h : Merged rows map) (row : Row) :
    Merged (rows ++ [row]) (mergeRow row map) := by
  have hlast : row ∈ rows ++ [row] := List.mem_append_right _ (List.mem_singleton.mpr rfl)
  by_cases hknown : rowKey row ∈ map.map key
  · obtain ⟨before, info, after, rfl, hkey, hmerge⟩ := mergeRow_known hknown
    let merged : MediaInfo := { info with
      names := info.names ++ [row.getString 2]
      mediaType := .ofNumber (row.getInt 3) }
    have hkeys : (mergeRow row (before ++ info :: after)).map key =
        (before ++ info :: after).map key := by
      rw [hmerge, List.map_append, List.map_append, List.map_cons, List.map_cons]
      rfl
    have hinfo : info ∈ before ++ info :: after :=
      List.mem_append_right _ List.mem_cons_self
    have hothers : ∀ other ∈ before ++ after, rowKey row ≠ key other := by
      intro other hother heq
      have hnodup := h.keys
      rw [List.map_append, List.map_cons, List.nodup_middle, ← List.map_append] at hnodup
      apply (List.nodup_cons.mp hnodup).1
      exact List.mem_map.mpr ⟨other, hother, heq.symm.trans hkey.symm⟩
    have hentries : ∀ other ∈ mergeRow row (before ++ info :: after),
        other = merged ∨ other ∈ before ++ after := by
      intro other hother
      rw [hmerge, List.mem_append, List.mem_cons] at hother
      rw [List.mem_append]
      tauto
    have hold : ∀ other ∈ before ++ after, other ∈ before ++ info :: after := by
      intro other hother
      rw [List.mem_append] at hother
      rw [List.mem_append, List.mem_cons]
      tauto
    refine ⟨?_, ?_, ?_, ?_⟩
    · rw [hkeys]
      exact h.keys
    · intro r hr
      rw [hkeys]
      rcases List.mem_append.mp hr with hr | hr
      · exact h.found r hr
      · rw [List.mem_singleton.mp hr]
        exact hknown
    · intro other hother
      rcases hentries other hother with rfl | hother
      · show info.names ++ [row.getString 2] =
          ((rows ++ [row]).filter fun row => rowKey row = key info).map fun row => row.getString 2
        rw [List.filter_append, List.filter_cons_of_pos (by simpa using hkey.symm),
          List.filter_nil, List.map_append, ← h.names info hinfo]
        rfl
      · exact (h.kept (hold other hother) (hothers other hother)).1
    · intro other hother
      rcases hentries other hother with rfl | hother
      · exact ⟨row, hlast, hkey.symm, rfl⟩
      · exact (h.kept (hold other hother) (hothers other hother)).2
  · rw [mergeRow_new hknown]
    have hothers : ∀ other ∈ map, rowKey row ≠ key other :=
      fun other hother heq => hknown (List.mem_map.mpr ⟨other, hother, heq.symm⟩)
    -- a key without an entry had no row yet
    have hnone : (rows.filter fun r => rowKey r = rowKey row) = [] := by
      rw [List.filter_eq_nil_iff]
      intro r hr heq
      exact hknown (of_decide_eq_true heq ▸ h.found r hr)
    refine ⟨?_, ?_, ?_, ?_⟩
    · rw [List.map_append, List.nodup_append']
      exact ⟨h.keys, List.nodup_singleton _, List.disjoint_singleton.mpr hknown⟩
    · intro r hr
      rw [List.map_append, List.mem_append]
      rcases List.mem_append.mp hr with hr | hr
      · exact Or.inl (h.found r hr)
      · rw [List.mem_singleton.mp hr]
        exact Or.inr (List.mem_singleton.mpr rfl)
    · intro other hother
      rcases List.mem_append.mp hother with hother | hother
      · exact (h.kept hother (hothers other hother)).1
      · rw [List.mem_singleton.mp hother]
        show [row.getString 2] =
          ((rows ++ [row]).filter fun r => rowKey r = rowKey row).map fun row => row.getString 2
        rw [List.filter_append, hnone, List.filter_cons_of_pos (by simp)]
        rfl
    · intro other hother
      rcases List.mem_append.mp hother with hother | hother
      · exact (h.kept hother (hothers other hother)).2
      · rw [List.mem_singleton.mp hother]
        exact ⟨row, hlast, rfl, rfl⟩

theorem merged_foldl (rows : List Row) :
    Merged rows (rows.foldl (fun map row => mergeRow row map) []) := by
  induction rows using List.reverseRecOn with
  | nil => exact ⟨List.nodup_nil, nofun, nofun, nofun⟩
  | append_singleton rows row ih =>
    rw [List.foldl_append]
    exact ih.step row

end Merge

end Glider.Db.Sqlite

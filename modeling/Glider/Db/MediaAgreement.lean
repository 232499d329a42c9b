import Mathlib.Data.Multiset.Basic
import Glider.Db.Persist
import Glider.Db.Sqlite.Accepted

namespace Glider.Db

open Glider.Lib
open Protobuf (MediaToName)

theorem MediaType.toNumber_range (type : MediaType) : 0 ≤ type.toNumber ∧ type.toNumber < 256 := by
  cases type <;> simp only [MediaType.toNumber] <;> try omega
  rename_i number
  have hlt := number.toNat_lt
  omega

-- An entry as `addMediaInfo` writes it.
structure Tidy (e : MediaToName) : Prop where
  uniqueId : e.uniqueId.NulFree
  id : e.id.NulFree
  names : ∀ name ∈ e.names, name.NulFree
  some : e.names ≠ []
  type : ∃ type : MediaType, e.mediaType = .some type.toNumber

-- A row of `mediaids` with its links says what an entry says.
structure Describes (t : Sqlite.Media) (m : Sqlite.MediaIdRow) (e : MediaToName) : Prop where
  uniqueId : m.mediauniqueid = e.uniqueId
  mediaId : m.mediaid = e.id
  names : ((t.joined.filter fun j => j.2.2 = m).map fun j => (j.2.1.name, j.1.mediatype)) =
    e.names.map fun name => (name, e.mediaType.getD 0)
  tidy : Tidy e

section Entries

variable {t t' : Sqlite.Media} {m : Sqlite.MediaIdRow} {e : MediaToName}
  {entries : List MediaToName}

theorem Describes.of_link (h : Describes t m e) {j : Sqlite.Media.Link} (hj : j ∈ t.joined)
    (hm : j.2.2 = m) : j.2.1.name ∈ e.names ∧ j.1.mediatype = e.mediaType.getD 0 := by
  have hmem : (j.2.1.name, j.1.mediatype) ∈ e.names.map fun name => (name, e.mediaType.getD 0) := by
    rw [← h.names]
    exact List.mem_map.mpr ⟨j, List.mem_filter.mpr ⟨hj, decide_eq_true hm⟩, rfl⟩
  obtain ⟨name, hname, heq⟩ := List.mem_map.mp hmem
  obtain ⟨hn, ht⟩ := Prod.mk.inj heq
  exact ⟨hn ▸ hname, ht.symm⟩

theorem Describes.exists_link (h : Describes t m e) {name : Bytes} (hname : name ∈ e.names) :
    ∃ j ∈ t.joined, j.2.2 = m ∧ j.2.1.name = name := by
  have hmem : (name, e.mediaType.getD 0) ∈
      (t.joined.filter fun j => j.2.2 = m).map fun j => (j.2.1.name, j.1.mediatype) := by
    rw [h.names]
    exact List.mem_map.mpr ⟨name, hname, rfl⟩
  obtain ⟨j, hj, heq⟩ := List.mem_map.mp hmem
  obtain ⟨hj, hm⟩ := List.mem_filter.mp hj
  exact ⟨j, hj, of_decide_eq_true hm, congrArg Prod.fst heq⟩

theorem Tidy.type_range (h : Tidy e) : toInt32 (e.mediaType.getD 0) = e.mediaType.getD 0 := by
  obtain ⟨type, htype⟩ := h.type
  have hrange := type.toNumber_range
  rw [htype, Option.getD_some]
  apply toInt32_of_range <;> omega

-- The rows of `mediaids` in their order, one for each entry.
def Holds (t : Sqlite.Media) (entries : List MediaToName) : Prop :=
  List.Forall₂ (Describes t) t.mediaids.rows entries

theorem Holds.add {info : MediaInfo} {links : List Sqlite.Media.Link} (h : Holds t entries)
    (hshelved : Sqlite.Shelved t t' info m links) (he : Tidy e)
    (huid : e.uniqueId = info.mediaUniqueId) (hid : e.id = info.mediaId)
    (hnames : e.names = info.names) (htype : e.mediaType = .some info.mediaType.toNumber) :
    Holds t' (entries ++ [e]) := by
  unfold Holds
  rw [hshelved.mediaids]
  refine List.rel_append (forall₂_imp_of_mem h ?_) (.cons ?_ .nil)
  · intro r hr e' _ hdescribes
    have hne : ∀ j ∈ links, j.2.2 ≠ r := by
      intro j hj heq
      rw [hshelved.own j hj] at heq
      exact hshelved.isNew (heq ▸ hr)
    have hnone : (links.filter fun j => j.2.2 = r) = [] := by
      rw [List.filter_eq_nil_iff]
      exact fun j hj heq => hne j hj (of_decide_eq_true heq)
    refine { hdescribes with names := ?_ }
    rw [hshelved.joined, List.filter_append, hnone, List.append_nil]
    exact hdescribes.names
  · have hnone : (t.joined.filter fun j => j.2.2 = m) = [] := by
      rw [List.filter_eq_nil_iff]
      intro j hj heq
      exact hshelved.isNew (of_decide_eq_true heq ▸ Sqlite.Media.mem_mediaids_of_joined hj)
    have hall : (links.filter fun j => j.2.2 = m) = links := by
      rw [List.filter_eq_self]
      exact fun j hj => decide_eq_true (hshelved.own j hj)
    refine ⟨hshelved.uniqueId.trans huid.symm, hshelved.mediaId.trans hid.symm, ?_, he⟩
    rw [hshelved.joined, List.filter_append, hnone, hall, List.nil_append, hshelved.names, hnames,
      htype]
    rfl

theorem Holds.delete (h : Holds t entries) (mediaid : Bytes) :
    Holds (t.deleteMedia mediaid) (entries.filter fun e => e.id ≠ mediaid) := by
  unfold Holds
  show List.Forall₂ _ (t.mediaids.rows.filter fun r => !decide (r.mediaid = mediaid)) _
  have hkept : List.Forall₂ (Describes t)
      (t.mediaids.rows.filter fun r => !decide (r.mediaid = mediaid))
      (entries.filter fun e => decide (e.id ≠ mediaid)) := by
    refine List.rel_filter ?_ h
    intro m e hdescribes
    simp [hdescribes.mediaId]
  refine forall₂_imp_of_mem hkept ?_
  intro m hm e _ hdescribes
  have hm : m.mediaid ≠ mediaid := by simpa using (List.mem_filter.mp hm).2
  refine { hdescribes with names := ?_ }
  rw [Sqlite.Media.joined_deleteMedia, List.filter_filter, ← hdescribes.names]
  congr 1
  apply List.filter_congr
  intro j _
  by_cases hj : j.2.2 = m
  · simp [hj, hm]
  · simp [hj]

theorem Holds.exists_entry (h : Holds t entries) (hm : m ∈ t.mediaids.rows) :
    ∃ e ∈ entries, Describes t m e := exists_of_forall₂_left h hm

theorem Holds.exists_row (h : Holds t entries) (he : e ∈ entries) :
    ∃ m ∈ t.mediaids.rows, Describes t m e := exists_of_forall₂_right h he

-- The same media never has two rows.
theorem row_eq_of_uniqueId {m m' : Sqlite.MediaIdRow} (hm : m ∈ t.mediaids.rows)
    (hm' : m' ∈ t.mediaids.rows) (huid : m.mediauniqueid = m'.mediauniqueid) : m = m' := by
  apply @Table.row_eq_of_entry _ _ _ t.mediaids _ _ (.text m.mediauniqueid) hm hm'
  · simp [Sqlite.MediaIdRow.entries]
  · simp [Sqlite.MediaIdRow.entries, huid]

section All

-- A media as the interface shows it, its names in any order.
def shown (info : MediaInfo) : Bytes × Bytes × Multiset Bytes × MediaType :=
  (info.mediaId, info.mediaUniqueId, info.names, info.mediaType)

variable {rows : List Sqlite.Row} {map : List MediaInfo}

theorem key_row (h : Describes t m e) {j : Sqlite.Media.Link} (hm : j.2.2 = m) :
    Sqlite.rowKey j.row = (e.id, e.uniqueId) := by
  show (j.2.2.mediaid.cstr, j.2.2.mediauniqueid.cstr) = _
  rw [hm, h.mediaId, h.uniqueId, Bytes.cstr_of_nulFree h.tidy.id,
    Bytes.cstr_of_nulFree h.tidy.uniqueId]

-- The entry of the map for a media holds just what the rows of the media hold.
theorem shown_merged (h : Holds t entries) (hmerged : Sqlite.Merged rows map)
    (hrows : rows.Perm (t.joined.map Sqlite.Media.Link.row)) {info : MediaInfo}
    (hinfo : info ∈ map) (hm : m ∈ t.mediaids.rows) (hdescribes : Describes t m e)
    (hkey : Sqlite.key info = (e.id, e.uniqueId)) : shown info = shown (e.info e.names) := by
  have hown : ∀ j : Sqlite.Media.Link, j ∈ t.joined →
      (Sqlite.rowKey j.row = Sqlite.key info ↔ j.2.2 = m) := by
    intro j hj
    have hjm := Sqlite.Media.mem_mediaids_of_joined hj
    constructor
    · intro hjkey
      obtain ⟨e', _, hdescribes'⟩ := h.exists_entry hjm
      have huid : e'.uniqueId = e.uniqueId := by
        rw [key_row hdescribes' rfl, hkey] at hjkey
        exact congrArg Prod.snd hjkey
      apply row_eq_of_uniqueId hjm hm
      rw [hdescribes'.uniqueId, hdescribes.uniqueId, huid]
    · intro heq
      rw [key_row hdescribes heq, hkey]
  have hnames : info.names.Perm e.names := by
    have hfilter : ((t.joined.map Sqlite.Media.Link.row).filter fun row =>
        decide (Sqlite.rowKey row = Sqlite.key info)) =
          (t.joined.filter fun j => j.2.2 = m).map Sqlite.Media.Link.row := by
      rw [List.filter_map]
      congr 1
      apply List.filter_congr
      intro j hj
      simp [hown j hj]
    have hread : ((t.joined.filter fun j => j.2.2 = m).map fun j => j.2.1.name.cstr) = e.names := by
      have hfirst := congrArg (List.map fun p : Bytes × ℤ => p.1.cstr) hdescribes.names
      rw [List.map_map, List.map_map] at hfirst
      refine hfirst.trans ?_
      have hcstr : ∀ name ∈ e.names, name.cstr = name :=
        fun name hname => Bytes.cstr_of_nulFree (hdescribes.tidy.names name hname)
      exact (List.map_congr_left hcstr).trans (List.map_id _)
    have hperm := (hrows.filter fun row => decide (Sqlite.rowKey row = Sqlite.key info)).map
      fun row => Sqlite.Row.getString row 2
    rw [← hmerged.names info hinfo, hfilter, List.map_map] at hperm
    rw [← hread]
    exact hperm
  have htype : info.mediaType = e.type := by
    obtain ⟨row, hrow, hrowkey, htype⟩ := hmerged.types info hinfo
    obtain ⟨j, hj, rfl⟩ := List.mem_map.mp (hrows.mem_iff.mp hrow)
    have hjtype := (hdescribes.of_link hj ((hown j hj).mp hrowkey)).2
    rw [htype]
    show MediaType.ofNumber (toInt32 j.1.mediatype) = e.type
    rw [hjtype, hdescribes.tidy.type_range]
    rfl
  obtain ⟨hid, huid⟩ := Prod.mk.inj hkey
  show (_, _, _, _) = (e.id, e.uniqueId, (e.names : Multiset Bytes), e.type)
  rw [hid, huid, Multiset.coe_eq_coe.mpr hnames, htype]

theorem nodup_uniqueIds (h : Holds t entries) : (entries.map MediaToName.uniqueId).Nodup := by
  have hmap : entries.map MediaToName.uniqueId =
      t.mediaids.rows.map Sqlite.MediaIdRow.mediauniqueid := by
    unfold Holds at h
    generalize t.mediaids.rows = rows at h
    induction h with
    | nil => rfl
    | @cons m e rest rest' hdescribes _ ih =>
      rw [List.map_cons, List.map_cons, ih, hdescribes.uniqueId]
  rw [hmap]
  refine List.Nodup.of_map Sqlite.IdOrText.text ?_
  rw [List.map_map]
  apply t.mediaids.nodup_map_entry
  intro r
  simp [Sqlite.MediaIdRow.entries]

theorem shown_perm (h : Holds t entries) (hmerged : Sqlite.Merged rows map)
    (hrows : rows.Perm (t.joined.map Sqlite.Media.Link.row)) :
    (map.map shown).Perm ((entries.map fun e => e.info e.names).map shown) := by
  have hleft : (map.map shown).Nodup := by
    refine List.Nodup.of_map (fun x => (x.1, x.2.1)) ?_
    rw [List.map_map]
    exact hmerged.keys
  have hright : ((entries.map fun e => e.info e.names).map shown).Nodup := by
    refine List.Nodup.of_map (fun x => x.2.1) ?_
    rw [List.map_map, List.map_map]
    exact nodup_uniqueIds h
  rw [List.perm_ext_iff_of_nodup hleft hright]
  intro x
  constructor
  · intro hx
    obtain ⟨info, hinfo, rfl⟩ := List.mem_map.mp hx
    obtain ⟨row, hrow, hrowkey, _⟩ := hmerged.types info hinfo
    obtain ⟨j, hj, rfl⟩ := List.mem_map.mp (hrows.mem_iff.mp hrow)
    have hm := Sqlite.Media.mem_mediaids_of_joined hj
    obtain ⟨e, he, hdescribes⟩ := h.exists_entry hm
    rw [key_row hdescribes rfl] at hrowkey
    rw [shown_merged h hmerged hrows hinfo hm hdescribes hrowkey.symm]
    exact List.mem_map_of_mem (List.mem_map.mpr ⟨e, he, rfl⟩)
  · intro hx
    obtain ⟨_, hmem, rfl⟩ := List.mem_map.mp hx
    obtain ⟨e, he, rfl⟩ := List.mem_map.mp hmem
    obtain ⟨m, hm, hdescribes⟩ := h.exists_row he
    obtain ⟨name, hname⟩ := List.exists_mem_of_ne_nil _ hdescribes.tidy.some
    obtain ⟨j, hj, hjm, _⟩ := hdescribes.exists_link hname
    have hrow := hrows.mem_iff.mpr (List.mem_map.mpr ⟨j, hj, rfl⟩)
    obtain ⟨info, hinfo, hkey⟩ := List.mem_map.mp (hmerged.found _ hrow)
    rw [key_row hdescribes hjm] at hkey
    rw [← shown_merged h hmerged hrows hinfo hm hdescribes hkey]
    exact List.mem_map_of_mem hinfo

end All

section Named

-- The names that match in one backend are those that match in the other.
def MatchesAlike (t : Sqlite.Media) (str : Bytes) : Prop :=
  ∀ j ∈ t.joined, j.2.1.name.equalsIgnoreCase str = true ↔ j.2.1.name = str.cstr

theorem MatchesAlike.of_entry {str : Bytes} (h : MatchesAlike t str) (hdescribes : Describes t m e)
    {name : Bytes} (hname : name ∈ e.names) :
    name.equalsIgnoreCase str = true ↔ name = str.cstr := by
  obtain ⟨j, hj, _, rfl⟩ := hdescribes.exists_link hname
  exact h j hj

theorem flatMap_eq_of_forall₂ {α β γ : Type} {R : α → β → Prop} {l : List α} {l' : List β}
    {f : α → List γ} {g : β → List γ} (h : List.Forall₂ R l l') (hfg : ∀ a b, R a b → f a = g b) :
    l.flatMap f = l'.flatMap g := by
  induction h with
  | nil => rfl
  | @cons a b rest rest' hab _ ih => rw [List.flatMap_cons, List.flatMap_cons, ih, hfg a b hab]

theorem nodup_mediaids (t : Sqlite.Media) : t.mediaids.rows.Nodup := by
  refine List.Nodup.of_map (fun r => Sqlite.IdOrText.id r.id) ?_
  apply t.mediaids.nodup_map_entry
  intro r
  simp [Sqlite.MediaIdRow.entries]

-- The ids of one media, once for each of its names that match.
theorem Describes.named_ids {str : Bytes} (h : Describes t m e) (hmatch : MatchesAlike t str) :
    (((t.named str.cstr).filter fun j => j.2.2 = m).map fun j => j.2.2.mediaid.cstr) =
      (e.names.filter fun name => name.equalsIgnoreCase str).map fun _ => e.id := by
  have hids : (((t.named str.cstr).filter fun j => j.2.2 = m).map fun j => j.2.2.mediaid.cstr) =
      ((t.named str.cstr).filter fun j => j.2.2 = m).map fun _ => e.id := by
    apply List.map_congr_left
    intro j hj
    rw [of_decide_eq_true (List.mem_filter.mp hj).2, h.mediaId, Bytes.cstr_of_nulFree h.tidy.id]
  have hnames := congrArg (fun l => (l.filter fun p : Bytes × ℤ => p.1 = str.cstr).map
    fun _ => e.id) h.names
  simp only [List.filter_map, List.map_map] at hnames
  rw [hids, Sqlite.Media.named, List.filter_comm]
  refine hnames.trans ?_
  have hmatches : (e.names.filter fun name => name.equalsIgnoreCase str) =
      e.names.filter fun name => name = str.cstr := by
    apply List.filter_congr
    intro name hname
    rw [Bool.eq_iff_iff, decide_eq_true_eq]
    exact hmatch.of_entry h hname
  rw [hmatches]
  rfl

theorem Holds.ids_perm {str : Bytes} (h : Holds t entries) (hmatch : MatchesAlike t str) :
    ((t.named str.cstr).map fun j => j.2.2.mediaid.cstr).Perm
      (entries.flatMap fun e =>
        (e.names.filter fun name => name.equalsIgnoreCase str).map fun _ => e.id) := by
  have hgroups := (@perm_flatMap_filter _ _ _ (fun j : Sqlite.Media.Link => j.2.2)
    t.mediaids.rows (nodup_mediaids t) (t.named str.cstr) fun j hj =>
      Sqlite.Media.mem_mediaids_of_joined (List.mem_of_mem_filter hj)).map
        fun j => j.2.2.mediaid.cstr
  rw [List.map_flatMap] at hgroups
  rwa [flatMap_eq_of_forall₂ h fun m e hdescribes => hdescribes.named_ids hmatch] at hgroups

-- All that a query answers comes from the row of the media.
theorem Describes.info_eq (h : Describes t m e) {j : Sqlite.Media.Link} (hj : j ∈ t.joined)
    (hm : j.2.2 = m) :
    (⟨j.2.2.mediaid.cstr, j.2.2.mediauniqueid.cstr, [], .ofNumber (toInt32 j.1.mediatype)⟩ :
      MediaInfo) = e.info [] := by
  rw [(h.of_link hj hm).2, h.tidy.type_range, hm, h.mediaId, h.uniqueId,
    Bytes.cstr_of_nulFree h.tidy.id, Bytes.cstr_of_nulFree h.tidy.uniqueId]
  rfl

theorem Holds.matching_iff {str : Bytes} (hmatch : MatchesAlike t str)
    (hdescribes : Describes t m e) :
    (e.names.any fun name => name.equalsIgnoreCase str) = true ↔
      ∃ j ∈ t.named str.cstr, j.2.2 = m := by
  rw [List.any_eq_true]
  constructor
  · rintro ⟨name, hname, heq⟩
    obtain ⟨j, hj, hm, hjname⟩ := hdescribes.exists_link hname
    refine ⟨j, List.mem_filter.mpr ⟨hj, decide_eq_true ?_⟩, hm⟩
    rw [hjname]
    exact (hmatch.of_entry hdescribes hname).mp heq
  · rintro ⟨j, hj, hm⟩
    obtain ⟨hj, hjname⟩ := List.mem_filter.mp hj
    exact ⟨_, (hdescribes.of_link hj hm).1, (hmatch j hj).mpr (of_decide_eq_true hjname)⟩

theorem Holds.query_eq {str : Bytes} (h : Holds t entries) (hmatch : MatchesAlike t str)
    (hone : ∀ j ∈ t.named str.cstr, ∀ j' ∈ t.named str.cstr, j.2.2 = j'.2.2)
    (planner : Sqlite.Planner) (n : ℕ) :
    ((planner.order n ((t.named str.cstr).map fun j =>
      [.text j.2.2.mediaid, .text j.2.2.mediauniqueid, .int j.1.mediatype])).head?.map fun row =>
        (⟨Sqlite.Row.getString row 0, Sqlite.Row.getString row 1, [],
          .ofNumber (Sqlite.Row.getInt row 2)⟩ : MediaInfo)) =
      (entries.filter fun e => e.names.any fun name => name.equalsIgnoreCase str).getLast?.map
        fun e => e.info [] := by
  cases hfound : (planner.order n ((t.named str.cstr).map fun j =>
      [.text j.2.2.mediaid, .text j.2.2.mediauniqueid, .int j.1.mediatype])).head? with
  | none =>
    rw [Sqlite.Planner.head?_eq_none, List.map_eq_nil_iff] at hfound
    have hnone : (entries.filter fun e =>
        e.names.any fun name => name.equalsIgnoreCase str) = [] := by
      rw [List.filter_eq_nil_iff]
      intro e he hany
      obtain ⟨m, _, hdescribes⟩ := h.exists_row he
      obtain ⟨j, hj, _⟩ := (Holds.matching_iff hmatch hdescribes).mp hany
      rw [hfound] at hj
      cases hj
    rw [hnone]
    rfl
  | some row =>
    obtain ⟨j, hj, rfl⟩ := List.mem_map.mp (planner.mem_of_head? hfound)
    have hjoined := List.mem_of_mem_filter hj
    obtain ⟨first, hfirst, hdescribes⟩ :=
      h.exists_entry (Sqlite.Media.mem_mediaids_of_joined hjoined)
    cases hlast : (entries.filter fun e =>
        e.names.any fun name => name.equalsIgnoreCase str).getLast? with
    | none =>
      rw [List.getLast?_eq_none_iff, List.filter_eq_nil_iff] at hlast
      exact absurd ((Holds.matching_iff hmatch hdescribes).mpr ⟨j, hj, rfl⟩)
        (hlast first hfirst)
    | some last =>
      obtain ⟨hmem, hany⟩ := List.mem_filter.mp (List.mem_of_getLast? hlast)
      obtain ⟨m, _, hdescribes'⟩ := h.exists_row hmem
      obtain ⟨j', hj', rfl⟩ := (Holds.matching_iff hmatch hdescribes').mp hany
      exact congrArg some (hdescribes'.info_eq hjoined (hone j hj j' hj'))

end Named

end Entries

-- Lists of media, of ids and of names are compared as multisets.
def Alike : MediaAnswer → MediaAnswer → Prop
  | .added a, .added b => a = b
  | .deleted a, .deleted b => a = b
  | .info a, .info b => a.map shown = b.map shown
  | .ids a, .ids b => a.map Multiset.ofList = b.map Multiset.ofList
  | .infos a, .infos b => Multiset.ofList (a.map shown) = Multiset.ofList (b.map shown)
  | _, _ => False

-- What callers keep to: some names, distinct ones, each a C string.
def Proper : MediaCall → Prop
  | .addMediaInfo info =>
    info.names ≠ [] ∧ (∀ name ∈ info.names, name.NulFree) ∧ info.names.Nodup
  | _ => True

def MediaAgreeOn (t : Sqlite.Media) : MediaCall → Prop
  | .addMediaInfo info =>
    info.mediaUniqueId.NulFree ∧ info.mediaId.NulFree ∧ t.Room info.names.length
  | .deleteMediaInfo mediaId =>
    (∀ r ∈ t.mediaids.rows, r.mediaid = mediaId.cstr → r.mediaid = mediaId) ∧
      (t.mediaids.rows.filter fun r => r.mediaid = mediaId).length ≤ 1
  | .queryMediaInfo str =>
    MatchesAlike t str ∧ ∀ j ∈ t.named str.cstr, ∀ j' ∈ t.named str.cstr, j.2.2 = j'.2.2
  | .getMediaIds name => MatchesAlike t name
  | .getAllMediaInfos => True

structure Related (c : Sqlite.Conn) (s : Protobuf.ProtoDatabase) : Prop where
  quiet : c.Quiet
  saved : c.saved = none
  good : Protobuf.Good s
  holds : ∃ info, s.dbinfo = some info ∧ Holds c.tables.media info.object.mediaToNames

section Step

variable {codec : Protobuf.Codec} {c : Sqlite.Conn} {s : Protobuf.ProtoDatabase}

def StepsAlike (codec : Protobuf.Codec) (c : Sqlite.Conn) (s : Protobuf.ProtoDatabase)
    (call : MediaCall) : Prop :=
  Alike (mediaStep Sqlite.database c call).1 (mediaStep (Protobuf.database codec) s call).1 ∧
    Related (mediaStep Sqlite.database c call).2 (mediaStep (Protobuf.database codec) s call).2

theorem Related.after (h : Related c s) (n : ℕ) : Related (c.after n) s :=
  ⟨h.quiet, h.saved, h.good, h.holds⟩

theorem stepsAlike_add (h : Related c s) {info : MediaInfo} (hproper : Proper (.addMediaInfo info))
    (hagree : MediaAgreeOn c.tables.media (.addMediaInfo info)) :
    StepsAlike codec c s (.addMediaInfo info) := by
  obtain ⟨hsome, hnames, hdistinct⟩ := hproper
  obtain ⟨huid, hid, hroom⟩ := hagree
  obtain ⟨db, hs, hholds⟩ := h.holds
  have hknown : (db.object.mediaToNames.any fun m => m.uniqueId = info.mediaUniqueId) = true ↔
      ∃ r ∈ c.tables.media.mediaids.rows, r.mediauniqueid = info.mediaUniqueId := by
    rw [List.any_eq_true]
    constructor
    · rintro ⟨e, he, heq⟩
      obtain ⟨m, hm, hdescribes⟩ := hholds.exists_row he
      exact ⟨m, hm, hdescribes.uniqueId.trans (of_decide_eq_true heq)⟩
    · rintro ⟨m, hm, heq⟩
      obtain ⟨e, he, hdescribes⟩ := hholds.exists_entry hm
      exact ⟨e, he, decide_eq_true (hdescribes.uniqueId.symm.trans heq)⟩
  by_cases hexists : ∃ r ∈ c.tables.media.mediaids.rows, r.mediauniqueid = info.mediaUniqueId
  · have hany := hknown.mpr hexists
    obtain ⟨r, hr, heq⟩ := hexists
    obtain ⟨c', hadd, hquiet, hsaved, htables⟩ :=
      Sqlite.addMediaInfo_known h.quiet h.saved hsome huid hr heq
    simp only [StepsAlike, mediaStep, Sqlite.database, Protobuf.database, hadd,
      Protobuf.addMediaInfo, hs, hany, if_true]
    exact ⟨rfl, hquiet, hsaved, h.good, db, hs, htables ▸ hholds⟩
  · have hany := mt hknown.mp hexists
    have hnew : ∀ r ∈ c.tables.media.mediaids.rows, r.mediauniqueid ≠ info.mediaUniqueId :=
      fun r hr heq => hexists ⟨r, hr, heq⟩
    obtain ⟨c', m, links, hadd, hquiet, hsaved, hshelved⟩ :=
      Sqlite.addMediaInfo_quiet h.quiet h.saved hroom hsome huid hid hnames hdistinct hnew
    let entry : MediaToName :=
      ⟨some info.mediaUniqueId, some info.mediaId, info.names, some info.mediaType.toNumber⟩
    have htidy : Tidy entry := ⟨huid, hid, hnames, hsome, info.mediaType, rfl⟩
    obtain ⟨hok, hinfo, hgood⟩ := @Protobuf.commit_quiet codec s _ h.good.quiet db
      { db.object with mediaToNames := db.object.mediaToNames ++ [entry] } db.object
      AddResult.OK .BACKEND_ERROR
    simp only [StepsAlike, mediaStep, Sqlite.database, Protobuf.database, hadd,
      Protobuf.addMediaInfo, hs, if_neg hany]
    exact ⟨hok.symm, hquiet, hsaved, hgood, _, hinfo, hholds.add hshelved htidy rfl rfl rfl rfl⟩

theorem eraseP_eq_filter {α : Type} {p : α → Bool} {l : List α} (h : (l.filter p).length ≤ 1) :
    l.eraseP p = l.filter fun x => !p x := by
  induction l with
  | nil => rfl
  | cons x rest ih =>
    cases hx : p x with
    | false =>
      rw [List.filter_cons_of_neg (by simp [hx])] at h
      rw [List.eraseP_cons_of_neg (by simp [hx]), List.filter_cons_of_pos (by simp [hx]), ih h]
    | true =>
      rw [List.filter_cons_of_pos hx, List.length_cons] at h
      have hnil : rest.filter p = [] := List.length_eq_zero_iff.mp (by omega)
      rw [List.eraseP_cons_of_pos hx, List.filter_cons_of_neg (by simp [hx]), eq_comm,
        List.filter_eq_self]
      intro y hy
      simpa using List.filter_eq_nil_iff.mp hnil y hy

theorem stepsAlike_delete (h : Related c s) {mediaId : Bytes}
    (hagree : MediaAgreeOn c.tables.media (.deleteMediaInfo mediaId)) :
    StepsAlike codec c s (.deleteMediaInfo mediaId) := by
  obtain ⟨hexact, hone⟩ := hagree
  obtain ⟨info, hs, hholds⟩ := h.holds
  have hsame : ∀ m e, m ∈ c.tables.media.mediaids.rows → Describes c.tables.media m e →
      (m.mediaid = mediaId.cstr ↔ e.id = mediaId) := by
    intro m e hm hdescribes
    rw [← hdescribes.mediaId]
    refine ⟨hexact m hm, fun heq => ?_⟩
    have hnul : mediaId.NulFree := by
      rw [← heq, hdescribes.mediaId]
      exact hdescribes.tidy.id
    rw [Bytes.cstr_of_nulFree hnul, heq]
  have hrows : (c.tables.media.mediaids.rows.filter fun r => r.mediaid = mediaId.cstr) =
      c.tables.media.mediaids.rows.filter fun r => r.mediaid = mediaId := by
    apply List.filter_congr
    intro m hm
    obtain ⟨e, _, hdescribes⟩ := hholds.exists_entry hm
    simp only [hsame m e hm hdescribes, ← hdescribes.mediaId]
  have hentries : (info.object.mediaToNames.filter fun e => decide (e.id ≠ mediaId.cstr)) =
      info.object.mediaToNames.filter fun e => !decide (e.id = mediaId) := by
    apply List.filter_congr
    intro e he
    obtain ⟨m, hm, hdescribes⟩ := hholds.exists_row he
    simp only [← hsame m e hm hdescribes, hdescribes.mediaId, decide_not]
  have hlength : (c.tables.media.mediaids.rows.filter fun r => r.mediaid = mediaId).length =
      (info.object.mediaToNames.filter fun e => decide (e.id = mediaId)).length := by
    refine (List.rel_filter ?_ hholds).length_eq
    intro m e hdescribes
    simp [hdescribes.mediaId]
  have hkept : Holds (c.tables.media.deleteMedia mediaId.cstr)
      (info.object.mediaToNames.eraseP fun e => decide (e.id = mediaId)) := by
    rw [eraseP_eq_filter (hlength ▸ hone), ← hentries]
    exact hholds.delete mediaId.cstr
  simp only [StepsAlike, mediaStep, Sqlite.database, Protobuf.database,
    Sqlite.deleteMediaInfo_quiet h.quiet, Protobuf.deleteMediaInfo, hs, hrows, hlength]
  rw [List.eraseP_eq_eraseIdx] at hkept
  cases hfound : info.object.mediaToNames.findIdx? fun e => decide (e.id = mediaId) with
  | none =>
    have hnone : (info.object.mediaToNames.filter fun e => decide (e.id = mediaId)) = [] := by
      rw [List.filter_eq_nil_iff]
      intro e he
      simpa using List.findIdx?_eq_none_iff.mp hfound e he
    rw [hfound] at hkept
    refine ⟨?_, h.quiet, h.saved, h.good, info, hs, hkept⟩
    rw [hnone]
    rfl
  | some i =>
    have hsome : 0 < (info.object.mediaToNames.filter fun e =>
        decide (e.id = mediaId)).length := by
      have hany : (info.object.mediaToNames.any fun e => decide (e.id = mediaId)) = true := by
        rw [← List.findIdx?_isSome, hfound]
        rfl
      obtain ⟨e, he, heq⟩ := List.any_eq_true.mp hany
      exact List.length_pos_of_mem (List.mem_filter.mpr ⟨he, heq⟩)
    obtain ⟨hok, hinfo, hgood⟩ := @Protobuf.commit_quiet codec s _ h.good.quiet info
      { info.object with mediaToNames := info.object.mediaToNames.eraseIdx i } info.object
      true false
    rw [hfound] at hkept
    refine ⟨?_, h.quiet, h.saved, hgood, _, hinfo, hkept⟩
    rw [decide_eq_true hsome]
    exact hok.symm

theorem stepsAlike (h : Related c s) {call : MediaCall} (hproper : Proper call)
    (hagree : MediaAgreeOn c.tables.media call) : StepsAlike codec c s call := by
  cases call with
  | addMediaInfo info => exact stepsAlike_add h hproper hagree
  | deleteMediaInfo mediaId => exact stepsAlike_delete h hagree
  | queryMediaInfo str =>
    obtain ⟨info, hs, hholds⟩ := h.holds
    have hanswer := hholds.query_eq hagree.1 hagree.2 c.planner (c.calls + 1)
    simp only [StepsAlike, mediaStep, Sqlite.database, Protobuf.database,
      Sqlite.queryMediaInfo_quiet h.quiet, Protobuf.queryMediaInfo, hs, Option.bind_some, hanswer]
    exact ⟨rfl, h.after 2⟩
  | getMediaIds name =>
    obtain ⟨info, hs, hholds⟩ := h.holds
    obtain ⟨ids, n, hids, hperm⟩ := Sqlite.getMediaIds_quiet h.quiet name
    have hperm := hperm.trans (hholds.ids_perm hagree)
    simp only [StepsAlike, mediaStep, Sqlite.database, Protobuf.database, hids,
      Protobuf.getMediaIds, hs, Option.bind_some]
    refine ⟨?_, h.after n⟩
    by_cases hnil : ids = []
    · rw [hnil] at hperm
      simp only [hnil, hperm.nil_eq.symm, if_true]
      rfl
    · have hne : (info.object.mediaToNames.flatMap fun e =>
          (e.names.filter fun n => n.equalsIgnoreCase name).map fun _ => e.id) ≠ [] := by
        intro heq
        rw [heq] at hperm
        exact hnil hperm.eq_nil
      rw [if_neg hnil, if_neg hne]
      exact congrArg some (Multiset.coe_eq_coe.mpr hperm)
  | getAllMediaInfos =>
    obtain ⟨info, hs, hholds⟩ := h.holds
    obtain ⟨rows, n, hall, hrows⟩ := Sqlite.getAllMediaInfos_quiet h.quiet
    simp only [StepsAlike, mediaStep, Sqlite.database, Protobuf.database, hall,
      Protobuf.getAllMediaInfos, hs, Option.map_some, Option.getD_some]
    refine ⟨?_, h.after n⟩
    exact Multiset.coe_eq_coe.mpr (shown_perm hholds (Sqlite.merged_foldl rows) hrows)

end Step

-- Without failures the two backends answer every run of calls alike in which each call is made
-- where they agree.
theorem media_agree (codec : Protobuf.Codec) (path : Bytes) (files : FileStore Bytes UInt8)
    (pid sequence : ℕ) (planner : Sqlite.Planner) (calls : List MediaCall)
    (hproper : ∀ call ∈ calls, Proper call)
    (hagree : (mediaStep Sqlite.database).Always (fun c call => MediaAgreeOn c.tables.media call)
      (.fresh planner fun _ => none) calls) :
    List.Forall₂ Alike ((mediaStep Sqlite.database).outputs (.fresh planner fun _ => none) calls)
      ((mediaStep (Protobuf.database codec)).outputs
        (.fresh path files pid sequence fun _ => none) calls) := by
  have hguard := Machine.always_and.mpr ⟨Machine.always_of_forall hproper _, hagree⟩
  refine @Machine.outputs_forall₂ _ _ _ _ _ _ _ _ Related _ ?_ _ _ _ ?_ hguard
  · exact fun c s call h hcall => stepsAlike h hcall.1 hcall.2
  · exact ⟨fun _ => rfl, rfl, ⟨rfl, fun _ => rfl⟩, _, rfl, .nil⟩

-- `Name` is found as `name` by one backend only.
theorem name_found_once :
    ¬List.Forall₂ Alike
      ((mediaStep Sqlite.database).outputs (.fresh .rowOrder fun _ => none)
        [.addMediaInfo ⟨[109], [117], [[78, 97, 109, 101]], .PHOTO⟩,
          .queryMediaInfo [110, 97, 109, 101]])
      ((mediaStep (Protobuf.database Protobuf.sampleCodec)).outputs
        (.fresh Protobuf.kInMemoryDatabase .empty 1 0 fun _ => none)
        [.addMediaInfo ⟨[109], [117], [[78, 97, 109, 101]], .PHOTO⟩,
          .queryMediaInfo [110, 97, 109, 101]]) := by
  intro h
  have hsqlite : (mediaStep Sqlite.database).outputs (.fresh .rowOrder fun _ => none)
      [.addMediaInfo ⟨[109], [117], [[78, 97, 109, 101]], .PHOTO⟩,
        .queryMediaInfo [110, 97, 109, 101]] = [.added .OK, .info none] := by
    decide +kernel
  have hproto : (mediaStep (Protobuf.database Protobuf.sampleCodec)).outputs
      (.fresh Protobuf.kInMemoryDatabase .empty 1 0 fun _ => none)
      [.addMediaInfo ⟨[109], [117], [[78, 97, 109, 101]], .PHOTO⟩,
        .queryMediaInfo [110, 97, 109, 101]] =
          [.added .OK, .info (some ⟨[109], [117], [], .PHOTO⟩)] := by
    decide +kernel
  rw [hsqlite, hproto] at h
  simp [Alike] at h

section Sample

instance (t : Sqlite.Media) (n : ℕ) : Decidable (t.Room n) :=
  decidable_of_iff (t.mediaidsSeq + 1 < 2 ^ 31 ∧ t.medianameSeq + n < 2 ^ 31 ∧
    t.mediamapSeq + n ≤ Sqlite.Media.maxId)
    ⟨fun h => ⟨h.1, h.2.1, h.2.2⟩, fun h => ⟨h.mediaids, h.medianame, h.mediamap⟩⟩

instance : ∀ call : MediaCall, Decidable (Proper call)
  | .addMediaInfo _ => inferInstanceAs (Decidable (_ ∧ _ ∧ _))
  | .deleteMediaInfo _ => inferInstanceAs (Decidable True)
  | .queryMediaInfo _ => inferInstanceAs (Decidable True)
  | .getMediaIds _ => inferInstanceAs (Decidable True)
  | .getAllMediaInfos => inferInstanceAs (Decidable True)

instance (t : Sqlite.Media) (str : Bytes) : Decidable (MatchesAlike t str) :=
  inferInstanceAs (Decidable (∀ j ∈ t.joined, _))

instance (t : Sqlite.Media) : ∀ call : MediaCall, Decidable (MediaAgreeOn t call)
  | .addMediaInfo _ => inferInstanceAs (Decidable (_ ∧ _ ∧ _))
  | .deleteMediaInfo _ => inferInstanceAs (Decidable (_ ∧ _))
  | .queryMediaInfo _ => inferInstanceAs (Decidable (_ ∧ _))
  | .getMediaIds name => inferInstanceAs (Decidable (MatchesAlike t name))
  | .getAllMediaInfos => inferInstanceAs (Decidable True)

-- Two media that share a name; the shared name is asked for its ids only.
def sampleCalls : List MediaCall :=
  [.addMediaInfo ⟨[109], [117], [[97], [98]], .PHOTO⟩, .addMediaInfo ⟨[110], [118], [[98]], .GIF⟩,
    .queryMediaInfo [97], .getMediaIds [98], .getAllMediaInfos, .deleteMediaInfo [109],
    .queryMediaInfo [98]]

theorem media_agree_sample :
    List.Forall₂ Alike
      ((mediaStep Sqlite.database).outputs (.fresh .rowOrder fun _ => none) sampleCalls)
      ((mediaStep (Protobuf.database Protobuf.sampleCodec)).outputs
        (.fresh Protobuf.kInMemoryDatabase .empty 1 0 fun _ => none) sampleCalls) :=
  media_agree Protobuf.sampleCodec Protobuf.kInMemoryDatabase .empty 1 0 .rowOrder sampleCalls
    (by decide) (by decide +kernel)

end Sample

end Glider.Db

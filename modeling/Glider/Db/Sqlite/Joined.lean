import Glider.Db.Sqlite.Tables

namespace Glider.Db.Sqlite

open Glider.Lib

namespace Media

-- The rows alone, without what is known of them.
structure Data where
  mediaids : List MediaIdRow
  medianame : List MediaNameRow
  mediamap : List MediaMapRow
  mediaidsSeq : ℕ
  medianameSeq : ℕ
  mediamapSeq : ℕ

def data (t : Media) : Data :=
  ⟨t.mediaids.rows, t.medianame.rows, t.mediamap.rows, t.mediaidsSeq, t.medianameSeq,
    t.mediamapSeq⟩

section Keys

variable {ρ : Type} {idOf : ρ → ℤ} {textOf : ρ → Bytes}
  (table : Table ρ IdOrText fun r => [.id (idOf r), .text (textOf r)])

theorem free_of_new {row : ρ} (hid : ∀ r ∈ table.rows, idOf r ≠ idOf row)
    (htext : ∀ r ∈ table.rows, textOf r ≠ textOf row) : table.Free row := by
  rw [Table.free_iff]
  refine ⟨by simp, ?_⟩
  intro r hr e he
  simp only [List.mem_cons, List.not_mem_nil, or_false] at he ⊢
  rcases he with rfl | rfl
  · simpa using hid r hr
  · simpa using htext r hr

theorem filter_id_eq {row : ρ} (hrow : row ∈ table.rows) {id : ℤ} (hid : id = idOf row) :
    (table.rows.filter fun r => id = idOf r) = [row] := by
  have hentry : ∀ r ∈ table.rows, decide (id = idOf r) = true →
      IdOrText.id id ∈ [IdOrText.id (idOf r), .text (textOf r)] := by
    intro r _ h
    simp only [decide_eq_true_eq] at h
    simp [h]
  have hfind : (table.rows.find? fun r => decide (id = idOf r)) = some row := by
    rw [table.find?_eq_some_iff_mem (.id id) hentry]
    exact ⟨hrow, decide_eq_true hid⟩
  rw [table.filter_eq_find (.id id) _ hentry, hfind]
  rfl

end Keys

section Insert

variable {t t' : Media}

theorem insertMediaId_data {mediauniqueid mediaid : Bytes} (hseq : t.mediaidsSeq < maxId)
    (hnew : ∀ r ∈ t.mediaids.rows, r.mediauniqueid ≠ mediauniqueid) :
    ∃ t', t.insertMediaId mediauniqueid mediaid = some t' ∧
      t'.data = { t.data with
        mediaids := t.mediaids.rows ++ [⟨t.mediaidsSeq + 1, mediauniqueid, mediaid⟩]
        mediaidsSeq := t.mediaidsSeq + 1 } := by
  have hfree : t.mediaids.Free ⟨t.mediaidsSeq + 1, mediauniqueid, mediaid⟩ := by
    refine @free_of_new _ MediaIdRow.id MediaIdRow.mediauniqueid t.mediaids _ (fun r hr => ?_) hnew
    have hid := t.mediaids_le r hr
    simp only
    omega
  unfold insertMediaId
  rw [if_pos hseq]
  split
  · rename_i hnone
    exact absurd hfree (Table.insert_eq_none.mp hnone)
  · rename_i mediaids hinsert
    refine ⟨_, rfl, ?_⟩
    simp only [data, Table.insert_eq_some hinsert]

theorem insertMediaId_eq_none {mediauniqueid mediaid : Bytes} {r : MediaIdRow}
    (hr : r ∈ t.mediaids.rows) (htext : r.mediauniqueid = mediauniqueid) :
    t.insertMediaId mediauniqueid mediaid = none := by
  have hused : ¬t.mediaids.Free ⟨t.mediaidsSeq + 1, mediauniqueid, mediaid⟩ := by
    intro hfree
    apply (Table.free_iff.mp hfree).2 r hr (.text mediauniqueid) <;>
      simp [MediaIdRow.entries, htext]
  unfold insertMediaId
  split
  · split
    · rfl
    · rename_i mediaids hinsert
      exact absurd (Table.free_of_insert hinsert) hused
  · rfl

theorem insertMediaName_data {name : Bytes} (hseq : t.medianameSeq < maxId)
    (hnew : ∀ r ∈ t.medianame.rows, r.name ≠ name) :
    ∃ t', t.insertMediaName name = some t' ∧
      t'.data = { t.data with
        medianame := t.medianame.rows ++ [⟨t.medianameSeq + 1, name⟩]
        medianameSeq := t.medianameSeq + 1 } := by
  have hfree : t.medianame.Free ⟨t.medianameSeq + 1, name⟩ := by
    refine @free_of_new _ MediaNameRow.id MediaNameRow.name t.medianame _ (fun r hr => ?_) hnew
    have hid := t.medianame_le r hr
    simp only
    omega
  unfold insertMediaName
  rw [if_pos hseq]
  split
  · rename_i hnone
    exact absurd hfree (Table.insert_eq_none.mp hnone)
  · rename_i medianame hinsert
    refine ⟨_, rfl, ?_⟩
    simp only [data, Table.insert_eq_some hinsert]

theorem insertMediaMap_data {mediaid medianameid mediatype : ℤ} (hseq : t.mediamapSeq < maxId)
    (hname : ∃ n ∈ t.medianame.rows, n.id = medianameid)
    (hmedia : ∃ m ∈ t.mediaids.rows, m.id = mediaid) :
    ∃ t', t.insertMediaMap mediaid medianameid mediatype = some t' ∧
      t'.data = { t.data with
        mediamap := t.mediamap.rows ++ [⟨t.mediamapSeq + 1, medianameid, mediaid, mediatype⟩]
        mediamapSeq := t.mediamapSeq + 1 } := by
  have hfree : t.mediamap.Free ⟨t.mediamapSeq + 1, medianameid, mediaid, mediatype⟩ := by
    rw [Table.free_iff]
    refine ⟨by simp [MediaMapRow.entries], ?_⟩
    intro r hr e he
    have hid := t.mediamap_le r hr
    simp only [MediaMapRow.entries, List.mem_cons, List.not_mem_nil, or_false] at he ⊢
    omega
  unfold insertMediaMap
  rw [dif_pos ⟨hseq, hname, hmedia⟩]
  split
  · rename_i hnone
    exact absurd hfree (Table.insert_eq_none.mp hnone)
  · rename_i mediamap hinsert
    refine ⟨_, rfl, ?_⟩
    simp only [data, Table.insert_eq_some hinsert]

-- What an insertion that succeeds says about the tables before it.
theorem of_insertMediaId {mediauniqueid mediaid : Bytes}
    (h : t.insertMediaId mediauniqueid mediaid = some t') :
    (∀ r ∈ t.mediaids.rows, r.mediauniqueid ≠ mediauniqueid) ∧
      t'.data = { t.data with
        mediaids := t.mediaids.rows ++ [⟨t.mediaidsSeq + 1, mediauniqueid, mediaid⟩]
        mediaidsSeq := t.mediaidsSeq + 1 } := by
  refine ⟨fun r hr hused => ?_, ?_⟩
  · rw [insertMediaId_eq_none hr hused] at h
    cases h
  · unfold insertMediaId at h
    split at h
    · split at h
      · cases h
      · rename_i mediaids hinsert
        obtain rfl := Option.some.inj h
        simp only [data, Table.insert_eq_some hinsert]
    · cases h

theorem of_insertMediaName {name : Bytes} (h : t.insertMediaName name = some t') :
    (∀ n ∈ t.medianame.rows, n.name ≠ name) ∧
      t'.data = { t.data with
        medianame := t.medianame.rows ++ [⟨t.medianameSeq + 1, name⟩]
        medianameSeq := t.medianameSeq + 1 } := by
  unfold insertMediaName at h
  split at h
  · split at h
    · cases h
    · rename_i medianame hinsert
      obtain rfl := Option.some.inj h
      refine ⟨fun n hn hused => ?_, by simp only [data, Table.insert_eq_some hinsert]⟩
      apply (Table.free_iff.mp (Table.free_of_insert hinsert)).2 n hn (.text name) <;>
        simp [MediaNameRow.entries, hused]
  · cases h

theorem of_insertMediaMap {mediaid medianameid mediatype : ℤ}
    (h : t.insertMediaMap mediaid medianameid mediatype = some t') :
    (∃ n ∈ t.medianame.rows, n.id = medianameid) ∧ (∃ m ∈ t.mediaids.rows, m.id = mediaid) ∧
      t'.data = { t.data with
        mediamap := t.mediamap.rows ++ [⟨t.mediamapSeq + 1, medianameid, mediaid, mediatype⟩]
        mediamapSeq := t.mediamapSeq + 1 } := by
  unfold insertMediaMap at h
  split at h
  · next hkeys =>
    split at h
    · cases h
    · rename_i mediamap hinsert
      obtain rfl := Option.some.inj h
      exact ⟨hkeys.2.1, hkeys.2.2, by simp only [data, Table.insert_eq_some hinsert]⟩
  · cases h

theorem insertMediaId_iff {mediauniqueid mediaid : Bytes} :
    (∃ t', t.insertMediaId mediauniqueid mediaid = some t') ↔
      t.mediaidsSeq < maxId ∧ ∀ r ∈ t.mediaids.rows, r.mediauniqueid ≠ mediauniqueid := by
  constructor
  · rintro ⟨t', h⟩
    refine ⟨?_, (of_insertMediaId h).1⟩
    by_contra hseq
    rw [insertMediaId, if_neg hseq] at h
    cases h
  · rintro ⟨hseq, hnew⟩
    obtain ⟨t', h, -⟩ := insertMediaId_data hseq hnew
    exact ⟨t', h⟩

theorem insertMediaName_iff {name : Bytes} :
    (∃ t', t.insertMediaName name = some t') ↔
      t.medianameSeq < maxId ∧ ∀ n ∈ t.medianame.rows, n.name ≠ name := by
  constructor
  · rintro ⟨t', h⟩
    refine ⟨?_, (of_insertMediaName h).1⟩
    by_contra hseq
    rw [insertMediaName, if_neg hseq] at h
    cases h
  · rintro ⟨hseq, hnew⟩
    obtain ⟨t', h, -⟩ := insertMediaName_data hseq hnew
    exact ⟨t', h⟩

end Insert

section Joined

variable {t t' : Media}

abbrev Link := MediaMapRow × MediaNameRow × MediaIdRow

-- The one name and the one media that a row of `mediamap` stands for.
structure Resolves (d : Data) (r : MediaMapRow) (j : Link) : Prop where
  row : j.1 = r
  name : j.2.1 ∈ d.medianame ∧ r.medianameid = j.2.1.id
  media : j.2.2 ∈ d.mediaids ∧ r.mediaid = j.2.2.id

-- Every row is resolved, in order, and the keys make the resolution the only one.
theorem joined_eq {links : List Link}
    (h : List.Forall₂ (Resolves t.data) t.mediamap.rows links) : t.joined = links := by
  unfold joined
  generalize t.mediamap.rows = rows at h ⊢
  induction h with
  | nil => rfl
  | @cons r j rest links hr _ ih =>
    obtain ⟨rfl, ⟨hn, hnid⟩, ⟨hm, hmid⟩⟩ := hr
    have hname := @filter_id_eq _ MediaNameRow.id MediaNameRow.name t.medianame _ hn _ hnid
    have hmedia := @filter_id_eq _ MediaIdRow.id MediaIdRow.mediauniqueid t.mediaids _ hm _ hmid
    rw [List.flatMap_cons, ih, hname, List.flatMap_singleton, hmedia]
    rfl

theorem resolves_joined (t : Media) :
    List.Forall₂ (Resolves t.data) t.mediamap.rows t.joined := by
  have hall : ∀ rows : List MediaMapRow, (∀ r ∈ rows, r ∈ t.mediamap.rows) →
      ∃ links, List.Forall₂ (Resolves t.data) rows links := by
    intro rows
    induction rows with
    | nil => exact fun _ => ⟨[], .nil⟩
    | cons r rest ih =>
      intro hrows
      obtain ⟨links, hlinks⟩ := ih fun q hq => hrows q (List.mem_cons_of_mem _ hq)
      obtain ⟨n, hn, hnid⟩ := t.name_key r (hrows r List.mem_cons_self)
      obtain ⟨m, hm, hmid⟩ := t.media_key r (hrows r List.mem_cons_self)
      exact ⟨(r, n, m) :: links, .cons ⟨rfl, ⟨hn, hnid.symm⟩, ⟨hm, hmid.symm⟩⟩ hlinks⟩
  obtain ⟨links, hlinks⟩ := hall t.mediamap.rows fun _ hr => hr
  rwa [joined_eq hlinks]

theorem mem_mediaids_of_joined {j : Link} (hj : j ∈ t.joined) : j.2.2 ∈ t.mediaids.rows := by
  obtain ⟨r, _, hr⟩ := exists_of_forall₂_right t.resolves_joined hj
  exact hr.media.1

-- The links of a media go with it.
theorem joined_deleteMedia (t : Media) (mediaid : Bytes) :
    (t.deleteMedia mediaid).joined = t.joined.filter fun j => j.2.2.mediaid ≠ mediaid := by
  apply joined_eq
  have hresolved := t.resolves_joined
  show List.Forall₂ _ (t.mediamap.rows.filter fun r =>
    !(t.mediaids.rows.any fun m => m.mediaid = mediaid ∧ m.id = r.mediaid)) _
  generalize t.mediamap.rows = rows, t.joined = links at hresolved ⊢
  induction hresolved with
  | nil => exact .nil
  | @cons r j rest links hj _ ih =>
    have hkey : (t.mediaids.rows.any fun m => m.mediaid = mediaid ∧ m.id = r.mediaid) =
        decide (j.2.2.mediaid = mediaid) := by
      rw [Bool.eq_iff_iff, List.any_eq_true, decide_eq_true_eq]
      constructor
      · rintro ⟨m, hm, hgone⟩
        obtain ⟨hgone, hid⟩ := of_decide_eq_true hgone
        have hsame : m = j.2.2 := by
          apply @Table.row_eq_of_entry _ _ _ t.mediaids _ _ (.id m.id) hm hj.media.1
          · simp [MediaIdRow.entries]
          · simp [MediaIdRow.entries, hid, hj.media.2]
        rw [← hsame, hgone]
      · exact fun hgone => ⟨j.2.2, hj.media.1, decide_eq_true ⟨hgone, hj.media.2.symm⟩⟩
    by_cases hgone : j.2.2.mediaid = mediaid
    · rw [List.filter_cons_of_neg (by rw [hkey]; simp [hgone]),
        List.filter_cons_of_neg (by simp [hgone])]
      exact ih
    · rw [List.filter_cons_of_pos (by rw [hkey]; simp [hgone]),
        List.filter_cons_of_pos (by simp [hgone])]
      refine .cons ⟨hj.row, hj.name, ?_, hj.media.2⟩ ih
      exact List.mem_filter.mpr ⟨hj.media.1, by simpa using hgone⟩

end Joined

end Media

end Glider.Db.Sqlite

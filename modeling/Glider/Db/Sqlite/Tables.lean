import Glider.Lib.Table
import Glider.Lib.Word
import Glider.Db.Base

namespace Glider.Db.Sqlite

open Glider.Lib

inductive Value where
  | null
  | int (n : ℤ)
  | text (s : Bytes)
  deriving DecidableEq

abbrev Row := List Value

structure UserRow where
  userid : ℤ
  info : ℤ
  deriving DecidableEq

-- `PRIMARY KEY (userid)` and `owner_singleton ON usermap(info) WHERE info = 0`.
inductive UserEntry where
  | userid (userid : ℤ)
  | owner
  deriving DecidableEq

def UserRow.entries (r : UserRow) : List UserEntry :=
  .userid r.userid :: if r.info = 0 then [.owner] else []

structure MediaIdRow where
  id : ℤ
  mediauniqueid : Bytes
  mediaid : Bytes
  deriving DecidableEq

structure MediaNameRow where
  id : ℤ
  name : Bytes
  deriving DecidableEq

-- An id and a text that are both unique.
inductive IdOrText where
  | id (id : ℤ)
  | text (text : Bytes)
  deriving DecidableEq

def MediaIdRow.entries (r : MediaIdRow) : List IdOrText := [.id r.id, .text r.mediauniqueid]

def MediaNameRow.entries (r : MediaNameRow) : List IdOrText := [.id r.id, .text r.name]

structure MediaMapRow where
  id : ℤ
  medianameid : ℤ
  mediaid : ℤ
  mediatype : ℤ

def MediaMapRow.entries (r : MediaMapRow) : List ℤ := [r.id]

structure ChatRow where
  id : ℤ
  chatid : ℤ
  chatname : Bytes
  deriving DecidableEq

inductive ChatEntry where
  | id (id : ℤ)
  | chatid (chatid : ℤ)
  deriving DecidableEq

def ChatRow.entries (r : ChatRow) : List ChatEntry := [.id r.id, .chatid r.chatid]

-- The three joined tables with their foreign keys. The sequences hold the largest ids ever given.
structure Media where
  mediaids : Table MediaIdRow IdOrText MediaIdRow.entries
  medianame : Table MediaNameRow IdOrText MediaNameRow.entries
  mediamap : Table MediaMapRow ℤ MediaMapRow.entries
  mediaidsSeq : ℕ
  medianameSeq : ℕ
  mediamapSeq : ℕ
  mediaids_le : ∀ r ∈ mediaids.rows, 0 < r.id ∧ r.id ≤ mediaidsSeq
  medianame_le : ∀ r ∈ medianame.rows, 0 < r.id ∧ r.id ≤ medianameSeq
  mediamap_le : ∀ r ∈ mediamap.rows, 0 < r.id ∧ r.id ≤ mediamapSeq
  name_key : ∀ r ∈ mediamap.rows, ∃ n ∈ medianame.rows, n.id = r.medianameid
  media_key : ∀ r ∈ mediamap.rows, ∃ m ∈ mediaids.rows, m.id = r.mediaid

structure Chats where
  chatmap : Table ChatRow ChatEntry ChatRow.entries
  seq : ℕ
  chatmap_le : ∀ r ∈ chatmap.rows, 0 < r.id ∧ r.id ≤ seq

structure Tables where
  usermap : Table UserRow UserEntry UserRow.entries
  media : Media
  chats : Chats

namespace Media

def empty : Media where
  mediaids := .empty
  medianame := .empty
  mediamap := .empty
  mediaidsSeq := 0
  medianameSeq := 0
  mediamapSeq := 0
  mediaids_le := by simp
  medianame_le := by simp
  mediamap_le := by simp
  name_key := by simp
  media_key := by simp

-- `AUTOINCREMENT` never goes beyond the largest 64-bit integer.
def maxId : ℕ := 2 ^ 63 - 1

theorem le_succ_of_le {n : ℤ} {seq : ℕ} (h : 0 < n ∧ n ≤ seq) : 0 < n ∧ n ≤ (seq + 1 : ℕ) := by
  omega

-- `none` stands for an error of the statement, which then changes nothing.
def insertMediaId (t : Media) (mediauniqueid mediaid : Bytes) : Option Media :=
  if t.mediaidsSeq < maxId then
    match h : t.mediaids.insert ⟨t.mediaidsSeq + 1, mediauniqueid, mediaid⟩ with
    | none => none
    | some mediaids =>
      some { t with
        mediaids
        mediaidsSeq := t.mediaidsSeq + 1
        mediaids_le := by
          intro r hr
          rw [Table.insert_eq_some h, List.mem_append, List.mem_singleton] at hr
          rcases hr with hr | rfl
          · exact le_succ_of_le (t.mediaids_le r hr)
          · simp only
            omega
        media_key := by
          intro r hr
          obtain ⟨m, hm, hid⟩ := t.media_key r hr
          exact ⟨m, by rw [Table.insert_eq_some h]; exact List.mem_append_left _ hm, hid⟩ }
  else none

def insertMediaName (t : Media) (name : Bytes) : Option Media :=
  if t.medianameSeq < maxId then
    match h : t.medianame.insert ⟨t.medianameSeq + 1, name⟩ with
    | none => none
    | some medianame =>
      some { t with
        medianame
        medianameSeq := t.medianameSeq + 1
        medianame_le := by
          intro r hr
          rw [Table.insert_eq_some h, List.mem_append, List.mem_singleton] at hr
          rcases hr with hr | rfl
          · exact le_succ_of_le (t.medianame_le r hr)
          · simp only
            omega
        name_key := by
          intro r hr
          obtain ⟨m, hm, hid⟩ := t.name_key r hr
          exact ⟨m, by rw [Table.insert_eq_some h]; exact List.mem_append_left _ hm, hid⟩ }
  else none

-- Both ids have to be there.
def insertMediaMap (t : Media) (mediaid medianameid mediatype : ℤ) : Option Media :=
  if hkeys : t.mediamapSeq < maxId ∧ (∃ n ∈ t.medianame.rows, n.id = medianameid) ∧
      (∃ m ∈ t.mediaids.rows, m.id = mediaid) then
    match h : t.mediamap.insert ⟨t.mediamapSeq + 1, medianameid, mediaid, mediatype⟩ with
    | none => none
    | some mediamap =>
      some { t with
        mediamap
        mediamapSeq := t.mediamapSeq + 1
        mediamap_le := by
          intro r hr
          rw [Table.insert_eq_some h, List.mem_append, List.mem_singleton] at hr
          rcases hr with hr | rfl
          · exact le_succ_of_le (t.mediamap_le r hr)
          · simp only
            omega
        name_key := by
          intro r hr
          rw [Table.insert_eq_some h, List.mem_append, List.mem_singleton] at hr
          rcases hr with hr | rfl
          · exact t.name_key r hr
          · exact hkeys.2.1
        media_key := by
          intro r hr
          rw [Table.insert_eq_some h, List.mem_append, List.mem_singleton] at hr
          rcases hr with hr | rfl
          · exact t.media_key r hr
          · exact hkeys.2.2 }
  else none

-- The rows of `mediamap` go with the rows they refer to.
def deleteMedia (t : Media) (mediaid : Bytes) : Media :=
  { t with
    mediaids := t.mediaids.deleteWhere fun r => r.mediaid = mediaid
    mediamap := t.mediamap.deleteWhere fun r =>
      t.mediaids.rows.any fun m => m.mediaid = mediaid ∧ m.id = r.mediaid
    mediaids_le := fun r hr => t.mediaids_le r (List.mem_of_mem_filter hr)
    mediamap_le := fun r hr => t.mediamap_le r (List.mem_of_mem_filter hr)
    name_key := fun r hr => t.name_key r (List.mem_of_mem_filter hr)
    media_key := by
      intro r hr
      obtain ⟨hr, hkeep⟩ := List.mem_filter.mp hr
      obtain ⟨m, hm, hid⟩ := t.media_key r hr
      refine ⟨m, List.mem_filter.mpr ⟨hm, ?_⟩, hid⟩
      simp only [Bool.not_eq_true', List.any_eq_false, decide_eq_true_eq, not_and] at hkeep
      simpa using fun h => hkeep m hm h hid }

-- `mediamap INNER JOIN medianame ON .. INNER JOIN mediaids ON ..`
def joined (t : Media) : List (MediaMapRow × MediaNameRow × MediaIdRow) :=
  t.mediamap.rows.flatMap fun r =>
    (t.medianame.rows.filter fun n => r.medianameid = n.id).flatMap fun n =>
      (t.mediaids.rows.filter fun m => r.mediaid = m.id).map fun m => (r, n, m)

end Media

namespace Chats

def empty : Chats where
  chatmap := .empty
  seq := 0
  chatmap_le := by simp

def insertChat (t : Chats) (chatid : ℤ) (chatname : Bytes) : Option Chats :=
  if t.seq < Media.maxId then
    match h : t.chatmap.insert ⟨t.seq + 1, chatid, chatname⟩ with
    | none => none
    | some chatmap =>
      some { t with
        chatmap
        seq := t.seq + 1
        chatmap_le := by
          intro r hr
          rw [Table.insert_eq_some h, List.mem_append, List.mem_singleton] at hr
          rcases hr with hr | rfl
          · exact Media.le_succ_of_le (t.chatmap_le r hr)
          · simp only
            omega }
  else none

def deleteChat (t : Chats) (chatid : ℤ) : Chats :=
  { t with
    chatmap := t.chatmap.deleteWhere fun r => r.chatid = chatid
    chatmap_le := fun r hr => t.chatmap_le r (List.mem_of_mem_filter hr) }

end Chats

def Tables.empty : Tables := ⟨.empty, .empty, .empty⟩

end Glider.Db.Sqlite

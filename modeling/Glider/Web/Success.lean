import Glider.Db.Sqlite.Accepted
import Glider.Web.Aliases

namespace Glider.Web

open Glider.Lib Glider.Db
open Bytes (ascii)

namespace Sqlite

open Glider.Db.Sqlite

variable {c : Conn} {name : Bytes} {chatid : ChatId}

-- The lookup of the name that `addChatInfo` makes finds nothing, also because it fails.
def NameUnseen (c : Conn) (name : Bytes) : Prop :=
  c.fault ≠ none ∨ (c.after 1).fault ≠ none ∨
    ∀ r ∈ c.tables.chats.chatmap.rows, r.chatname ≠ name.cstr

-- How many calls of the library that lookup makes.
def lookupCalls (c : Conn) : ℕ := if c.fault.isSome then 1 else 2

-- The states in which the backend carries the operation out.
def Allows (c : Conn) : Operation → Prop
  | .addChatInfo chatid name =>
    NameUnseen c name ∧ (c.after (lookupCalls c)).fault = none ∧
      (c.after (lookupCalls c + 1)).fault = none ∧ c.tables.chats.seq < Media.maxId ∧
      ∀ r ∈ c.tables.chats.chatmap.rows, r.chatid ≠ chatid
  | .deleteChatInfo _ => c.fault = none ∧ (c.after 1).fault = none
  | .addMediaInfo info => Accepts info c
  | .deleteMediaInfo mediaId =>
    c.fault = none ∧ (c.after 1).fault = none ∧
      ∃ r ∈ c.tables.media.mediaids.rows, r.mediaid = mediaId.cstr

theorem getChatId_cases (name : Bytes) (c : Conn) :
    (getChatId name c).2 = c.after (lookupCalls c) ∧
      ((getChatId name c).1 = none ↔ NameUnseen c name) := by
  unfold getChatId NameUnseen lookupCalls
  rw [firstRow_of_rows (eval_findChatId name c.tables)]
  cases hprepare : c.fault with
  | some code => simp
  | none =>
    cases hstep : (c.after 1).fault with
    | some code => simp
    | none =>
      have hrows := c.planner.head?_eq_none (c.calls + 1)
        ((c.tables.chats.chatmap.rows.filter fun r => r.chatname = name.cstr).map
          fun r => [.int r.chatid])
      rw [List.map_eq_nil_iff, List.filter_eq_nil_iff] at hrows
      simp only [decide_eq_true_eq] at hrows
      simp only [Option.isSome_none, Bool.false_eq_true, if_false, ne_eq, not_true_eq_false,
        false_or, ← hrows]
      cases (c.planner.order (c.calls + 1) _).head? <;> simp

theorem insertChat_isSome {t : Chats} {chatname : Bytes} :
    (t.insertChat chatid chatname).isSome ↔
      t.seq < Media.maxId ∧ ∀ r ∈ t.chatmap.rows, r.chatid ≠ chatid := by
  have hfree : t.chatmap.Free ⟨t.seq + 1, chatid, chatname⟩ ↔
      ∀ r ∈ t.chatmap.rows, r.chatid ≠ chatid := by
    rw [Table.free_iff]
    constructor
    · rintro ⟨-, h⟩ r hr heq
      refine h r hr (.chatid r.chatid) ?_ ?_ <;> simp [ChatRow.entries, heq]
    · intro h
      refine ⟨by simp [ChatRow.entries], ?_⟩
      intro r hr e he hmine
      have hid := t.chatmap_le r hr
      simp only [ChatRow.entries, List.mem_cons, List.not_mem_nil, or_false] at he hmine
      rcases hmine with rfl | rfl
      · rcases he with he | he
        · have heq := ChatEntry.id.inj he
          omega
        · cases he
      · rcases he with he | he
        · cases he
        · exact h r hr (ChatEntry.chatid.inj he).symm
  unfold Chats.insertChat
  by_cases hseq : t.seq < Media.maxId
  · rw [if_pos hseq, ← hfree]
    constructor
    · intro h
      split at h
      · cases h
      · rename_i chatmap hinsert
        exact ⟨hseq, Table.free_of_insert hinsert⟩
    · rintro ⟨-, h⟩
      obtain ⟨chatmap, hinsert, -⟩ := Table.insert_of_free h
      split
      · rename_i hnone
        rw [hinsert] at hnone
        cases hnone
      · rfl
  · simp [hseq]

theorem execute_insertChat (name : Bytes) (c : Conn) :
    (execute .insertChat [.int chatid, .text name] c).1 = some true ↔
      c.fault = none ∧ (c.after 1).fault = none ∧ c.tables.chats.seq < Media.maxId ∧
        ∀ r ∈ c.tables.chats.chatmap.rows, r.chatid ≠ chatid := by
  have heval : Script.insertChat.eval ([.int chatid, .text name].map Helper.bound) c.tables =
      inserted ((c.tables.chats.insertChat chatid name.cstr).map fun chats =>
        { c.tables with chats }) := rfl
  rw [← @insertChat_isSome chatid c.tables.chats name.cstr, execute_eq, heval]
  · cases c.fault with
    | some code => simp
    | none =>
      cases (c.after 1).fault with
      | some code => simp
      | none => cases c.tables.chats.insertChat chatid name.cstr <;> simp [inserted]
  · rw [heval]
    intro rows
    cases c.tables.chats.insertChat chatid name.cstr <;> simp [inserted]

theorem succeeds_iff (operation : Operation) (c : Conn) :
    operation.succeeds database c ↔ Allows c operation := by
  cases operation with
  | addChatInfo chatid name =>
    obtain ⟨hafter, hnone⟩ := getChatId_cases name c
    have hinsert := @execute_insertChat chatid name (c.after (lookupCalls c))
    rw [Conn.after_after] at hinsert
    simp only [Operation.succeeds, Allows, database, addChatInfo]
    rw [← hnone]
    generalize getChatId name c = found at hafter ⊢
    obtain ⟨known, c'⟩ := found
    obtain rfl : c' = _ := hafter
    cases known with
    | some _ => simp
    | none =>
      simp only [true_and]
      refine Iff.trans ?_ hinsert
      generalize execute .insertChat [.int chatid, .text name] (c.after (lookupCalls c)) = done
      obtain ⟨answer, c''⟩ := done
      rcases answer with _ | _ | _ <;> simp
  | deleteChatInfo chatId =>
    have heval : Script.deleteChat.eval ([.int chatId].map Helper.bound) c.tables =
        .ok (.changed { c.tables with chats := c.tables.chats.deleteChat chatId }
          (c.tables.chats.chatmap.rows.filter fun r => r.chatid = chatId).length) := rfl
    simp only [Operation.succeeds, Allows, database, deleteChatInfo]
    rw [execute_eq (by rw [heval]; simp), heval]
    cases c.fault with
    | some code => simp
    | none => cases (c.after 1).fault <;> simp
  | addMediaInfo info => exact addMediaInfo_iff
  | deleteMediaInfo mediaId =>
    have heval : Script.deleteMedia.eval ([.text mediaId].map Helper.bound) c.tables =
        .ok (.changed { c.tables with media := c.tables.media.deleteMedia mediaId.cstr }
          (c.tables.media.mediaids.rows.filter fun r => r.mediaid = mediaId.cstr).length) := rfl
    simp only [Operation.succeeds, Allows, database, deleteMediaInfo]
    rw [execute_eq (by rw [heval]; simp), heval]
    cases c.fault with
    | some code => simp
    | none =>
      cases (c.after 1).fault with
      | some code => simp
      | none => simp [List.length_pos_iff_exists_mem]

end Sqlite

namespace Protobuf

open Glider.Db.Protobuf

variable {codec : Codec} {s : ProtoDatabase} {info : Info}

def CanSave (s : ProtoDatabase) (info : Info) : Prop :=
  info.path = kInMemoryDatabase ∨ s.failures s.sequence = none

-- The states in which the backend carries the operation out.
def Allows (s : ProtoDatabase) (operation : Operation) : Prop :=
  ∃ info, s.dbinfo = some info ∧ CanSave s info ∧
    match operation with
    | .addChatInfo chatid _ => ∀ chat ∈ info.object.chatToNames, chat.id ≠ chatid
    | .deleteChatInfo chatId => ∃ chat ∈ info.object.chatToNames, chat.id = chatId
    | .addMediaInfo media => ∀ m ∈ info.object.mediaToNames, m.uniqueId ≠ media.mediaUniqueId
    | .deleteMediaInfo mediaId => ∃ m ∈ info.object.mediaToNames, m.id = mediaId

theorem commit_eq_success {α : Type} {success failure : α} (hne : success ≠ failure)
    (object previous : Database) :
    (s.commit codec info object previous success failure).1 = success ↔ CanSave s info := by
  have hsaved : (persistLocked codec (s.withObject info object)).1 = true ↔ CanSave s info := by
    simp only [persistLocked, ProtoDatabase.withObject, CanSave]
    by_cases hpath : info.path = kInMemoryDatabase
    · simp [hpath]
    · simp only [hpath, if_false, false_or]
      cases s.failures s.sequence with
      | none => simp [saveSnapshot_quiet]
      | some stage => cases stage <;> simp [saveSnapshot]
  simp only [ProtoDatabase.commit, ← hsaved]
  split_ifs with hok
  · simp [hok]
  · simp [hok, hne.symm]

theorem exists_of_findIdx? {α : Type} {p : α → Prop} [DecidablePred p] {l : List α} {i : ℕ}
    (h : l.findIdx? (fun a => decide (p a)) = some i) : ∃ a ∈ l, p a := by
  obtain ⟨hi, hp, -⟩ := List.findIdx?_eq_some_iff_getElem.mp h
  exact ⟨_, List.getElem_mem hi, of_decide_eq_true hp⟩

theorem not_exists_of_findIdx? {α : Type} {p : α → Prop} [DecidablePred p] {l : List α}
    (h : l.findIdx? (fun a => decide (p a)) = none) : ¬∃ a ∈ l, p a := fun ⟨a, ha, hp⟩ =>
  of_decide_eq_false (List.findIdx?_eq_none_iff.mp h a ha) hp

theorem succeeds_iff (operation : Operation) (s : ProtoDatabase) :
    operation.succeeds (database codec) s ↔ Allows s operation := by
  unfold Allows
  cases hs : s.dbinfo with
  | none =>
    cases operation <;> simp [Operation.succeeds, database, addChatInfo, deleteChatInfo,
      addMediaInfo, deleteMediaInfo, hs]
  | some info =>
    simp only [Option.some.injEq, exists_eq_left']
    cases operation with
    | addChatInfo chatid name =>
      simp only [Operation.succeeds, database, addChatInfo, hs]
      split_ifs with hknown
      · obtain ⟨chat, hchat, hid⟩ := List.any_eq_true.mp hknown
        refine iff_of_false (by simp) fun h => h.2 chat hchat (of_decide_eq_true hid)
      · rw [commit_eq_success (by simp)]
        refine (and_iff_left ?_).symm
        intro chat hchat hid
        exact hknown (List.any_eq_true.mpr ⟨chat, hchat, decide_eq_true hid⟩)
    | deleteChatInfo chatId =>
      simp only [Operation.succeeds, database, deleteChatInfo, hs]
      cases hfound : info.object.chatToNames.findIdx? fun c => decide (c.id = chatId) with
      | none => exact iff_of_false (by simp) fun h => not_exists_of_findIdx? hfound h.2
      | some i =>
        simp only
        rw [commit_eq_success (by simp)]
        exact (and_iff_left (exists_of_findIdx? hfound)).symm
    | addMediaInfo media =>
      simp only [Operation.succeeds, database, addMediaInfo, hs]
      split_ifs with hknown
      · obtain ⟨m, hm, hid⟩ := List.any_eq_true.mp hknown
        refine iff_of_false (by simp) fun h => h.2 m hm (of_decide_eq_true hid)
      · rw [commit_eq_success (by simp)]
        refine (and_iff_left ?_).symm
        intro m hm hid
        exact hknown (List.any_eq_true.mpr ⟨m, hm, decide_eq_true hid⟩)
    | deleteMediaInfo mediaId =>
      simp only [Operation.succeeds, database, deleteMediaInfo, hs]
      cases hfound : info.object.mediaToNames.findIdx? fun m => decide (m.id = mediaId) with
      | none => exact iff_of_false (by simp) fun h => not_exists_of_findIdx? hfound h.2
      | some i =>
        simp only
        rw [commit_eq_success (by simp)]
        exact (and_iff_left (exists_of_findIdx? hfound)).symm

end Protobuf

-- A handler reports success whenever the call of the service is answered, so it is honest exactly
-- when an operation that it asks for is one the database carries out.
theorem success_honest_iff (codec : Db.Protobuf.Codec) (parse : Bytes → Option Json) (route : Route)
    (rpc : Rpc) (req : Request) :
    (∀ s, (handle Db.Sqlite.database parse route rpc req s).Honest ↔
      (rpc = .answered → ∀ operation, asked parse route req = some operation →
        s.loaded = true ∧ Sqlite.Allows s.databaseImpl operation)) ∧
    ∀ s, (handle (Db.Protobuf.database codec) parse route rpc req s).Honest ↔
      (rpc = .answered → ∀ operation, asked parse route req = some operation →
        s.loaded = true ∧ Protobuf.Allows s.databaseImpl operation) := by
  constructor
  · intro s
    simp only [handle_honest_iff, Sqlite.succeeds_iff]
  · intro s
    simp only [handle_honest_iff, Protobuf.succeeds_iff]

-- The chat 7 does not exist; the service answers "not found".
theorem missing_chat_deleted :
    ¬∀ (parse : Bytes → Option Json) (route : Route) (rpc : Rpc) (req : Request)
      (s : TgBotDatabaseImpl Db.Protobuf.ProtoDatabase),
      (handle (Db.Protobuf.database Db.Protobuf.sampleCodec) parse route rpc req s).Honest := by
  intro h
  have hbad := h (fun _ => none) .chatDelete .answered ⟨some (ascii "7"), none, []⟩
    ⟨true, .fresh Db.Protobuf.kInMemoryDatabase .empty 1 0 fun _ => none⟩ ⟨OK_200, rfl⟩
  revert hbad
  decide

end Glider.Web

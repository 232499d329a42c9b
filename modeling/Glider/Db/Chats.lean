import Mathlib.Data.List.Pairwise
import Glider.Db.Persist
import Glider.Db.Sqlite.Backend

namespace Glider.Db

open Glider.Lib

-- The registry as the backend shows it, with the comparison of names that its `getChatId` makes.
structure Bijective {σ : Type} (db : DatabaseBase σ) (sameName : Bytes → Bytes → Prop) (s : σ) :
    Prop where
  ids : ((db.getAllChatInfos s).1.map ChatInfo.chatId).Nodup
  names : (db.getAllChatInfos s).1.Pairwise fun a b => ¬sameName a.name b.name
  inverse : ∀ id name, (db.getChatName id s).1 = some name → (db.getChatId name s).1 = some id

namespace Sqlite

variable {c : Conn}

-- The names as they are stored. Nothing in the table itself keeps them apart.
structure Named (c : Conn) : Prop where
  quiet : c.Quiet
  nulFree : ∀ r ∈ c.tables.chats.chatmap.rows, r.chatname.NulFree
  names : c.tables.chats.chatmap.rows.Pairwise fun r q => r.chatname ≠ q.chatname

section Lookup

theorem eval_findChatId (name : Bytes) (t : Tables) :
    Script.findChatId.eval ([.text name].map Helper.bound) t =
      .ok (.rows ((t.chats.chatmap.rows.filter fun r => r.chatname = name.cstr).map
        fun r => [.int r.chatid])) := by
  simp only [Script.eval, List.map_cons, List.map_nil, Helper.bound, List.getD_cons_zero,
    Value.text.injEq]

variable (h : c.Quiet)
include h

theorem getChatId_quiet (name : Bytes) :
    getChatId name c = (((c.planner.order (c.calls + 1)
      ((c.tables.chats.chatmap.rows.filter fun r => r.chatname = name.cstr).map fun r =>
        [.int r.chatid])).head?).map fun row => Row.getInt64 row 0, c.after 2) := by
  rw [getChatId, firstRow_quiet h (eval_findChatId name c.tables)]
  cases (c.planner.order (c.calls + 1) _).head? <;> rfl

theorem getChatName_quiet (chatId : ChatId) :
    getChatName chatId c = (((c.planner.order (c.calls + 1)
      ((c.tables.chats.chatmap.rows.filter fun r => r.chatid = chatId).map fun r =>
        [.text r.chatname])).head?).map fun row => Row.getString row 0, c.after 2) := by
  have heval : Script.findChatName.eval ([.int chatId].map Helper.bound) c.tables =
      .ok (.rows ((c.tables.chats.chatmap.rows.filter fun r => r.chatid = chatId).map
        fun r => [.text r.chatname])) := by
    simp only [Script.eval, List.map_cons, List.map_nil, Helper.bound, List.getD_cons_zero,
      Value.int.injEq]
  rw [getChatName, firstRow_quiet h heval]
  cases (c.planner.order (c.calls + 1) _).head? <;> rfl

theorem getAllChatInfos_perm :
    (getAllChatInfos c).1.Perm (c.tables.chats.chatmap.rows.map fun r =>
      ⟨r.chatid, r.chatname.cstr⟩) := by
  have heval : Script.findAllChatMap.eval ([].map Helper.bound) c.tables =
      .ok (.rows (c.tables.chats.chatmap.rows.map fun r => [.int r.chatid, .text r.chatname])) :=
    rfl
  rw [getAllChatInfos, allRows_of_rows h heval]
  have hperm := (c.planner.perm (c.calls + 1)
    (c.tables.chats.chatmap.rows.map fun r => [.int r.chatid, .text r.chatname])).map
    fun row => (⟨Row.getInt64 row 0, Row.getString row 1⟩ : ChatInfo)
  rw [List.map_map] at hperm
  exact hperm

theorem getChatId_eq_none {name : Bytes} (hnone : (getChatId name c).1 = none) :
    ∀ r ∈ c.tables.chats.chatmap.rows, r.chatname ≠ name.cstr := by
  rw [getChatId_quiet h, Option.map_eq_none_iff, Planner.head?_eq_none, List.map_eq_nil_iff,
    List.filter_eq_nil_iff] at hnone
  intro r hr hname
  exact hnone r hr (decide_eq_true hname)

end Lookup

theorem Named.bijective (h : Named c) : Bijective database (· = ·) c := by
  have hall := getAllChatInfos_perm h.quiet
  refine ⟨?_, ?_, ?_⟩
  · show ((getAllChatInfos c).1.map ChatInfo.chatId).Nodup
    rw [(hall.map ChatInfo.chatId).nodup_iff, List.map_map]
    refine List.Nodup.of_map ChatEntry.chatid ?_
    rw [List.map_map]
    apply c.tables.chats.chatmap.nodup_map_entry
    intro r
    simp [ChatRow.entries]
  · show (getAllChatInfos c).1.Pairwise fun a b => a.name ≠ b.name
    rw [hall.pairwise_iff Ne.symm, List.pairwise_map]
    refine h.names.imp_of_mem ?_
    intro r q hr hq hne
    rwa [Bytes.cstr_of_nulFree (h.nulFree r hr), Bytes.cstr_of_nulFree (h.nulFree q hq)]
  · intro id name hname
    change (getChatName id c).1 = some name at hname
    show (getChatId name c).1 = some id
    rw [getChatName_quiet h.quiet, Option.map_eq_some_iff] at hname
    obtain ⟨row, hrow, hstored⟩ := hname
    obtain ⟨r, hr, rfl⟩ := List.mem_map.mp (c.planner.mem_of_head? hrow)
    obtain ⟨hr, hid⟩ := List.mem_filter.mp hr
    have hchatname : r.chatname = name := by
      rw [← hstored]
      exact (Bytes.cstr_of_nulFree (h.nulFree r hr)).symm
    have hnul : name.cstr = name := Bytes.cstr_of_nulFree (hchatname ▸ h.nulFree r hr)
    rw [getChatId_quiet h.quiet, hnul]
    cases hfound : (c.planner.order (c.calls + 1)
        ((c.tables.chats.chatmap.rows.filter fun r => r.chatname = name).map fun r =>
          [.int r.chatid])).head? with
    | none =>
      rw [Planner.head?_eq_none, List.map_eq_nil_iff, List.filter_eq_nil_iff] at hfound
      exact absurd (decide_eq_true hchatname) (hfound r hr)
    | some row =>
      obtain ⟨q, hq, rfl⟩ := List.mem_map.mp (c.planner.mem_of_head? hfound)
      obtain ⟨hq, hqname⟩ := List.mem_filter.mp hq
      -- two rows of one name are one row
      have hsame : q = r := by
        by_contra hne
        have hsymm : Std.Symm fun r q : ChatRow => r.chatname ≠ q.chatname :=
          ⟨fun _ _ h => h.symm⟩
        exact h.names.forall hq hr hne ((of_decide_eq_true hqname).trans hchatname.symm)
      rw [hsame]
      exact congrArg some (of_decide_eq_true hid)

theorem insertChat_eq_some {t t' : Chats} {chatid : ℤ} {chatname : Bytes}
    (h : t.insertChat chatid chatname = some t') :
    t'.chatmap.rows = t.chatmap.rows ++ [⟨t.seq + 1, chatid, chatname⟩] := by
  unfold Chats.insertChat at h
  split at h
  · split at h
    · cases h
    · rename_i chatmap hinsert
      obtain rfl := Option.some.inj h
      exact Table.insert_eq_some hinsert
  · cases h

theorem named_addChatInfo (h : Named c) (chatid : ChatId) (name : Bytes) :
    Named (addChatInfo chatid name c).2 := by
  have hfound := getChatId_quiet h.quiet name
  have hnone := @getChatId_eq_none c h.quiet name
  have hafter : Named (c.after 2) := ⟨h.quiet, h.nulFree, h.names⟩
  unfold addChatInfo
  generalize getChatId name c = found at hfound hnone ⊢
  obtain ⟨known, c'⟩ := found
  obtain rfl : c' = c.after 2 := congrArg Prod.snd hfound
  cases known with
  | some _ => exact hafter
  | none =>
    have heval : Script.insertChat.eval ([.int chatid, .text name].map Helper.bound)
        (c.after 2).tables =
          inserted ((c.tables.chats.insertChat chatid name.cstr).map fun chats =>
            { c.tables with chats }) := rfl
    cases hinsert : c.tables.chats.insertChat chatid name.cstr with
    | none =>
      rw [hinsert] at heval
      simp only [execute_quiet_error hafter.quiet heval]
      exact ⟨h.quiet, h.nulFree, h.names⟩
    | some chats =>
      rw [hinsert] at heval
      simp only [execute_quiet hafter.quiet heval]
      have hrows := insertChat_eq_some hinsert
      refine ⟨h.quiet, ?_, ?_⟩
      · intro r hr
        simp only [hrows, List.mem_append, List.mem_singleton] at hr
        rcases hr with hr | rfl
        · exact h.nulFree r hr
        · exact Bytes.nulFree_cstr name
      · simp only [hrows]
        refine List.pairwise_append.mpr ⟨h.names, List.pairwise_singleton _ _, ?_⟩
        intro r hr q hq
        rw [List.mem_singleton.mp hq]
        exact hnone rfl r hr

theorem named_step (h : Named c) (call : ChatCall) : Named (chatStep database c call).2 := by
  cases call with
  | addChatInfo chatid name => exact named_addChatInfo h chatid name
  | deleteChatInfo chatId =>
    have heval : Script.deleteChat.eval ([.int chatId].map Helper.bound) c.tables =
        .ok (.changed { c.tables with chats := c.tables.chats.deleteChat chatId }
          (c.tables.chats.chatmap.rows.filter fun r => r.chatid = chatId).length) := rfl
    simp only [chatStep, database, deleteChatInfo, execute_quiet h.quiet heval]
    exact ⟨h.quiet, fun r hr => h.nulFree r (List.mem_of_mem_filter hr),
      h.names.filter _⟩

end Sqlite

namespace Protobuf

variable {codec : Codec} {s : ProtoDatabase} {info : Info}

-- The chats with the names they were given.
def registry (s : ProtoDatabase) : List ChatInfo := (getAllChatInfos s).1

def SameName (a b : Bytes) : Prop := a.equalsIgnoreCase b = true

instance (a b : Bytes) : Decidable (SameName a b) := inferInstanceAs (Decidable (_ = _))

-- A chat that is new brings a name that is new.
def NewName (s : ProtoDatabase) : ChatCall → Prop
  | .addChatInfo chatid name =>
    (∀ chat ∈ registry s, chat.chatId ≠ chatid) → ∀ chat ∈ registry s, ¬SameName chat.name name
  | .deleteChatInfo _ => True

theorem registry_eq (hs : s.dbinfo = some info) :
    registry s = info.object.chatToNames.map fun c => ⟨c.id, c.chatName⟩ := by
  simp only [registry, getAllChatInfos, hs, Option.map_some, Option.getD_some]

theorem getChatName_eq (s : ProtoDatabase) (chatId : ChatId) :
    (getChatName chatId s).1 =
      ((registry s).find? (·.chatId = chatId)).map ChatInfo.name := by
  unfold registry getAllChatInfos getChatName
  cases s.dbinfo with
  | none => rfl
  | some info =>
    simp only [Option.bind_some, Option.map_some, Option.getD_some, List.find?_map,
      Option.map_map]
    rfl

theorem getChatId_eq (s : ProtoDatabase) (name : Bytes) :
    (getChatId name s).1 =
      ((registry s).find? fun chat => chat.name.equalsIgnoreCase name).map ChatInfo.chatId := by
  unfold registry getAllChatInfos getChatId
  cases s.dbinfo with
  | none => rfl
  | some info =>
    simp only [Option.bind_some, Option.map_some, Option.getD_some, List.find?_map,
      Option.map_map]
    rfl

theorem bijective_iff : Bijective (database codec) SameName s ↔
    ((registry s).map ChatInfo.chatId).Nodup ∧
      (registry s).Pairwise fun a b => ¬SameName a.name b.name := by
  refine ⟨fun h => ⟨h.ids, h.names⟩, fun ⟨hids, hnames⟩ => ⟨hids, hnames, ?_⟩⟩
  intro id name hname
  change (getChatName id s).1 = some name at hname
  show (getChatId name s).1 = some id
  rw [getChatName_eq, Option.map_eq_some_iff] at hname
  obtain ⟨chat, hchat, rfl⟩ := hname
  have hmem := List.mem_of_find?_eq_some hchat
  have hid : chat.chatId = id := by simpa using List.find?_some hchat
  have hfound : ((registry s).find? fun c => c.name.equalsIgnoreCase chat.name).isSome :=
    List.find?_isSome.mpr ⟨chat, hmem, Bytes.equalsIgnoreCase_refl chat.name⟩
  obtain ⟨first, hfirst⟩ := Option.isSome_iff_exists.mp hfound
  -- the first chat of that name is the only one
  have hsame : first = chat := by
    by_contra hne
    have hsymm : Std.Symm fun a b : ChatInfo => ¬SameName a.name b.name := by
      refine ⟨fun a b hab hba => hab ?_⟩
      exact Bytes.equalsIgnoreCase_iff.mpr (Bytes.equalsIgnoreCase_iff.mp hba).symm
    have hname : SameName first.name chat.name := by
      have hfound := List.find?_some hfirst
      exact hfound
    exact hnames.forall (List.mem_of_find?_eq_some hfirst) hmem hne hname
  rw [getChatId_eq, hfirst, hsame, Option.map_some, hid]

-- Without failures a call appends one chat, takes one away or does nothing.
theorem registry_addChatInfo (h : Good s) (chatid : ChatId) (name : Bytes) :
    registry (addChatInfo codec chatid name s).2 =
      if ∃ chat ∈ registry s, chat.chatId = chatid then registry s
      else registry s ++ [⟨chatid, name⟩] := by
  obtain ⟨info, hs⟩ := Option.isSome_iff_exists.mp h.loaded
  have hknown : (info.object.chatToNames.any fun c => decide (c.id = chatid)) = true ↔
      ∃ chat ∈ registry s, chat.chatId = chatid := by
    simp [registry_eq hs]
  simp only [addChatInfo, hs, hknown]
  split_ifs
  · rfl
  · obtain ⟨-, hinfo, -⟩ := @commit_quiet codec s _ h.quiet info
      { info.object with chatToNames := info.object.chatToNames ++ [⟨some chatid, some name⟩] }
      info.object AddResult.OK .BACKEND_ERROR
    rw [registry_eq hinfo, registry_eq hs, List.map_append]
    rfl

theorem registry_deleteChatInfo (h : Good s) (chatId : ChatId) :
    (registry (deleteChatInfo codec chatId s).2).Sublist (registry s) := by
  obtain ⟨info, hs⟩ := Option.isSome_iff_exists.mp h.loaded
  simp only [deleteChatInfo, hs]
  cases hfound : info.object.chatToNames.findIdx? fun c => decide (c.id = chatId) with
  | none => exact .refl _
  | some i =>
    obtain ⟨-, hinfo, -⟩ := @commit_quiet codec s _ h.quiet info
      { info.object with chatToNames := info.object.chatToNames.eraseIdx i } info.object
      true false
    rw [registry_eq hinfo, registry_eq hs]
    exact (List.eraseIdx_sublist _ _).map _

theorem good_chatStep (h : Good s) (call : ChatCall) :
    Good (chatStep (database codec) s call).2 := by
  obtain ⟨info, hs⟩ := Option.isSome_iff_exists.mp h.loaded
  cases call with
  | addChatInfo chatid name =>
    simp only [chatStep, database, addChatInfo, hs]
    split_ifs
    · exact h
    · exact (commit_quiet h.quiet ..).2.2
  | deleteChatInfo chatId =>
    simp only [chatStep, database, deleteChatInfo, hs]
    split
    · exact (commit_quiet h.quiet ..).2.2
    · exact h

-- A step keeps the registry a bijection exactly when it brings no name in other letters.
theorem bijective_step_iff (h : Good s) (hb : Bijective (database codec) SameName s)
    (call : ChatCall) :
    Bijective (database codec) SameName (chatStep (database codec) s call).2 ↔
      NewName s call := by
  rw [bijective_iff] at hb ⊢
  obtain ⟨hids, hnames⟩ := hb
  cases call with
  | addChatInfo chatid name =>
    simp only [chatStep, database, registry_addChatInfo h, NewName]
    split_ifs with hknown
    · obtain ⟨chat, hchat, hid⟩ := hknown
      exact ⟨fun _ hnew => absurd hid (hnew chat hchat), fun _ => ⟨hids, hnames⟩⟩
    · have hnew : ∀ chat ∈ registry s, chat.chatId ≠ chatid := by
        intro chat hchat hid
        exact hknown ⟨chat, hchat, hid⟩
      rw [List.pairwise_append]
      constructor
      · rintro ⟨-, -, -, hapart⟩ -
        exact fun chat hchat => hapart chat hchat _ (List.mem_singleton.mpr rfl)
      · intro hapart
        refine ⟨?_, hnames, List.pairwise_singleton _ _, ?_⟩
        · rw [List.map_append, List.nodup_append']
          refine ⟨hids, List.nodup_singleton _, List.disjoint_singleton.mpr ?_⟩
          intro hmem
          obtain ⟨chat, hchat, hid⟩ := List.mem_map.mp hmem
          exact hnew chat hchat hid
        · intro chat hchat other hother
          rw [List.mem_singleton.mp hother]
          exact hapart hnew chat hchat
  | deleteChatInfo chatId =>
    have hsub := @registry_deleteChatInfo codec s h chatId
    refine ⟨fun _ => trivial, fun _ => ⟨?_, ?_⟩⟩
    · exact (hsub.map ChatInfo.chatId).nodup hids
    · exact hnames.sublist hsub

end Protobuf

-- One backend keeps the registry a bijection in every run without failures; the other one exactly
-- while every new chat has a new name.
theorem chats_bijective_iff (codec : Protobuf.Codec) (path : Bytes)
    (files : FileStore Bytes UInt8) (pid sequence : ℕ) (planner : Sqlite.Planner)
    (calls : List ChatCall) :
    (chatStep Sqlite.database).Throughout (Bijective Sqlite.database (· = ·))
        (.fresh planner fun _ => none) calls ∧
      ((chatStep (Protobuf.database codec)).Throughout
          (Bijective (Protobuf.database codec) Protobuf.SameName)
          (.fresh path files pid sequence fun _ => none) calls ↔
        (chatStep (Protobuf.database codec)).Always Protobuf.NewName
          (.fresh path files pid sequence fun _ => none) calls) := by
  constructor
  · intro front _
    refine Sqlite.Named.bijective (Machine.run_invariant_of_step ?_ ?_ front)
    · exact fun c call h => Sqlite.named_step h call
    · exact ⟨fun _ => rfl, nofun, List.Pairwise.nil⟩
  · let start := Protobuf.ProtoDatabase.fresh path files pid sequence fun _ => none
    have hstart : Protobuf.Good start := ⟨rfl, fun _ => rfl⟩
    have hempty : Bijective (Protobuf.database codec) Protobuf.SameName start :=
      Protobuf.bijective_iff.mpr ⟨List.nodup_nil, .nil⟩
    have hgood : ∀ front, Protobuf.Good ((chatStep (Protobuf.database codec)).run start front) := by
      intro front
      refine Machine.run_invariant_of_step ?_ hstart front
      exact fun s call h => Protobuf.good_chatStep h call
    rw [← @Machine.throughout_iff_always _ _ _ _ _ (fun s => Protobuf.Good s ∧
      Bijective (Protobuf.database codec) Protobuf.SameName s) _ _ ⟨hstart, hempty⟩]
    · exact ⟨fun h front hf => ⟨hgood front, h front hf⟩, fun h front hf => (h front hf).2⟩
    · intro s call h
      rw [← Protobuf.bijective_step_iff h.1 h.2 call]
      exact ⟨fun h => h.2, fun hb => ⟨Protobuf.good_chatStep h.1 call, hb⟩⟩

-- `a` and `A`: the second chat cannot be found by its own name.
theorem chat_shadowed :
    ¬Bijective (Protobuf.database Protobuf.sampleCodec) Protobuf.SameName
      ((chatStep (Protobuf.database Protobuf.sampleCodec)).run
        (.fresh Protobuf.kInMemoryDatabase .empty 1 0 fun _ => none)
        [.addChatInfo 1 [97], .addChatInfo 2 [65]]) := by
  intro h
  have hfound := h.inverse 2 [65] (by decide)
  exact absurd hfound (by decide)

end Glider.Db

import Glider.Db.MediaAgreement

namespace Glider.Db

open Glider.Lib
open Protobuf (MediaToName)

-- Every call of the interface.
inductive Call where
  | list (call : ListCall)
  | media (call : MediaCall)
  | chat (call : ChatCall)
  | getChatId (name : Bytes)
  | getChatName (chatId : ChatId)
  | getAllChatInfos

inductive Answer where
  | list (answer : ListAnswer)
  | media (answer : MediaAnswer)
  | chat (answer : ChatAnswer)
  | chatId (result : Option ChatId)
  | chatName (result : Option Bytes)
  | chats (result : List ChatInfo)

def step {σ : Type} (db : DatabaseBase σ) : Machine σ Call Answer
  | s, .list call => (.list (listStep db s call).1, (listStep db s call).2)
  | s, .media call => (.media (mediaStep db s call).1, (mediaStep db s call).2)
  | s, .chat call => (.chat (chatStep db s call).1, (chatStep db s call).2)
  | s, .getChatId name => (.chatId (db.getChatId name s).1, (db.getChatId name s).2)
  | s, .getChatName chatId => (.chatName (db.getChatName chatId s).1, (db.getChatName chatId s).2)
  | s, .getAllChatInfos => (.chats (db.getAllChatInfos s).1, (db.getAllChatInfos s).2)

namespace Sqlite

-- The statements that change one of the three tables of the media.
def Script.ChangesMedia : Script → Bool
  | .insertMediaId | .insertMediaName | .insertMediaMap | .deleteMedia => true
  | _ => false

structure Unmoved (c c' : Conn) : Prop where
  media : c'.tables.media = c.tables.media
  saved : c'.saved = c.saved

section Unmoved

variable {c c' c'' : Conn}

theorem Unmoved.refl (c : Conn) : Unmoved c c := ⟨rfl, rfl⟩

theorem Unmoved.trans (h : Unmoved c c') (h' : Unmoved c' c'') : Unmoved c c'' :=
  ⟨h'.media.trans h.media, h'.saved.trans h.saved⟩

theorem media_inserted {made : Option Tables} {t tables : Tables} {changes : ℕ}
    (hmade : ∀ t', made = some t' → t'.media = t.media)
    (h : inserted made = .ok (.changed tables changes)) : tables.media = t.media := by
  cases made with
  | none => cases h
  | some t' =>
    obtain ⟨rfl, -⟩ := Effect.changed.inj (Except.ok.inj h)
    exact hmade t' rfl

theorem media_eval {script : Script} {args : List Value} {t tables : Tables} {changes : ℕ}
    (hscript : script.ChangesMedia = false)
    (h : script.eval args t = .ok (.changed tables changes)) : tables.media = t.media := by
  cases script with
  | insertMediaId | insertMediaName | insertMediaMap | deleteMedia => cases hscript
  | insertUser =>
    simp only [Script.eval] at h
    split at h
    · refine media_inserted (fun t' ht' => ?_) h
      obtain ⟨usermap, -, rfl⟩ := Option.map_eq_some_iff.mp ht'
      rfl
    · cases h
  | insertChat =>
    simp only [Script.eval] at h
    split at h
    · refine media_inserted (fun t' ht' => ?_) h
      obtain ⟨chats, -, rfl⟩ := Option.map_eq_some_iff.mp ht'
      rfl
    · cases h
  | removeUser =>
    obtain ⟨rfl, -⟩ := Effect.changed.inj (Except.ok.inj h)
    rfl
  | deleteChat =>
    simp only [Script.eval] at h
    split at h
    · obtain ⟨rfl, -⟩ := Effect.changed.inj (Except.ok.inj h)
      rfl
    · obtain ⟨rfl, -⟩ := Effect.changed.inj (Except.ok.inj h)
      rfl
  | _ => cases h

theorem kept_unmoved {script : Script} (hscript : script.ChangesMedia = false) :
    Kept script Unmoved where
  trans := Unmoved.trans
  tick := fun _ => ⟨rfl, rfl⟩
  step := fun stmt c hstmt =>
    ⟨(kept_tables (P := fun t t' => t'.media = t.media) (fun _ => rfl) (fun h h' => h'.trans h)
      (media_eval hscript)).step stmt c hstmt, (kept_saved script).step stmt c hstmt⟩

variable {script : Script} {args : List Value}

theorem unmoved_firstRow (hscript : script.ChangesMedia = false) :
    Unmoved c (firstRow script args c).2 := (kept_unmoved hscript).firstRow Unmoved.refl

theorem unmoved_execute (hscript : script.ChangesMedia = false) :
    Unmoved c (execute script args c).2 := (kept_unmoved hscript).execute Unmoved.refl

theorem unmoved_allRows (hscript : script.ChangesMedia = false) :
    Unmoved c (allRows script args c).2 := (kept_unmoved hscript).allRows Unmoved.refl

end Unmoved

section Calls

variable (c : Conn)

theorem unmoved_checkUserInInfo (type : InfoType) (user : UserId) :
    Unmoved c (checkUserInInfo type user c).2 := by
  have hrow := @unmoved_firstRow c .findUser [.int user] rfl
  unfold checkUserInInfo
  generalize firstRow .findUser [.int user] c = found at hrow ⊢
  obtain ⟨row, c'⟩ := found
  rcases row with _ | _ | row <;> exact hrow

theorem unmoved_addUserToInfo (type : InfoType) (user : UserId) :
    Unmoved c (addUserToInfo type user c).2 := by
  have hcheck := unmoved_checkUserInInfo c type user
  unfold addUserToInfo
  generalize checkUserInInfo type user c = checked at hcheck ⊢
  obtain ⟨res, c'⟩ := checked
  cases res with
  | NOT_IN_LIST =>
    have hexecute := @unmoved_execute c' .insertUser [.int user, .int type.number] rfl
    simp only
    generalize execute .insertUser [.int user, .int type.number] c' = done at hexecute ⊢
    obtain ⟨answer, c''⟩ := done
    rcases answer with _ | _ | _ <;> exact hcheck.trans hexecute
  | _ => exact hcheck

theorem unmoved_removeUserFromList (type : ListType) (user : UserId) :
    Unmoved c (removeUserFromList type user c).2 := by
  have hcheck := unmoved_checkUserInInfo c (toInfoType type) user
  unfold removeUserFromList checkUserInList
  generalize checkUserInInfo (toInfoType type) user c = checked at hcheck ⊢
  obtain ⟨res, c'⟩ := checked
  cases res with
  | OK =>
    have hexecute :=
      @unmoved_execute c' .removeUser [.int user, .int (toInfoType type).number] rfl
    simp only
    generalize execute .removeUser [.int user, .int (toInfoType type).number] c' = done
      at hexecute ⊢
    obtain ⟨answer, c''⟩ := done
    rcases answer with _ | _ | _ <;> exact hcheck.trans hexecute
  | _ => exact hcheck

theorem unmoved_getOwnerUserId : Unmoved c (getOwnerUserId c).2 := by
  have hrow := @unmoved_firstRow c .findOwner [] rfl
  unfold getOwnerUserId
  generalize firstRow .findOwner [] c = found at hrow ⊢
  obtain ⟨row, c'⟩ := found
  rcases row with _ | _ | row <;> exact hrow

theorem unmoved_claimOwnerUserId (user : UserId) : Unmoved c (claimOwnerUserId user c).2 := by
  have howner := unmoved_getOwnerUserId c
  unfold claimOwnerUserId
  generalize getOwnerUserId c = found at howner ⊢
  obtain ⟨owner | owner, c'⟩ := found
  · have hadd := unmoved_addUserToInfo c' .OWNER user
    simp only
    generalize addUserToInfo .OWNER user c' = added at hadd ⊢
    obtain ⟨res, c''⟩ := added
    have hsecond := unmoved_getOwnerUserId c''
    cases res with
    | OK | ALREADY_IN_LIST | NOT_IN_LIST => exact howner.trans hadd
    | ALREADY_IN_OTHER_LIST | BACKEND_ERROR =>
      simp only
      generalize getOwnerUserId c'' = again at hsecond ⊢
      obtain ⟨_ | _, last⟩ := again <;> exact (howner.trans hadd).trans hsecond
  · exact howner

theorem unmoved_list (call : ListCall) : Unmoved c (listStep database c call).2 := by
  cases call with
  | addUserToList type user => exact unmoved_addUserToInfo c (toInfoType type) user
  | removeUserFromList type user => exact unmoved_removeUserFromList c type user
  | checkUserInList type user => exact unmoved_checkUserInInfo c (toInfoType type) user
  | claimOwnerUserId user => exact unmoved_claimOwnerUserId c user
  | getOwnerUserId => exact unmoved_getOwnerUserId c

theorem unmoved_queryMediaInfo (str : Bytes) : Unmoved c (queryMediaInfo str c).2 := by
  have hrow := @unmoved_firstRow c .findMediaInfo [.text str] rfl
  unfold queryMediaInfo
  generalize firstRow .findMediaInfo [.text str] c = found at hrow ⊢
  obtain ⟨row, c'⟩ := found
  rcases row with _ | _ | row <;> exact hrow

theorem unmoved_getAllMediaInfos : Unmoved c (getAllMediaInfos c).2 := by
  have hrows := @unmoved_allRows c .findAllMediaMap [] rfl
  unfold getAllMediaInfos
  generalize allRows .findAllMediaMap [] c = found at hrows ⊢
  obtain ⟨rows | rows, c'⟩ := found <;> exact hrows

theorem unmoved_getMediaIds (name : Bytes) : Unmoved c (getMediaIds name c).2 := by
  have hrows := @unmoved_allRows c .findMediaIdsByName [.text name] rfl
  unfold getMediaIds
  generalize allRows .findMediaIdsByName [.text name] c = found at hrows ⊢
  obtain ⟨rows, c'⟩ := found
  rcases rows with _ | _ | _ <;> exact hrows

theorem unmoved_getChatName (chatId : ChatId) : Unmoved c (getChatName chatId c).2 := by
  have hrow := @unmoved_firstRow c .findChatName [.int chatId] rfl
  unfold getChatName
  generalize firstRow .findChatName [.int chatId] c = found at hrow ⊢
  obtain ⟨row, c'⟩ := found
  rcases row with _ | _ | row <;> exact hrow

theorem unmoved_getChatId (name : Bytes) : Unmoved c (getChatId name c).2 := by
  have hrow := @unmoved_firstRow c .findChatId [.text name] rfl
  unfold getChatId
  generalize firstRow .findChatId [.text name] c = found at hrow ⊢
  obtain ⟨row, c'⟩ := found
  rcases row with _ | _ | row <;> exact hrow

theorem unmoved_chat (call : ChatCall) : Unmoved c (chatStep database c call).2 := by
  cases call with
  | addChatInfo chatid name =>
    have hfound := unmoved_getChatId c name
    show Unmoved c (addChatInfo chatid name c).2
    unfold addChatInfo
    generalize getChatId name c = found at hfound ⊢
    obtain ⟨known | known, c'⟩ := found
    · have hexecute := @unmoved_execute c' .insertChat [.int chatid, .text name] rfl
      simp only
      generalize execute .insertChat [.int chatid, .text name] c' = done at hexecute ⊢
      obtain ⟨answer, c''⟩ := done
      rcases answer with _ | _ | _ <;> exact hfound.trans hexecute
    · exact hfound
  | deleteChatInfo chatId =>
    have hexecute := @unmoved_execute c .deleteChat [.int chatId] rfl
    show Unmoved c (deleteChatInfo chatId c).2
    unfold deleteChatInfo
    generalize execute .deleteChat [.int chatId] c = done at hexecute ⊢
    obtain ⟨answer | answer, c'⟩ := done <;> exact hexecute

theorem unmoved_getAllChatInfos : Unmoved c (getAllChatInfos c).2 := by
  have hrows := @unmoved_allRows c .findAllChatMap [] rfl
  unfold getAllChatInfos
  generalize allRows .findAllChatMap [] c = found at hrows ⊢
  obtain ⟨rows | rows, c'⟩ := found <;> exact hrows

-- A failed statement deletes nothing.
theorem deleteMediaInfo_cases (mediaId : Bytes) :
    (deleteMediaInfo mediaId c).2.saved = c.saved ∧
      ((deleteMediaInfo mediaId c).2.tables.media = c.tables.media ∨
        (deleteMediaInfo mediaId c).2.tables.media =
          c.tables.media.deleteMedia mediaId.cstr) := by
  have heval : Script.deleteMedia.eval ([.text mediaId].map Helper.bound) c.tables =
      .ok (.changed { c.tables with media := c.tables.media.deleteMedia mediaId.cstr }
        (c.tables.media.mediaids.rows.filter fun r => r.mediaid = mediaId.cstr).length) := rfl
  unfold deleteMediaInfo
  rw [execute_eq (by rw [heval]; exact nofun), heval]
  cases c.fault with
  | some code => exact ⟨rfl, Or.inl rfl⟩
  | none =>
    cases (c.after 1).fault with
    | some code => exact ⟨rfl, Or.inl rfl⟩
    | none => exact ⟨rfl, Or.inr rfl⟩

end Calls

end Sqlite

-- The same value of the enum under its name, if it has one.
def canonical (info : MediaInfo) : MediaInfo :=
  { info with mediaType := .ofNumber info.mediaType.toNumber }

-- Read on any connection to these tables on which nothing fails.
structure ReadsBack (t t' : Sqlite.Tables) (info : MediaInfo) : Prop where
  all : ∀ before after : Sqlite.Conn, before.Quiet → after.Quiet → before.tables = t →
    after.tables = t' → ((Sqlite.getAllMediaInfos after).1.map shown).Perm
      ((canonical info :: (Sqlite.getAllMediaInfos before).1).map shown)
  ids : ∀ after : Sqlite.Conn, after.Quiet → after.tables = t' → ∀ name ∈ info.names,
    ∃ ids, (Sqlite.getMediaIds name after).1 = some ids ∧ info.mediaId ∈ ids

-- The media is there with all its names, or the three tables are as before.
def Atomic (c : Sqlite.Conn) : Call → Prop
  | .media (.addMediaInfo info) =>
    ((Sqlite.addMediaInfo info c).1 = .OK →
      ReadsBack c.tables (Sqlite.addMediaInfo info c).2.tables info) ∧
    ((Sqlite.addMediaInfo info c).1 ≠ .OK →
      (Sqlite.addMediaInfo info c).2.tables.media = c.tables.media)
  | _ => True

-- No lookup of a name fails so that the transaction ends, and what a call stores is intact.
def Guarded (c : Sqlite.Conn) : Call → Prop
  | .media (.addMediaInfo info) =>
    (c.fault = none → Sqlite.LookupsKeep info c.tick) ∧
      (Sqlite.Reaches info c.tables.media → Sqlite.Intact info c.tables.media)
  | _ => True

section Atomic

variable {t t' : Sqlite.Media} {entries : List MediaToName} {info : MediaInfo}
  {m : Sqlite.MediaIdRow} {links : List Sqlite.Media.Link}

-- The entry of an accepted media.
def entryOf (info : MediaInfo) : MediaToName :=
  ⟨some info.mediaUniqueId, some info.mediaId, info.names, some info.mediaType.toNumber⟩

theorem shown_getAllMediaInfos {c : Sqlite.Conn} (hquiet : c.Quiet)
    (h : Holds c.tables.media entries) :
    ((Sqlite.getAllMediaInfos c).1.map shown).Perm
      ((entries.map fun e => e.info e.names).map shown) := by
  obtain ⟨rows, n, hall, hrows⟩ := Sqlite.getAllMediaInfos_quiet hquiet
  rw [hall]
  exact shown_perm h (Sqlite.merged_foldl rows) hrows

theorem readsBack {tables tables' : Sqlite.Tables} (h : Holds tables.media entries)
    (hshelved : Sqlite.Shelved tables.media tables'.media info m links)
    (htidy : Tidy (entryOf info)) : ReadsBack tables tables' info := by
  constructor
  · rintro before after hbefore hafter rfl rfl
    have hadded : Holds after.tables.media (entries ++ [entryOf info]) :=
      h.add hshelved htidy rfl rfl rfl rfl
    have hold := shown_getAllMediaInfos hbefore h
    have hnew := shown_getAllMediaInfos hafter hadded
    rw [List.map_append, List.map_append] at hnew
    exact hnew.trans ((List.perm_append_singleton _ _).trans (hold.symm.cons _))
  · rintro after hafter rfl name hname
    obtain ⟨ids, n, hids, hperm⟩ := Sqlite.getMediaIds_quiet hafter name
    have hnulFree : name.NulFree := htidy.names name hname
    have hlink : (name, info.mediaType.toNumber) ∈
        links.map fun j => (j.2.1.name, j.1.mediatype) := by
      rw [hshelved.names]
      exact List.mem_map_of_mem (f := fun name => (name, info.mediaType.toNumber)) hname
    obtain ⟨j, hj, hjname⟩ := List.mem_map.mp hlink
    have hmem : info.mediaId ∈ ids := by
      rw [hperm.mem_iff]
      refine List.mem_map.mpr ⟨j, List.mem_filter.mpr ⟨?_, ?_⟩, ?_⟩
      · rw [hshelved.joined]
        exact List.mem_append_right _ hj
      · rw [Bytes.cstr_of_nulFree hnulFree]
        exact decide_eq_true (congrArg Prod.fst hjname)
      · rw [hshelved.own j hj, hshelved.mediaId]
        exact Bytes.cstr_of_nulFree htidy.id
    refine ⟨ids, ?_, hmem⟩
    rw [hids, if_neg (List.ne_nil_of_mem hmem)]

end Atomic

section Runs

-- Between the calls no transaction is open, and the tables hold whole media.
structure Settled (c : Sqlite.Conn) : Prop where
  saved : c.saved = none
  holds : ∃ entries, Holds c.tables.media entries

variable {c c' : Sqlite.Conn}

theorem Settled.unmoved (h : Settled c) (hsame : Sqlite.Unmoved c c') : Settled c' := by
  obtain ⟨entries, hholds⟩ := h.holds
  exact ⟨hsame.saved.trans h.saved, entries, hsame.media ▸ hholds⟩

theorem settled_add (h : Settled c) {info : MediaInfo}
    (hguard : Guarded c (.media (.addMediaInfo info))) :
    Atomic c (.media (.addMediaInfo info)) ∧ Settled (Sqlite.addMediaInfo info c).2 := by
  obtain ⟨hkeeps, hintact⟩ := hguard
  obtain ⟨entries, hholds⟩ := h.holds
  by_cases hok : (Sqlite.addMediaInfo info c).1 = .OK
  · obtain ⟨haccepts, hsaved, -, rows, hadded⟩ := Sqlite.addMediaInfo_ok (Prod.ext hok rfl)
    have hreaches := haccepts.rows.reaches
    have hintact := hintact hreaches
    obtain ⟨links, hshelved⟩ := hadded.shelved hintact hreaches.unused
    have htidy : Tidy (entryOf info) :=
      ⟨hintact.uniqueId, hintact.mediaId, hintact.names, hreaches.some, info.mediaType, rfl⟩
    exact ⟨⟨fun _ => readsBack hholds hshelved htidy, fun hne => absurd hok hne⟩, hsaved, _,
      hholds.add hshelved htidy rfl rfl rfl rfl⟩
  · obtain ⟨hsaved, htables⟩ := Sqlite.addMediaInfo_refused h.saved hkeeps hok
    exact ⟨⟨fun h => absurd h hok, fun _ => congrArg Sqlite.Tables.media htables⟩, hsaved,
      entries, by rwa [htables]⟩

theorem settled_step (call : Call) (h : Settled c) (hguard : Guarded c call) :
    Atomic c call ∧ Settled (step Sqlite.database c call).2 := by
  cases call with
  | list call => exact ⟨trivial, h.unmoved (Sqlite.unmoved_list c call)⟩
  | chat call => exact ⟨trivial, h.unmoved (Sqlite.unmoved_chat c call)⟩
  | getChatId name => exact ⟨trivial, h.unmoved (Sqlite.unmoved_getChatId c name)⟩
  | getChatName chatId => exact ⟨trivial, h.unmoved (Sqlite.unmoved_getChatName c chatId)⟩
  | getAllChatInfos => exact ⟨trivial, h.unmoved (Sqlite.unmoved_getAllChatInfos c)⟩
  | media call =>
    cases call with
    | addMediaInfo info => exact settled_add h hguard
    | queryMediaInfo str => exact ⟨trivial, h.unmoved (Sqlite.unmoved_queryMediaInfo c str)⟩
    | getMediaIds name => exact ⟨trivial, h.unmoved (Sqlite.unmoved_getMediaIds c name)⟩
    | getAllMediaInfos => exact ⟨trivial, h.unmoved (Sqlite.unmoved_getAllMediaInfos c)⟩
    | deleteMediaInfo mediaId =>
      obtain ⟨entries, hholds⟩ := h.holds
      obtain ⟨hsaved, hsame | hdeleted⟩ := Sqlite.deleteMediaInfo_cases c mediaId
      · exact ⟨trivial, h.unmoved ⟨hsame, hsaved⟩⟩
      · refine ⟨trivial, hsaved.trans h.saved,
          entries.filter fun e => e.id ≠ mediaId.cstr, ?_⟩
        show Holds (Sqlite.deleteMediaInfo mediaId c).2.tables.media _
        rw [hdeleted]
        exact hholds.delete mediaId.cstr

end Runs

-- In every run of calls, whichever of them fail: an accepted media reads back with all its names,
-- and a refused one leaves the three tables as they were.
theorem media_atomic (planner : Sqlite.Planner) (faults : ℕ → Option ℤ) (calls : List Call)
    (hguard : (step Sqlite.database).Always Guarded (.fresh planner faults) calls) :
    (step Sqlite.database).Always Atomic (.fresh planner faults) calls :=
  Machine.always_of_invariant (fun _ call => settled_step call) ⟨rfl, [], .nil⟩ hguard

-- Two media share a name, and the call between them fails.
theorem media_atomic_shared :
    (step Sqlite.database).Always Atomic
      (.fresh .rowOrder fun n => if n = 16 then some 5 else none)
      [.media (.addMediaInfo ⟨[109], [117], [[97]], .PHOTO⟩),
        .media (.addMediaInfo ⟨[110], [118], [[97], [98]], .PHOTO⟩),
        .media (.addMediaInfo ⟨[110], [118], [[97], [98]], .PHOTO⟩)] := by
  have hkeeps : ∀ (info : MediaInfo) (c : Sqlite.Conn),
      c.faults = (fun n => if n = 16 then some 5 else none) → Sqlite.LookupsKeep info c := by
    intro info c hfaults _ _ _ _ k _ code hcode
    change c.faults ((c.after 2).calls + 2 * k + 1) = some code at hcode
    simp only [hfaults] at hcode
    split_ifs at hcode
    obtain rfl := Option.some.inj hcode
    rfl
  apply media_atomic
  refine ⟨⟨fun _ => hkeeps _ _ rfl, fun _ => Sqlite.intact_of_room ⟨?_, ?_, ?_⟩ ?_ ?_ ?_⟩,
    ⟨fun _ => hkeeps _ _ rfl, fun _ => Sqlite.intact_of_room ⟨?_, ?_, ?_⟩ ?_ ?_ ?_⟩,
    ⟨fun _ => hkeeps _ _ rfl, fun _ => Sqlite.intact_of_room ⟨?_, ?_, ?_⟩ ?_ ?_ ?_⟩, trivial⟩
  all_goals decide

-- The lookup of the name fails with an I/O error, and the name is stored outside the transaction.
theorem name_left_behind :
    ¬∀ (planner : Sqlite.Planner) (faults : ℕ → Option ℤ) (calls : List Call),
      (step Sqlite.database).Always Atomic (.fresh planner faults) calls := by
  intro h
  have hatomic := (h .rowOrder (fun n => if n = 4 then some Sqlite.SQLITE_IOERR else none)
    [.media (.addMediaInfo ⟨[109], [117], [[97]], .PHOTO⟩)]).1.2
  have hnames := congrArg (fun t : Sqlite.Media => t.medianame.rows) (hatomic (by decide))
  revert hnames
  decide

end Glider.Db

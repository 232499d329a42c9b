import Glider.Lib.Decimal
import Glider.Lib.FileStore
import Glider.Db.Base

namespace Glider.Db.Protobuf

open Glider.Lib
open Decimal (digits)

-- The messages of `TgBotDB.proto`, with the presence of their optional fields.
structure MediaToName where
  telegramMediaUniqueId : Option Bytes
  telegramMediaId : Option Bytes
  names : List Bytes
  mediaType : Option ℤ
  deriving DecidableEq

structure ChatToName where
  telegramChatId : Option ℤ
  name : Option Bytes
  deriving DecidableEq

structure Database where
  ownerId : Option UserId
  whitelist : Option (List UserId)
  blacklist : Option (List UserId)
  mediaToNames : List MediaToName
  chatToNames : List ChatToName
  deriving DecidableEq

def Database.empty : Database := ⟨none, none, none, [], []⟩

-- The generated code that writes and reads a message.
structure Codec where
  serialize : Database → Bytes
  parse : Bytes → Option Database

-- `:memory:` in ASCII.
def kInMemoryDatabase : Bytes := [58, 109, 101, 109, 111, 114, 121, 58]

structure Info where
  object : Database
  path : Bytes

inductive SaveStage where
  | opening
  | serialize
  | flush
  | close
  | fsync
  | rename
  deriving DecidableEq

-- The database with its surroundings: the files and, for each save to come, the stage at which it
-- fails, if any.
structure ProtoDatabase where
  dbinfo : Option Info
  files : FileStore Bytes UInt8
  pid : ℕ
  sequence : ℕ
  failures : ℕ → Option SaveStage

-- `{target}.tmp.{pid}.{sequence}`
def temporarySnapshotPath (target : Bytes) (pid sequence : ℕ) : Bytes :=
  target ++ [46, 116, 109, 112, 46] ++ digits pid ++ [46] ++ digits sequence

-- A save that fails removes its temporary file; the target is replaced by the rename alone.
def saveSnapshot (failure : Option SaveStage) (bytes : Bytes) (temporary target : Bytes)
    (files : FileStore Bytes UInt8) : Bool × FileStore Bytes UInt8 :=
  let files := files.unlink temporary
  if failure = some .opening then (false, files.unlink temporary)
  else
    let files := (files.truncate temporary).2
    if failure = some .serialize then (false, files.unlink temporary)
    else
      let files := files.put temporary bytes
      if failure = some .flush ∨ failure = some .close ∨ failure = some .fsync ∨
          failure = some .rename then
        (false, files.unlink temporary)
      else
        match files.rename temporary target with
        | some files => (true, files)
        | none => (false, files.unlink temporary)

variable (codec : Codec)

def persistLocked (s : ProtoDatabase) : Bool × ProtoDatabase :=
  match s.dbinfo with
  | none => (false, s)
  | some info =>
    if info.path = kInMemoryDatabase then (true, s)
    else
      let saved := saveSnapshot (s.failures s.sequence) (codec.serialize info.object)
        (temporarySnapshotPath info.path s.pid s.sequence) info.path s.files
      (saved.1, { s with files := saved.2, sequence := s.sequence + 1 })

namespace ProtoDatabase

def withObject (s : ProtoDatabase) (info : Info) (object : Database) : ProtoDatabase :=
  { s with dbinfo := some { info with object } }

-- How every mutator ends: the changed object is saved, or put back as `previous`.
def commit {α : Type} (s : ProtoDatabase) (info : Info) (object previous : Database)
    (success failure : α) : α × ProtoDatabase :=
  let saved := persistLocked codec (s.withObject info object)
  if saved.1 then (success, saved.2) else (failure, saved.2.withObject info previous)

end ProtoDatabase

def findByUid (list : List UserId) (uid : UserId) : Option ℕ := list.findIdx? (· = uid)

def getPersonList (object : Database) : ListType → List UserId
  | .WHITELIST => object.whitelist.getD []
  | .BLACKLIST => object.blacklist.getD []

def getOtherPersonList (object : Database) : ListType → List UserId
  | .WHITELIST => getPersonList object .BLACKLIST
  | .BLACKLIST => getPersonList object .WHITELIST

def setPersonList (object : Database) (ids : List UserId) : ListType → Database
  | .WHITELIST => { object with whitelist := some ids }
  | .BLACKLIST => { object with blacklist := some ids }

-- Asking for a list to change makes it present, even when nothing is changed then.
def mutablePersonList (object : Database) (type : ListType) : Database :=
  setPersonList object (getPersonList object type) type

section Lists

def addUserToList (type : ListType) (user : UserId) (s : ProtoDatabase) :
    ListResult × ProtoDatabase :=
  match s.dbinfo with
  | none => (.BACKEND_ERROR, s)
  | some info =>
    if type = .BLACKLIST ∧ info.object.ownerId = some user then (.ALREADY_IN_OTHER_LIST, s)
    else if (findByUid (getOtherPersonList info.object type) user).isSome then
      (.ALREADY_IN_OTHER_LIST, s)
    else
      let object := mutablePersonList info.object type
      let myList := getPersonList object type
      if (findByUid myList user).isSome then (.ALREADY_IN_LIST, s.withObject info object)
      else
        s.commit codec info (setPersonList object (myList ++ [user]) type) object .OK
          .BACKEND_ERROR

def removeUserFromList (type : ListType) (user : UserId) (s : ProtoDatabase) :
    ListResult × ProtoDatabase :=
  match s.dbinfo with
  | none => (.BACKEND_ERROR, s)
  | some info =>
    let object := mutablePersonList info.object type
    let myList := getPersonList object type
    match findByUid myList user with
    | some loc =>
      s.commit codec info (setPersonList object (myList.eraseIdx loc) type) object .OK
        .BACKEND_ERROR
    | none => (.NOT_IN_LIST, s.withObject info object)

-- Not meant for a database that is not loaded, as the other functions below without a check.
def checkUserInList (type : ListType) (user : UserId) (s : ProtoDatabase) :
    ListResult × ProtoDatabase :=
  match s.dbinfo with
  | none => (.BACKEND_ERROR, s)
  | some info =>
    if (findByUid (getPersonList info.object type) user).isSome then (.OK, s)
    else if (findByUid (getOtherPersonList info.object type) user).isSome then
      (.ALREADY_IN_OTHER_LIST, s)
    else (.NOT_IN_LIST, s)

def getOwnerUserId (s : ProtoDatabase) : Option UserId × ProtoDatabase :=
  (s.dbinfo.bind fun info => info.object.ownerId, s)

def claimOwnerUserId (userId : UserId) (s : ProtoDatabase) : OwnerClaimResult × ProtoDatabase :=
  match s.dbinfo with
  | none => (.BACKEND_ERROR, s)
  | some info =>
    if info.object.ownerId.isSome then (.ALREADY_SET, s)
    else if (findByUid (getPersonList info.object .BLACKLIST) userId).isSome then
      (.BACKEND_ERROR, s)
    else
      s.commit codec info { info.object with ownerId := some userId }
        { info.object with ownerId := none } .OK .BACKEND_ERROR

end Lists

section Media

def MediaToName.uniqueId (m : MediaToName) : Bytes := m.telegramMediaUniqueId.getD []

def MediaToName.id (m : MediaToName) : Bytes := m.telegramMediaId.getD []

def MediaToName.type (m : MediaToName) : MediaType := .ofNumber (m.mediaType.getD 0)

def MediaToName.info (m : MediaToName) (names : List Bytes) : MediaInfo :=
  ⟨m.id, m.uniqueId, names, m.type⟩

-- The search goes on after a match: the last one counts.
def queryMediaInfo (str : Bytes) (s : ProtoDatabase) : Option MediaInfo × ProtoDatabase :=
  (s.dbinfo.bind fun info =>
    ((info.object.mediaToNames.filter fun m =>
      m.names.any fun name => name.equalsIgnoreCase str).getLast?).map fun m => m.info [], s)

def addMediaInfo (info : MediaInfo) (s : ProtoDatabase) : AddResult × ProtoDatabase :=
  match s.dbinfo with
  | none => (.BACKEND_ERROR, s)
  | some db =>
    if db.object.mediaToNames.any fun m => m.uniqueId = info.mediaUniqueId then
      (.ALREADY_EXISTS, s)
    else
      s.commit codec db
        { db.object with
          mediaToNames := db.object.mediaToNames ++ [⟨some info.mediaUniqueId,
            some info.mediaId, info.names, some info.mediaType.toNumber⟩] }
        db.object .OK .BACKEND_ERROR

def getAllMediaInfos (s : ProtoDatabase) : List MediaInfo × ProtoDatabase :=
  ((s.dbinfo.map fun info => info.object.mediaToNames.map fun m => m.info m.names).getD [], s)

def deleteMediaInfo (mediaId : Bytes) (s : ProtoDatabase) : Bool × ProtoDatabase :=
  match s.dbinfo with
  | none => (false, s)
  | some info =>
    match info.object.mediaToNames.findIdx? (·.id = mediaId) with
    | some i =>
      s.commit codec info
        { info.object with mediaToNames := info.object.mediaToNames.eraseIdx i } info.object
        true false
    | none => (false, s)

def getMediaIds (name : Bytes) (s : ProtoDatabase) : Option (List Bytes) × ProtoDatabase :=
  (s.dbinfo.bind fun info =>
    let result := info.object.mediaToNames.flatMap fun m =>
      (m.names.filter fun n => n.equalsIgnoreCase name).map fun _ => m.id
    if result = [] then none else some result, s)

end Media

section Chats

def ChatToName.id (c : ChatToName) : ChatId := c.telegramChatId.getD 0

def ChatToName.chatName (c : ChatToName) : Bytes := c.name.getD []

def getChatName (chatId : ChatId) (s : ProtoDatabase) : Option Bytes × ProtoDatabase :=
  (s.dbinfo.bind fun info =>
    (info.object.chatToNames.find? (·.id = chatId)).map ChatToName.chatName, s)

def deleteChatInfo (chatId : ChatId) (s : ProtoDatabase) : Bool × ProtoDatabase :=
  match s.dbinfo with
  | none => (false, s)
  | some info =>
    match info.object.chatToNames.findIdx? (·.id = chatId) with
    | some i =>
      s.commit codec info
        { info.object with chatToNames := info.object.chatToNames.eraseIdx i } info.object
        true false
    | none => (false, s)

def getAllChatInfos (s : ProtoDatabase) : List ChatInfo × ProtoDatabase :=
  ((s.dbinfo.map fun info =>
    info.object.chatToNames.map fun c => ⟨c.id, c.chatName⟩).getD [], s)

def addChatInfo (chatid : ChatId) (name : Bytes) (s : ProtoDatabase) : AddResult × ProtoDatabase :=
  match s.dbinfo with
  | none => (.BACKEND_ERROR, s)
  | some info =>
    if info.object.chatToNames.any fun c => c.id = chatid then (.ALREADY_EXISTS, s)
    else
      s.commit codec info
        { info.object with
          chatToNames := info.object.chatToNames ++ [⟨some chatid, some name⟩] }
        info.object .OK .BACKEND_ERROR

def getChatId (name : Bytes) (s : ProtoDatabase) : Option ChatId × ProtoDatabase :=
  (s.dbinfo.bind fun info =>
    (info.object.chatToNames.find? fun c => c.chatName.equalsIgnoreCase name).map
      ChatToName.id, s)

end Chats

-- `none` when the file is there and cannot be parsed.
def loadObject (files : FileStore Bytes UInt8) (filepath : Bytes) : Option Database :=
  if filepath = kInMemoryDatabase then some .empty
  else
    match files.contents filepath with
    | none => some .empty
    | some bytes => codec.parse bytes

def load (filepath : Bytes) (s : ProtoDatabase) : Bool × ProtoDatabase :=
  match s.dbinfo with
  | some _ => (false, s)
  | none =>
    match loadObject codec s.files filepath with
    | some object => (true, { s with dbinfo := some ⟨object, filepath⟩ })
    | none => (false, s)

def unload (s : ProtoDatabase) : Bool × ProtoDatabase :=
  match s.dbinfo with
  | none => (false, s)
  | some _ =>
    let saved := persistLocked codec s
    if saved.1 then (true, { saved.2 with dbinfo := none }) else (false, saved.2)

def database : DatabaseBase ProtoDatabase where
  addUserToList := addUserToList codec
  removeUserFromList := removeUserFromList codec
  checkUserInList := checkUserInList
  getOwnerUserId := getOwnerUserId
  claimOwnerUserId := claimOwnerUserId codec
  queryMediaInfo := queryMediaInfo
  addMediaInfo := addMediaInfo codec
  getAllMediaInfos := getAllMediaInfos
  deleteMediaInfo := deleteMediaInfo codec
  getMediaIds := getMediaIds
  addChatInfo := addChatInfo codec
  getChatId := getChatId
  getChatName := getChatName
  deleteChatInfo := deleteChatInfo codec
  getAllChatInfos := getAllChatInfos

-- A database just loaded from a path where there is no file, or from memory.
def ProtoDatabase.fresh (path : Bytes) (files : FileStore Bytes UInt8) (pid sequence : ℕ)
    (failures : ℕ → Option SaveStage) : ProtoDatabase :=
  ⟨some ⟨.empty, path⟩, files, pid, sequence, failures⟩

section Spec

variable {codec} {s : ProtoDatabase}

-- A loaded database none of whose saves fails.
structure Good (s : ProtoDatabase) : Prop where
  loaded : s.dbinfo.isSome
  quiet : ∀ n, s.failures n = none

theorem saveSnapshot_quiet (bytes temporary target : Bytes) (files : FileStore Bytes UInt8) :
    (saveSnapshot none bytes temporary target files).1 = true := by
  obtain ⟨moved, hmoved, _⟩ := @FileStore.rename_of_contents _ _ _ _ temporary target bytes
    (((files.unlink temporary).truncate temporary).2.contents_put_self temporary bytes)
  simp only [saveSnapshot, reduceCtorEq, if_false, or_self, hmoved]

theorem commit_quiet {α : Type} (hquiet : ∀ n, s.failures n = none) (info : Info)
    (object previous : Database) (success failure : α) :
    (s.commit codec info object previous success failure).1 = success ∧
      (s.commit codec info object previous success failure).2.dbinfo =
        some { info with object } ∧
      Good (s.commit codec info object previous success failure).2 := by
  have hsaved : persistLocked codec (s.withObject info object) =
      (true, { s.withObject info object with
        files := (persistLocked codec (s.withObject info object)).2.files
        sequence := (persistLocked codec (s.withObject info object)).2.sequence }) := by
    simp only [persistLocked, ProtoDatabase.withObject, hquiet]
    split_ifs
    · rfl
    · rw [saveSnapshot_quiet]
  unfold ProtoDatabase.commit
  rw [hsaved]
  exact ⟨rfl, rfl, rfl, hquiet⟩

end Spec

end Glider.Db.Protobuf

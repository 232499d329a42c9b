import Glider.Db.Sqlite.Helper

namespace Glider.Db.Sqlite

open Glider.Lib

inductive InfoType where
  | OWNER
  | BLACKLIST
  | WHITELIST

def InfoType.number : InfoType → ℤ
  | OWNER => 0
  | BLACKLIST => 1
  | WHITELIST => 2

def toInfoType : ListType → InfoType
  | .BLACKLIST => .BLACKLIST
  | .WHITELIST => .WHITELIST

section Lists

-- A step that fails and a user that is not there look alike.
def checkUserInInfo (type : InfoType) (user : UserId) (c : Conn) : ListResult × Conn :=
  match firstRow .findUser [.int user] c with
  | (none, c) => (.BACKEND_ERROR, c)
  | (some none, c) => (.NOT_IN_LIST, c)
  | (some (some row), c) =>
    (if row.getInt 0 = type.number then .OK else .ALREADY_IN_OTHER_LIST, c)

def checkUserInList (type : ListType) : UserId → Conn → ListResult × Conn :=
  checkUserInInfo (toInfoType type)

def addUserToInfo (type : InfoType) (user : UserId) (c : Conn) : ListResult × Conn :=
  match checkUserInInfo type user c with
  | (.NOT_IN_LIST, c) =>
    match execute .insertUser [.int user, .int type.number] c with
    | (some true, c) => (.OK, c)
    | (_, c) => (.BACKEND_ERROR, c)
  | (.OK, c) => (.ALREADY_IN_LIST, c)
  | (res, c) => (res, c)

def addUserToList (type : ListType) : UserId → Conn → ListResult × Conn :=
  addUserToInfo (toInfoType type)

def removeUserFromList (type : ListType) (user : UserId) (c : Conn) : ListResult × Conn :=
  match checkUserInList type user c with
  | (.OK, c) =>
    match execute .removeUser [.int user, .int (toInfoType type).number] c with
    | (some true, c) => (.OK, c)
    | (_, c) => (.BACKEND_ERROR, c)
  | (res, c) => (res, c)

def getOwnerUserId (c : Conn) : Option UserId × Conn :=
  match firstRow .findOwner [] c with
  | (some (some row), c) => (some (row.getInt64 0), c)
  | (_, c) => (none, c)

def claimOwnerUserId (userId : UserId) (c : Conn) : OwnerClaimResult × Conn :=
  match getOwnerUserId c with
  | (some _, c) => (.ALREADY_SET, c)
  | (none, c) =>
    match addUserToInfo .OWNER userId c with
    | (.OK, c) => (.OK, c)
    | (.ALREADY_IN_LIST, c) => (.ALREADY_SET, c)
    | (.NOT_IN_LIST, c) => (.BACKEND_ERROR, c)
    | (_, c) =>
      match getOwnerUserId c with
      | (some _, c) => (.ALREADY_SET, c)
      | (none, c) => (.BACKEND_ERROR, c)

end Lists

section Transaction

-- A transaction cannot be opened inside another one.
def beginImmediate (c : Conn) : Bool × Conn :=
  if c.fault.isSome ∨ c.saved.isSome then (false, c.tick)
  else (true, { c.tick with saved := some c.tables })

def commit (c : Conn) : Bool × Conn :=
  if c.fault.isSome ∨ c.saved.isNone then (false, c.tick)
  else (true, { c.tick with saved := none })

-- Done by the destructor of a transaction that is still active; nobody looks at its outcome.
def rollback (c : Conn) : Conn := { c with tables := c.saved.getD c.tables, saved := none }

def SQLITE_NOMEM : ℤ := 7

def SQLITE_IOERR : ℤ := 10

def SQLITE_FULL : ℤ := 13

-- The errors of a query with which the library rolls the open transaction back by itself.
def endsTransaction (code : ℤ) : Bool :=
  code % 256 ∈ [SQLITE_NOMEM, SQLITE_IOERR, SQLITE_FULL]

-- The query that comes next is prepared, and its first step fails so.
def givesUp (c : Conn) : Bool := c.fault.isNone && (c.after 1).fault.any endsTransaction

end Transaction

section Media

def queryMediaInfo (str : Bytes) (c : Conn) : Option MediaInfo × Conn :=
  match firstRow .findMediaInfo [.text str] c with
  | (some (some row), c) =>
    (some ⟨row.getString 0, row.getString 1, [], .ofNumber (row.getInt 2)⟩, c)
  | (_, c) => (none, c)

inductive UpdateInfo where
  | INSERT (name : Bytes)
  | USE_EXISTING (id : ℤ)

-- Which names are there already. As for the lists, a failed step counts as "not there", also when
-- the transaction is gone with it.
def findNames : List Bytes → Conn → Option (List UpdateInfo) × Conn
  | [], c => (some [], c)
  | name :: rest, c =>
    match firstRow .findMediaName [.text name] c with
    | (none, c) => (none, c)
    | (some row, after) =>
      let c := if givesUp c then rollback after else after
      let update := match row with
        | some row => UpdateInfo.USE_EXISTING (row.getInt 0)
        | none => .INSERT name
      match findNames rest c with
      | (none, c) => (none, c)
      | (some updates, c) => (some (update :: updates), c)

def insertName (name : Bytes) (c : Conn) : Option ℤ × Conn :=
  match execute .insertMediaName [.text name] c with
  | (some true, c) =>
    match firstRow .findMediaName [.text name] c with
    | (some (some row), c) => (some (row.getInt 0), c)
    | (_, c) => (none, c)
  | (_, c) => (none, c)

def insertNames : List UpdateInfo → Conn → Option (List ℤ) × Conn
  | [], c => (some [], c)
  | update :: rest, c =>
    let inserted := match update with
      | .INSERT name => insertName name c
      | .USE_EXISTING id => (some id, c)
    match inserted with
    | (none, c) => (none, c)
    | (some id, c) =>
      match insertNames rest c with
      | (none, c) => (none, c)
      | (some ids, c) => (some (id :: ids), c)

def insertMaps (mediaIdIndex : ℤ) (type : MediaType) : List ℤ → Conn → Bool × Conn
  | [], c => (true, c)
  | data :: rest, c =>
    match execute .insertMediaMap [.int mediaIdIndex, .int data, .int type.toNumber] c with
    | (some true, c) => insertMaps mediaIdIndex type rest c
    | (_, c) => (false, c)

-- The part of `addMediaInfo` between `BEGIN IMMEDIATE` and `COMMIT`.
def addMediaRows (info : MediaInfo) (c : Conn) : AddResult × Conn :=
  match execute .insertMediaId [.text info.mediaUniqueId, .text info.mediaId] c with
  | (none, c) => (.BACKEND_ERROR, c)
  | (some false, c) => (.ALREADY_EXISTS, c)
  | (some true, c) =>
    match findNames info.names c with
    | (none, c) => (.BACKEND_ERROR, c)
    | (some updates, c) =>
      match insertNames updates c with
      | (none, c) => (.BACKEND_ERROR, c)
      | (some ids, c) =>
        match firstRow .findMediaId [.text info.mediaUniqueId] c with
        | (some (some row), c) =>
          match insertMaps (row.getInt 0) info.mediaType ids c with
          | (true, c) => (.OK, c)
          | (false, c) => (.BACKEND_ERROR, c)
        | (_, c) => (.BACKEND_ERROR, c)

def addMediaInfo (info : MediaInfo) (c : Conn) : AddResult × Conn :=
  if info.names = [] then (.BACKEND_ERROR, c)
  else
    match beginImmediate c with
    | (false, c) => (.BACKEND_ERROR, c)
    | (true, c) =>
      match addMediaRows info c with
      | (.OK, c) =>
        match commit c with
        | (true, c) => (.OK, c)
        | (false, c) => (.BACKEND_ERROR, rollback c)
      | (result, c) => (result, rollback c)

-- The entry of the map for the key of the row gets one more name. The map is kept in the order of
-- its insertions; the order in which the library walks through it is its own.
def mergeRow (row : Row) : List MediaInfo → List MediaInfo
  | [] => [⟨row.getString 0, row.getString 1, [row.getString 2], .ofNumber (row.getInt 3)⟩]
  | info :: rest =>
    if info.mediaId = row.getString 0 ∧ info.mediaUniqueId = row.getString 1 then
      { info with
        names := info.names ++ [row.getString 2]
        mediaType := .ofNumber (row.getInt 3) } :: rest
    else info :: mergeRow row rest

def getAllMediaInfos (c : Conn) : List MediaInfo × Conn :=
  match allRows .findAllMediaMap [] c with
  | (none, c) => ([], c)
  | (some rows, c) => (rows.foldl (fun map row => mergeRow row map) [], c)

def deleteMediaInfo (mediaId : Bytes) (c : Conn) : Bool × Conn :=
  match execute .deleteMedia [.text mediaId] c with
  | (some true, c) => (0 < c.changes, c)
  | (_, c) => (false, c)

def getMediaIds (name : Bytes) (c : Conn) : Option (List Bytes) × Conn :=
  match allRows .findMediaIdsByName [.text name] c with
  | (none, c) => (none, c)
  | (some [], c) => (none, c)
  | (some rows, c) => (some (rows.map fun row => row.getString 0), c)

end Media

section Chats

def getChatName (chatId : ChatId) (c : Conn) : Option Bytes × Conn :=
  match firstRow .findChatName [.int chatId] c with
  | (some (some row), c) => (some (row.getString 0), c)
  | (_, c) => (none, c)

def getChatId (name : Bytes) (c : Conn) : Option ChatId × Conn :=
  match firstRow .findChatId [.text name] c with
  | (some (some row), c) => (some (row.getInt64 0), c)
  | (_, c) => (none, c)

def addChatInfo (chatid : ChatId) (name : Bytes) (c : Conn) : AddResult × Conn :=
  match getChatId name c with
  | (some _, c) => (.ALREADY_EXISTS, c)
  | (none, c) =>
    match execute .insertChat [.int chatid, .text name] c with
    | (some true, c) => (.OK, c)
    | (_, c) => (.BACKEND_ERROR, c)

def deleteChatInfo (chatId : ChatId) (c : Conn) : Bool × Conn :=
  match execute .deleteChat [.int chatId] c with
  | (some ok, c) => (ok, c)
  | (none, c) => (false, c)

def getAllChatInfos (c : Conn) : List ChatInfo × Conn :=
  match allRows .findAllChatMap [] c with
  | (none, c) => ([], c)
  | (some rows, c) => (rows.map fun row => ⟨row.getInt64 0, row.getString 1⟩, c)

end Chats

def database : DatabaseBase Conn where
  addUserToList := addUserToList
  removeUserFromList := removeUserFromList
  checkUserInList := checkUserInList
  getOwnerUserId := getOwnerUserId
  claimOwnerUserId := claimOwnerUserId
  queryMediaInfo := queryMediaInfo
  addMediaInfo := addMediaInfo
  getAllMediaInfos := getAllMediaInfos
  deleteMediaInfo := deleteMediaInfo
  getMediaIds := getMediaIds
  addChatInfo := addChatInfo
  getChatId := getChatId
  getChatName := getChatName
  deleteChatInfo := deleteChatInfo
  getAllChatInfos := getAllChatInfos

end Glider.Db.Sqlite

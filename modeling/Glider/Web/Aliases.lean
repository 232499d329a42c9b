import Glider.Lib.Json
import Glider.Db.Chats

namespace Glider.Web

open Glider.Lib Glider.Db
open Bytes (ascii)
open Decimal (stoll)

section Service

variable {σ : Type} (db : DatabaseBase σ)

-- The database as the service has it: a backend that may not be loaded.
structure TgBotDatabaseImpl (σ : Type) where
  loaded : Bool
  databaseImpl : σ

namespace TgBotDatabaseImpl

-- Every operation of the wrapper: `missing` without a loaded backend.
def guarded {α : Type} (missing : α) (operation : σ → α × σ) (s : TgBotDatabaseImpl σ) :
    α × TgBotDatabaseImpl σ :=
  if s.loaded then
    ((operation s.databaseImpl).1, { s with databaseImpl := (operation s.databaseImpl).2 })
  else (missing, s)

def addChatInfo (chatid : ChatId) (name : Bytes) :
    TgBotDatabaseImpl σ → AddResult × TgBotDatabaseImpl σ :=
  guarded .BACKEND_ERROR (db.addChatInfo chatid name)

def deleteChatInfo (chatid : ChatId) : TgBotDatabaseImpl σ → Bool × TgBotDatabaseImpl σ :=
  guarded false (db.deleteChatInfo chatid)

def addMediaInfo (info : MediaInfo) : TgBotDatabaseImpl σ → AddResult × TgBotDatabaseImpl σ :=
  guarded .BACKEND_ERROR (db.addMediaInfo info)

def deleteMediaInfo (mediaId : Bytes) : TgBotDatabaseImpl σ → Bool × TgBotDatabaseImpl σ :=
  guarded false (db.deleteMediaInfo mediaId)

end TgBotDatabaseImpl

inductive GenericResponseCode where
  | Success
  | TelegramApiException
  | ErrorInvalidArgument
  | ErrorCommandIgnored
  | ErrorRuntimeError
  | ErrorClientError

structure GenericResponse where
  code : GenericResponseCode
  message : String

inductive FileType where
  | UNKNOWN
  | PHOTO
  | VIDEO
  | AUDIO
  | DOCUMENT
  | STICKER
  | GIF
  | DICE

def FileType.number : FileType → ℤ
  | UNKNOWN => 0
  | PHOTO => 1
  | VIDEO => 2
  | AUDIO => 3
  | DOCUMENT => 4
  | STICKER => 5
  | GIF => 6
  | DICE => 99

structure ChatAlias where
  chatId : ChatId
  name : Bytes

structure MediaAlias where
  mediaId : Bytes
  mediaUniqueId : Bytes
  names : List Bytes
  mediaType : FileType

-- What a method of the service leaves behind. `succeeded` is the value that the database operation
-- returned; the status of the reply is always OK.
structure Reply (σ : Type) where
  response : GenericResponse
  succeeded : Bool
  state : TgBotDatabaseImpl σ

def setChatAlias (request : ChatAlias) (s : TgBotDatabaseImpl σ) : Reply σ :=
  match TgBotDatabaseImpl.addChatInfo db request.chatId request.name s with
  | (.OK, s) => ⟨⟨.Success, "Chat alias set successfully"⟩, true, s⟩
  | (.ALREADY_EXISTS, s) =>
    ⟨⟨.ErrorCommandIgnored, "Failed to set chat alias: already exists"⟩, false, s⟩
  | (.BACKEND_ERROR, s) =>
    ⟨⟨.ErrorRuntimeError, "Failed to set chat alias: backend error"⟩, false, s⟩

def deleteChatAlias (chatId : ChatId) (s : TgBotDatabaseImpl σ) : Reply σ :=
  match TgBotDatabaseImpl.deleteChatInfo db chatId s with
  | (true, s) => ⟨⟨.Success, "Chat alias deleted successfully"⟩, true, s⟩
  | (false, s) => ⟨⟨.ErrorCommandIgnored, "Failed to delete chat alias: not found"⟩, false, s⟩

def MediaAlias.info (request : MediaAlias) : MediaInfo :=
  ⟨request.mediaId, request.mediaUniqueId, request.names, .ofNumber request.mediaType.number⟩

def setMediaAlias (request : MediaAlias) (s : TgBotDatabaseImpl σ) : Reply σ :=
  match TgBotDatabaseImpl.addMediaInfo db request.info s with
  | (.OK, s) => ⟨⟨.Success, "Media alias set successfully"⟩, true, s⟩
  | (.ALREADY_EXISTS, s) =>
    ⟨⟨.ErrorCommandIgnored, "Failed to set media alias: already exists"⟩, false, s⟩
  | (.BACKEND_ERROR, s) =>
    ⟨⟨.ErrorRuntimeError, "Failed to set media alias: backend error"⟩, false, s⟩

def deleteMediaAlias (mediaId : Bytes) (s : TgBotDatabaseImpl σ) : Reply σ :=
  match TgBotDatabaseImpl.deleteMediaInfo db mediaId s with
  | (true, s) => ⟨⟨.Success, "Media alias deleted successfully"⟩, true, s⟩
  | (false, s) => ⟨⟨.ErrorCommandIgnored, "Failed to delete media alias: not found"⟩, false, s⟩

end Service

section Requests

-- A request with the parameter that its route takes from the path.
structure Request where
  pathParam : Option Bytes
  contentType : Option Bytes
  body : Bytes

def BadRequest_400 : ℕ := 400

def OK_200 : ℕ := 200

def InternalServerError_500 : ℕ := 500

-- `success` is the member of the body; an answer may have no body at all. An exception that leaves
-- the handler is answered by the HTTP library.
inductive Response where
  | status (code : ℕ)
  | content (code : ℕ) (success : Bool)
  | threw

-- The JSON parser is not part of the repository; `none` is its exception.
variable (parse : Bytes → Option Json)

def acceptAPIRequest (req : Request) : Except ℕ Json :=
  if req.contentType ≠ some (ascii "application/json") then .error BadRequest_400
  else
    match parse req.body with
    | none => .error BadRequest_400
    | some document => .ok document

def fileTypeFromString (type : Bytes) : Option FileType :=
  let newType := type.map Bytes.asciiToLower
  if newType = ascii "photo" then some FileType.PHOTO
  else if newType = ascii "video" then some FileType.VIDEO
  else if newType = ascii "audio" then some FileType.AUDIO
  else if newType = ascii "document" then some FileType.DOCUMENT
  else if newType = ascii "sticker" then some FileType.STICKER
  else if newType = ascii "gif" then some FileType.GIF
  else if newType = ascii "dice" then some FileType.DICE
  else none

-- What the four handlers take from a request before they call the service.
def chatPutRequest (req : Request) : Except Response ChatAlias :=
  match req.pathParam.bind stoll with
  | none => .error (.status BadRequest_400)
  | some chatId =>
    match acceptAPIRequest parse req with
    | .error status => .error (.status status)
    | .ok document =>
      match (document.find (ascii "chat_name")).bind Json.string? with
      | none => .error (.status BadRequest_400)
      | some chatName => .ok ⟨chatId, chatName⟩

def chatDeleteRequest (req : Request) : Except Response ChatId :=
  match req.pathParam.bind stoll with
  | none => .error (.status BadRequest_400)
  | some chatId => .ok chatId

def mediaPutRequest (req : Request) : Except Response MediaAlias :=
  match req.pathParam with
  | none => .error .threw
  | some mediaId =>
    match acceptAPIRequest parse req with
    | .error status => .error (.status status)
    | .ok document =>
      match (document.find (ascii "alias")).bind Json.array? with
      | none => .error (.status BadRequest_400)
      | some items =>
        match Json.getStrings items with
        | .error _ => .error .threw
        | .ok aliases =>
          let mediaType := ((document.find (ascii "media_type")).bind
            Json.string?).bind fileTypeFromString
          match (document.find (ascii "media_unique_id")).bind Json.string? with
          | none => .error (.status BadRequest_400)
          | some mediaUniqueId =>
            match mediaType with
            | none => .error (.status BadRequest_400)
            | some mediaType => .ok ⟨mediaId, mediaUniqueId, aliases, mediaType⟩

def mediaDeleteRequest (req : Request) : Except Response Bytes :=
  match req.pathParam with
  | none => .error .threw
  | some mediaId => .ok mediaId

end Requests

section Handlers

variable {σ : Type} (db : DatabaseBase σ) (parse : Bytes → Option Json)

-- How a call of the service ends for the client. One that fails may have been carried out.
inductive Rpc where
  | answered
  | failed (executed : Bool)

-- What a handler does with one request; `operation` is the value returned by the database operation
-- that was executed for it, if one was.
structure Handled (σ : Type) where
  response : Response
  operation : Option Bool
  state : TgBotDatabaseImpl σ

-- The end of all four handlers: only the status of the call is looked at.
def respond (rpc : Rpc) (method : TgBotDatabaseImpl σ → Reply σ) (s : TgBotDatabaseImpl σ) :
    Handled σ :=
  match rpc with
  | .answered => ⟨.content OK_200 true, some (method s).succeeded, (method s).state⟩
  | .failed true =>
    ⟨.content InternalServerError_500 false, some (method s).succeeded, (method s).state⟩
  | .failed false => ⟨.content InternalServerError_500 false, none, s⟩

def handleWith {ρ : Type} (request : Except Response ρ) (rpc : Rpc)
    (method : ρ → TgBotDatabaseImpl σ → Reply σ) (s : TgBotDatabaseImpl σ) : Handled σ :=
  match request with
  | .error response => ⟨response, none, s⟩
  | .ok request => respond rpc (method request) s

def handleChatPut (rpc : Rpc) (req : Request) : TgBotDatabaseImpl σ → Handled σ :=
  handleWith (chatPutRequest parse req) rpc (setChatAlias db)

def handleChatDelete (rpc : Rpc) (req : Request) : TgBotDatabaseImpl σ → Handled σ :=
  handleWith (chatDeleteRequest req) rpc (deleteChatAlias db)

def handleMediaPut (rpc : Rpc) (req : Request) : TgBotDatabaseImpl σ → Handled σ :=
  handleWith (mediaPutRequest parse req) rpc (setMediaAlias db)

def handleMediaDelete (rpc : Rpc) (req : Request) : TgBotDatabaseImpl σ → Handled σ :=
  handleWith (mediaDeleteRequest req) rpc (deleteMediaAlias db)

inductive Route where
  | chatPut
  | chatDelete
  | mediaPut
  | mediaDelete

def handle (route : Route) : Rpc → Request → TgBotDatabaseImpl σ → Handled σ :=
  match route with
  | .chatPut => handleChatPut db parse
  | .chatDelete => handleChatDelete db
  | .mediaPut => handleMediaPut db parse
  | .mediaDelete => handleMediaDelete db

-- Success is reported only for an operation that was executed and succeeded.
def Handled.Honest (h : Handled σ) : Prop :=
  (∃ code, h.response = .content code true) → h.operation = some true

-- The database operation behind a request.
inductive Operation where
  | addChatInfo (chatid : ChatId) (name : Bytes)
  | deleteChatInfo (chatId : ChatId)
  | addMediaInfo (info : MediaInfo)
  | deleteMediaInfo (mediaId : Bytes)

def Operation.succeeds (s : σ) : Operation → Prop
  | .addChatInfo chatid name => (db.addChatInfo chatid name s).1 = .OK
  | .deleteChatInfo chatId => (db.deleteChatInfo chatId s).1 = true
  | .addMediaInfo info => (db.addMediaInfo info s).1 = .OK
  | .deleteMediaInfo mediaId => (db.deleteMediaInfo mediaId s).1 = true

-- The operation that a request asks for, if the handler takes it.
def asked (route : Route) (req : Request) : Option Operation :=
  match route with
  | .chatPut => (chatPutRequest parse req).toOption.map fun r => .addChatInfo r.chatId r.name
  | .chatDelete => (chatDeleteRequest req).toOption.map .deleteChatInfo
  | .mediaPut => (mediaPutRequest parse req).toOption.map fun r => .addMediaInfo r.info
  | .mediaDelete => (mediaDeleteRequest req).toOption.map .deleteMediaInfo

variable {db parse}

theorem setChatAlias_succeeded (request : ChatAlias) (s : TgBotDatabaseImpl σ) :
    (setChatAlias db request s).succeeded = true ↔
      s.loaded = true ∧ (db.addChatInfo request.chatId request.name s.databaseImpl).1 = .OK := by
  unfold setChatAlias TgBotDatabaseImpl.addChatInfo TgBotDatabaseImpl.guarded
  cases s.loaded with
  | false => simp
  | true =>
    simp only [if_true, true_and]
    cases (db.addChatInfo request.chatId request.name s.databaseImpl).1 <;> simp

theorem deleteChatAlias_succeeded (chatId : ChatId) (s : TgBotDatabaseImpl σ) :
    (deleteChatAlias db chatId s).succeeded = true ↔
      s.loaded = true ∧ (db.deleteChatInfo chatId s.databaseImpl).1 = true := by
  unfold deleteChatAlias TgBotDatabaseImpl.deleteChatInfo TgBotDatabaseImpl.guarded
  cases s.loaded with
  | false => simp
  | true =>
    simp only [if_true, true_and]
    cases (db.deleteChatInfo chatId s.databaseImpl).1 <;> simp

theorem setMediaAlias_succeeded (request : MediaAlias) (s : TgBotDatabaseImpl σ) :
    (setMediaAlias db request s).succeeded = true ↔
      s.loaded = true ∧ (db.addMediaInfo request.info s.databaseImpl).1 = .OK := by
  unfold setMediaAlias TgBotDatabaseImpl.addMediaInfo TgBotDatabaseImpl.guarded
  cases s.loaded with
  | false => simp
  | true =>
    simp only [if_true, true_and]
    cases (db.addMediaInfo request.info s.databaseImpl).1 <;> simp

theorem deleteMediaAlias_succeeded (mediaId : Bytes) (s : TgBotDatabaseImpl σ) :
    (deleteMediaAlias db mediaId s).succeeded = true ↔
      s.loaded = true ∧ (db.deleteMediaInfo mediaId s.databaseImpl).1 = true := by
  unfold deleteMediaAlias TgBotDatabaseImpl.deleteMediaInfo TgBotDatabaseImpl.guarded
  cases s.loaded with
  | false => simp
  | true =>
    simp only [if_true, true_and]
    cases (db.deleteMediaInfo mediaId s.databaseImpl).1 <;> simp

theorem respond_honest_iff (rpc : Rpc) (method : TgBotDatabaseImpl σ → Reply σ)
    (s : TgBotDatabaseImpl σ) :
    (respond rpc method s).Honest ↔ (rpc = .answered → (method s).succeeded = true) := by
  cases rpc with
  | answered => simp [respond, Handled.Honest]
  | failed executed => cases executed <;> simp [respond, Handled.Honest]

-- A request that is turned away is never reported as a success.
def Refuses {ρ : Type} (request : Except Response ρ) : Prop :=
  ∀ response, request = .error response → ∀ code, response ≠ .content code true

theorem handleWith_honest_iff {ρ : Type} {request : Except Response ρ} (hrefuses : Refuses request)
    (rpc : Rpc) (method : ρ → TgBotDatabaseImpl σ → Reply σ) (s : TgBotDatabaseImpl σ) :
    (handleWith request rpc method s).Honest ↔
      (rpc = .answered → ∀ r, request = .ok r → (method r s).succeeded = true) := by
  cases request with
  | error response =>
    have hnone := hrefuses response rfl
    simp [handleWith, Handled.Honest, hnone]
  | ok r =>
    rw [handleWith, respond_honest_iff]
    simp

theorem refuses_chatPutRequest (req : Request) : Refuses (chatPutRequest parse req) := by
  intro response h code
  unfold chatPutRequest at h
  split at h
  · cases h; simp
  · split at h
    · cases h; simp
    · split at h <;> cases h
      simp

theorem refuses_chatDeleteRequest (req : Request) : Refuses (chatDeleteRequest req) := by
  intro response h code
  unfold chatDeleteRequest at h
  split at h <;> cases h
  simp

theorem refuses_mediaPutRequest (req : Request) : Refuses (mediaPutRequest parse req) := by
  intro response h code
  unfold mediaPutRequest at h
  split at h
  · cases h; simp
  · split at h
    · cases h; simp
    · split at h
      · cases h; simp
      · split at h
        · cases h; simp
        · simp only at h
          split at h
          · cases h; simp
          · split at h <;> cases h
            simp

theorem refuses_mediaDeleteRequest (req : Request) : Refuses (mediaDeleteRequest req) := by
  intro response h code
  unfold mediaDeleteRequest at h
  split at h <;> cases h
  simp

theorem toOption_eq_some {ρ ε : Type} {e : Except ε ρ} {r : ρ} :
    e.toOption = some r ↔ e = .ok r := by
  cases e <;> simp [Except.toOption]

-- The handlers look at the status of the call only, so all depends on the operation.
theorem handle_honest_iff (route : Route) (rpc : Rpc) (req : Request) (s : TgBotDatabaseImpl σ) :
    (handle db parse route rpc req s).Honest ↔
      (rpc = .answered → ∀ operation, asked parse route req = some operation →
        s.loaded = true ∧ operation.succeeds db s.databaseImpl) := by
  cases route with
  | chatPut =>
    rw [handle, handleChatPut, handleWith_honest_iff (refuses_chatPutRequest req)]
    simp [asked, setChatAlias_succeeded, Option.map_eq_some_iff, toOption_eq_some,
      Operation.succeeds]
  | chatDelete =>
    rw [handle, handleChatDelete, handleWith_honest_iff (refuses_chatDeleteRequest req)]
    simp [asked, deleteChatAlias_succeeded, Option.map_eq_some_iff, toOption_eq_some,
      Operation.succeeds]
  | mediaPut =>
    rw [handle, handleMediaPut, handleWith_honest_iff (refuses_mediaPutRequest req)]
    simp [asked, setMediaAlias_succeeded, Option.map_eq_some_iff, toOption_eq_some,
      Operation.succeeds]
  | mediaDelete =>
    rw [handle, handleMediaDelete, handleWith_honest_iff (refuses_mediaDeleteRequest req)]
    simp [asked, deleteMediaAlias_succeeded, Option.map_eq_some_iff, toOption_eq_some,
      Operation.succeeds]

end Handlers

end Glider.Web

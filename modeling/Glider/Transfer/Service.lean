import Glider.Lib.Bytes
import Glider.Lib.FileStore
import Glider.Lib.Overwrite
import Glider.Transfer.Validation

namespace Glider.Transfer

open Glider.Lib

-- A `std::filesystem::path` up to its own comparison, which goes element by element: `a//b` and
-- `a/b` are one path, a trailing slash is an empty last element.
structure Path where
  rooted : Bool
  elements : List Bytes
  deriving DecidableEq

namespace Path

def slash : UInt8 := 47

def ofBytes (s : Bytes) : Path :=
  let parts := (s.splitOn slash).filter (· ≠ [])
  ⟨s.head? = some slash,
    if parts ≠ [] ∧ s.getLast? = some slash then parts ++ [[]] else parts⟩

def isEmpty (p : Path) : Bool := !p.rooted && p.elements.isEmpty

-- `p / name` for a name without a slash.
def join (p : Path) (name : Bytes) : Path :=
  ⟨p.rooted,
    (if p.elements.getLast? = some [] then p.elements.dropLast else p.elements) ++ [name]⟩

end Path

abbrev Files := FileStore Path UInt8

-- `std::filesystem::resize_file`; a missing file is an error.
def resizeFile (files : Files) (p : Path) (size : ℕ) : Option Files :=
  (files.names p).map fun i => files.setData i ((files.data i).takeD size 0)

inductive OpenMode where
  | input
  | output
  deriving DecidableEq

-- A `std::fstream`: the open file, its position and the three state bits. A write reaches the
-- file at once, because nothing reads the file before the stream is closed.
structure FStream where
  file : Option ℕ
  mode : OpenMode
  pos : ℕ
  eofbit : Bool
  failbit : Bool
  badbit : Bool
  deriving DecidableEq

namespace FStream

def closed (mode : OpenMode) : FStream := ⟨none, mode, 0, false, false, false⟩

def opened (mode : OpenMode) (i : ℕ) : FStream := ⟨some i, mode, 0, false, false, false⟩

def isOpen (s : FStream) : Bool := s.file.isSome

def fail (s : FStream) : Bool := s.failbit || s.badbit

def good (s : FStream) : Bool := !s.eofbit && !s.fail

-- `open(path, binary | in)`
def openInput (files : Files) (p : Path) : FStream :=
  match files.names p with
  | some i => opened .input i
  | none => { closed .input with failbit := true }

-- `open(path, binary | out)` creates the file or cuts it to nothing.
def openOutput (files : Files) (p : Path) : FStream × Files :=
  (opened .output (files.truncate p).1, (files.truncate p).2)

def close (s : FStream) : FStream :=
  if s.isOpen then { s with file := none } else { s with failbit := true }

-- `seekg` clears `eofbit` first and moves only when neither `failbit` nor `badbit` is left.
def seekg (s : FStream) (off : ℕ) : FStream :=
  if s.fail then { s with eofbit := false, failbit := true }
  else if s.isOpen then { s with eofbit := false, pos := off }
  else { s with eofbit := false, failbit := true }

def seekp (s : FStream) (off : ℕ) : FStream :=
  if s.fail then s
  else if s.isOpen then { s with pos := off }
  else { s with failbit := true }

-- `read(buffer, n)` and `gcount()`. A short read sets `eofbit` and `failbit`.
def read (files : Files) (s : FStream) (n : ℕ) : Bytes × FStream :=
  if s.good then
    match s.file, s.mode with
    | some i, .input =>
      let bytes := ((files.data i).drop s.pos).take n
      let short := decide (bytes.length < n)
      (bytes, { s with pos := s.pos + bytes.length, eofbit := short, failbit := short })
    | _, _ => ([], { s with eofbit := decide (0 < n), failbit := decide (0 < n) })
  else ([], { s with failbit := true })

-- `write` on a stream that was not opened for output sets `badbit`, unless it writes nothing.
def write (files : Files) (s : FStream) (bytes : Bytes) : FStream × Files :=
  if s.good then
    match s.file, s.mode with
    | some i, .output =>
      ({ s with pos := s.pos + bytes.length },
        files.setData i (overwrite 0 (files.data i) s.pos bytes))
    | _, _ => ({ s with badbit := !bytes.isEmpty }, files)
  else (s, files)

end FStream

inductive GenericResponseCode where
  | Success
  | TelegramApiException
  | ErrorInvalidArgument
  | ErrorCommandIgnored
  | ErrorRuntimeError
  | ErrorClientError
  deriving DecidableEq

inductive HashAlgorithm where
  | MD5
  | SHA1
  | SHA256
  | SHA512
  | Blake2b
  | Blake2s
  deriving DecidableEq

-- The enum is open on the wire: a value without a name is kept as its number.
inductive ChecksumAlgorithm where
  | None
  | hash (algorithm : HashAlgorithm)
  | unrecognized (number : ℤ)
  deriving DecidableEq

def HashAlgorithm.digestSize : HashAlgorithm → ℕ
  | .MD5 => 16
  | .SHA1 => 20
  | .SHA256 => 32
  | .SHA512 => 64
  | .Blake2b => 64
  | .Blake2s => 32

-- What the service takes from outside: the temporary directory and the digests of the hash
-- library.
structure Host where
  tempDirectoryPath : Path
  digest : HashAlgorithm → Bytes → Bytes

structure FileTransferRequest where
  filePath : Bytes
  fileChecksumAlgorithm : Option ChecksumAlgorithm
  fileChecksum : Option Bytes
  overwriteExisting : Option Bool
  uuid : Option Bytes
  isUpload : Bool
  fileSize : ℕ

structure FileTransferResponse where
  accepted : Bool
  fileSize : Option ℕ
  chunkCount : Option ℤ
  uuid : Bytes
  rejectMessage : Option String
  deriving DecidableEq

structure FileChunkRequest where
  uuid : Bytes
  chunkIdx : ℤ

structure FileChunk where
  uuid : Bytes
  chunkIdx : ℤ
  chunkData : Bytes
  chunkOffset : ℤ

-- The chunk of a response carries its index and its data.
structure FileChunkResponse where
  success : Bool
  retry : Bool
  chunk : Option (ℤ × Bytes)
  deriving DecidableEq

structure TransferEntry where
  fileStream : FStream
  filePath : Path
  destinationPath : Path
  totalSize : ℕ
  chunkCount : ℤ
  checksumAlgorithm : ChecksumAlgorithm
  checksum : Bytes
  overwriteExisting : Bool
  coverage : UploadCoverage
  deriving DecidableEq

structure Service where
  files : Files
  activeTransfers : Bytes → Option TransferEntry

namespace Service

def store (s : Service) (uuid : Bytes) (entry : TransferEntry) : Service :=
  { s with activeTransfers := Function.update s.activeTransfers uuid (some entry) }

def erase (s : Service) (uuid : Bytes) : Service :=
  { s with activeTransfers := Function.update s.activeTransfers uuid none }

end Service

section Checksum

def hexDigit (n : UInt8) : UInt8 := if n < 10 then 48 + n else 55 + n

-- Crypto++'s `HexEncoder` writes upper-case digits.
def hexEncode (data : Bytes) : Bytes := data.flatMap fun b => [hexDigit (b / 16), hexDigit (b % 16)]

def asciiStrToUpper (s : Bytes) : Bytes := s.map fun b => if 97 ≤ b ∧ b ≤ 122 then b - 32 else b

variable (host : Host)

-- A file that cannot be opened has no hash.
def calcFileHash (algorithm : HashAlgorithm) (files : Files) (p : Path) : Option Bytes :=
  (files.contents p).map fun bytes => hexEncode (host.digest algorithm bytes)

def fileChecksumMatches (algorithm : HashAlgorithm) (files : Files) (p : Path)
    (providedChecksum : Bytes) : Bool :=
  match calcFileHash host algorithm files p with
  | none => false
  | some calculatedChecksum =>
    if providedChecksum.length = algorithm.digestSize then
      hexEncode providedChecksum = calculatedChecksum
    else asciiStrToUpper providedChecksum = calculatedChecksum

def verifyFileChecksum (files : Files) (p : Path) (providedChecksum : Bytes) :
    ChecksumAlgorithm → Bool
  | .hash algorithm => fileChecksumMatches host algorithm files p providedChecksum
  | .None => true
  | .unrecognized _ => false

end Checksum

section RequestFileTransfer

-- Which of the file-system calls of `requestFileTransfer` fail.
structure RequestIo where
  existsError : Bool
  createError : Bool
  resizeError : Bool
  reopenError : Bool
  fileSizeError : Bool

inductive Opened where
  | rejected (rejectMessage : String)
  | exception
  | entry (entry : TransferEntry)

-- `upload_{}.tmp` in ASCII.
def uploadName (uuid : Bytes) : Bytes :=
  [117, 112, 108, 111, 97, 100, 95] ++ uuid ++ [46, 116, 109, 112]

def tempPath (host : Host) (uuid : Bytes) : Path := host.tempDirectoryPath.join (uploadName uuid)

def TransferEntry.default : TransferEntry :=
  ⟨.closed .input, ⟨false, []⟩, ⟨false, []⟩, 0, 0, .None, [], false, .new 0⟩

variable (host : Host) (io : RequestIo)

def checkUpload (files : Files) (uuid : Bytes) (request : FileTransferRequest) :
    Except String TransferEntry :=
  let overwriteExisting := request.overwriteExisting.getD false
  let algorithm := request.fileChecksumAlgorithm.getD .None
  let fileChecksum := request.fileChecksum.getD []
  let destinationPath := Path.ofBytes request.filePath
  if !overwriteExisting && (!io.existsError && (files.names destinationPath).isSome) then
    .error "File already exists for upload"
  else if algorithm ≠ .None ∧ fileChecksum = [] then
    .error "Checksum algorithm set without checksum data"
  else if !sizeWithinCap request.fileSize then
    .error "Requested file size exceeds maximum allowed"
  else
    .ok
      { TransferEntry.default with
        filePath := tempPath host uuid
        destinationPath
        totalSize := request.fileSize
        checksumAlgorithm := algorithm
        checksum := if algorithm ≠ .None then fileChecksum else []
        overwriteExisting
        coverage := .new request.fileSize }

def createTemporary (files : Files) (entry : TransferEntry) : Files :=
  if io.createError then files else (FStream.openOutput files entry.filePath).2

def resizeTemporary (files : Files) (entry : TransferEntry) : Option Files :=
  if io.resizeError then none else resizeFile files entry.filePath entry.totalSize

-- Opening the resized file for output cuts it to nothing again.
def reopenTemporary (files : Files) (entry : TransferEntry) : Option (TransferEntry × Files) :=
  if io.reopenError then none
  else
    some ({ entry with fileStream := (FStream.openOutput files entry.filePath).1 },
      (FStream.openOutput files entry.filePath).2)

def openUpload (files : Files) (uuid : Bytes) (request : FileTransferRequest) : Opened × Files :=
  match checkUpload host io files uuid request with
  | .error message => (.rejected message, files)
  | .ok entry =>
    let files := createTemporary io files entry
    match resizeTemporary io files entry with
    | none => (.rejected "Failed to allocate file for upload", files.unlink entry.filePath)
    | some files =>
      match reopenTemporary io files entry with
      | none => (.rejected "Failed to create temporary file", files)
      | some (entry, files) => (.entry entry, files)

def openDownload (files : Files) (request : FileTransferRequest) : Opened :=
  let filePath := Path.ofBytes request.filePath
  let fileStream := FStream.openInput files filePath
  match fileStream.file with
  | none => .rejected "Failed to open file for download"
  | some i =>
    if io.fileSizeError then .exception
    else
      let totalSize := (files.data i).length
      .entry
        { TransferEntry.default with
          fileStream, filePath, totalSize, chunkCount := Transfer.chunkCount totalSize }

-- The part of `requestFileTransfer` that runs before the lock is taken.
def openTransfer (files : Files) (uuid : Bytes) (request : FileTransferRequest) :
    Opened × Files :=
  if request.isUpload then openUpload host io files uuid request
  else (openDownload io files request, files)

-- The critical section: `try_emplace` keeps an entry that is already there.
def emplaceTransfer (s : Service) (uuid : Bytes) (isUpload : Bool) (entry : TransferEntry) :
    FileTransferResponse × Service :=
  let fileSize := if isUpload then none else some entry.totalSize
  let chunkCount := if isUpload then none else some entry.chunkCount
  match s.activeTransfers uuid with
  | some _ => (⟨false, fileSize, chunkCount, uuid, some "UUID collision detected"⟩, s)
  | none => (⟨true, fileSize, chunkCount, uuid, none⟩, s.store uuid entry)

-- The whole call, for a client that nobody gets in the way of; `none` when an exception leaves
-- the handler.
def requestFileTransfer (s : Service) (uuid : Bytes) (request : FileTransferRequest) :
    Option FileTransferResponse × Service :=
  let (opened, files) := openTransfer host io s.files uuid request
  let s := { s with files }
  match opened with
  | .rejected message => (some ⟨false, none, none, uuid, some message⟩, s)
  | .exception => (none, s)
  | .entry entry =>
    let (response, s) := emplaceTransfer s uuid request.isUpload entry
    (some response, s)

end RequestFileTransfer

section Loops

def invalidChunk : FileChunkResponse := ⟨false, false, none⟩

def retryChunk : FileChunkResponse := ⟨false, true, none⟩

-- One message of `downloadFileLoop`.
def downloadChunk (s : Service) (msg : FileChunkRequest) : FileChunkResponse × Service :=
  match s.activeTransfers msg.uuid with
  | none => (invalidChunk, s)
  | some entry =>
    if !downloadChunkValid msg.chunkIdx entry.chunkCount then (invalidChunk, s)
    else
      let fileStream := entry.fileStream.seekg (chunkOffset msg.chunkIdx)
      if !fileStream.good then (retryChunk, s.store msg.uuid { entry with fileStream })
      else
        let (bytes, fileStream) := fileStream.read s.files kChunkSize
        let s := s.store msg.uuid { entry with fileStream }
        if bytes = [] then (retryChunk, s) else (⟨true, false, some (msg.chunkIdx, bytes)⟩, s)

-- One message of `uploadFileLoop`.
def uploadChunk (s : Service) (msg : FileChunk) : FileChunkResponse × Service :=
  match s.activeTransfers msg.uuid with
  | none => (invalidChunk, s)
  | some entry =>
    if !uploadChunkInRange msg.chunkOffset msg.chunkData.length entry.totalSize then
      (invalidChunk, s)
    else
      let fileStream := entry.fileStream.seekp msg.chunkOffset.toNat
      if !fileStream.good then (retryChunk, s.store msg.uuid { entry with fileStream })
      else
        let (fileStream, files) := fileStream.write s.files msg.chunkData
        if !fileStream.good then
          (retryChunk, { s with files }.store msg.uuid { entry with fileStream })
        else
          let coverage := entry.coverage.add msg.chunkOffset.toNat msg.chunkData.length
          (⟨true, false, none⟩, { s with files }.store msg.uuid { entry with fileStream, coverage })

-- A stream is answered message by message until the first answer that is not a success.
def chunkLoop {μ : Type} (chunk : Service → μ → FileChunkResponse × Service) (s : Service) :
    List μ → List FileChunkResponse × Service
  | [] => ([], s)
  | msg :: rest =>
    let (response, s) := chunk s msg
    if response.success then
      let (responses, s) := chunkLoop chunk s rest
      (response :: responses, s)
    else ([response], s)

def downloadFileLoop : Service → List FileChunkRequest → List FileChunkResponse × Service :=
  chunkLoop downloadChunk

def uploadFileLoop : Service → List FileChunk → List FileChunkResponse × Service :=
  chunkLoop uploadChunk

end Loops

section EndFileTransfer

inductive Errc where
  | cross_device_link
  | no_such_file_or_directory
  | file_exists
  | other (value : ℤ)
  deriving DecidableEq

-- How `copy_file` ends. A failing copy may leave bytes of its own at the destination.
inductive CopyOutcome where
  | completes
  | fails (left : Option Bytes)

-- The outcome of each file-system call of `endFileTransfer`; `none` is no error. `cleanUp` is the
-- removal of the temporary file on the way out of a failed call, `removeCopied` the one after
-- a copy.
structure EndIo where
  existsError : Bool
  removeDestination : Option Errc
  rename : Option Errc
  copyFile : CopyOutcome
  removeCopied : Option Errc
  cleanUp : Option Errc
  what : String

inductive EndAnswer where
  | response (code : GenericResponseCode) (message : String)
  | exception
  deriving DecidableEq

def EndAnswer.isSuccess : EndAnswer → Bool
  | .response .Success _ => true
  | _ => false

-- `std::filesystem::rename` with the error the call reports, if any.
def renameFile (error : Option Errc) (files : Files) (source target : Path) :
    Except Errc Files :=
  match error with
  | some e => .error e
  | none =>
    if target.isEmpty then .error .no_such_file_or_directory
    else
      match files.rename source target with
      | some files => .ok files
      | none => .error .no_such_file_or_directory

def copyOver (outcome : CopyOutcome) (files : Files) (target : Path) (bytes : Bytes) :
    Bool × Files :=
  match outcome with
  | .completes => (true, files.put target bytes)
  | .fails none => (false, files)
  | .fails (some left) => (false, files.put target left)

-- `std::filesystem::copy_file`; the second component is what the call leaves behind.
def copyFile (outcome : CopyOutcome) (overwriteExisting : Bool) (files : Files)
    (source target : Path) : Bool × Files :=
  match files.contents source with
  | none => (false, files)
  | some bytes =>
    if target.isEmpty ∨ source = target then (false, files)
    else if !overwriteExisting && (files.names target).isSome then (false, files)
    else copyOver outcome files target bytes

variable (host : Host) (io : EndIo)

-- The `try` block of `endFileTransfer`: `false` when it throws.
def moveUploaded (files : Files) (entry : TransferEntry) : Bool × Files :=
  let files :=
    if entry.overwriteExisting && io.removeDestination.isNone then
      files.unlink entry.destinationPath
    else files
  match renameFile io.rename files entry.filePath entry.destinationPath with
  | .ok files => (true, files)
  | .error .cross_device_link =>
    match copyFile io.copyFile entry.overwriteExisting files entry.filePath
      entry.destinationPath with
    | (true, files) =>
      if io.removeCopied.isSome then (false, files)
      else (true, files.unlink entry.filePath)
    | (false, files) => (false, files)
  | .error _ => (false, files)

-- A failed call removes the temporary file and forgets the transfer. The removal throws when it
-- fails, and the transfer then stays.
def discard (s : Service) (uuid : Bytes) (entry : TransferEntry) (code : GenericResponseCode)
    (message : String) : EndAnswer × Service :=
  if io.cleanUp.isSome then (.exception, s)
  else (.response code message, { s with files := s.files.unlink entry.filePath }.erase uuid)

def finalizeUpload (s : Service) (uuid : Bytes) (entry : TransferEntry) : EndAnswer × Service :=
  if !entry.coverage.complete then
    discard io s uuid entry .ErrorInvalidArgument "Upload is incomplete"
  else if entry.checksumAlgorithm ≠ .None ∧
      !verifyFileChecksum host s.files entry.filePath entry.checksum entry.checksumAlgorithm then
    discard io s uuid entry .ErrorInvalidArgument "Checksum mismatch"
  else if !entry.overwriteExisting &&
      (!io.existsError && (s.files.names entry.destinationPath).isSome) then
    -- this removal reports its error through an error code and cannot throw
    let files := if io.cleanUp.isSome then s.files else s.files.unlink entry.filePath
    (.response .ErrorInvalidArgument "Destination already exists", { s with files }.erase uuid)
  else
    match moveUploaded io s.files entry with
    | (true, files) =>
      (.response .Success "File transfer ended successfully", { s with files }.erase uuid)
    | (false, files) =>
      discard io { s with files } uuid entry .ErrorCommandIgnored
        ("Failed to move uploaded file: " ++ io.what)

def endFileTransfer (s : Service) (request : FileTransferRequest) : EndAnswer × Service :=
  let uuid := request.uuid.getD []
  match s.activeTransfers uuid with
  | none => (.response .ErrorCommandIgnored "Invalid UUID for ending file transfer", s)
  | some found =>
    let entry := { found with fileStream := found.fileStream.close }
    let s := s.store uuid entry
    if request.isUpload then
      if Path.ofBytes request.filePath ≠ entry.destinationPath then
        discard io s uuid entry .ErrorInvalidArgument
          "Upload destination path mismatch for this transfer"
      else finalizeUpload host io s uuid entry
    else (.response .Success "File transfer ended successfully", s.erase uuid)

end EndFileTransfer

section Service

variable (s : Service) (uuid : Bytes)

@[simp] theorem files_store (entry : TransferEntry) : (s.store uuid entry).files = s.files := rfl

@[simp] theorem files_erase : (s.erase uuid).files = s.files := rfl

@[simp] theorem activeTransfers_store_self (entry : TransferEntry) :
    (s.store uuid entry).activeTransfers uuid = some entry := Function.update_self ..

@[simp] theorem activeTransfers_erase_self : (s.erase uuid).activeTransfers uuid = none :=
  Function.update_self ..

end Service

-- The entry of a download of the file `i` under `p`.
def downloadEntry (files : Files) (p : Path) (i : ℕ) : TransferEntry :=
  { TransferEntry.default with
    fileStream := .opened .input i
    filePath := p
    totalSize := (files.data i).length
    chunkCount := chunkCount (files.data i).length }

-- An accepted download changes nothing but the table of transfers.
theorem accepted_download {host : Host} {io : RequestIo} {s : Service} {uuid : Bytes}
    {request : FileTransferRequest} {response : FileTransferResponse}
    (hreq : (requestFileTransfer host io s uuid request).1 = some response)
    (hacc : response.accepted = true) (hdown : request.isUpload = false) :
    ∃ i, s.files.names (Path.ofBytes request.filePath) = some i ∧
      (requestFileTransfer host io s uuid request).2 =
        s.store uuid (downloadEntry s.files (Path.ofBytes request.filePath) i) ∧
      response.chunkCount = some (chunkCount (s.files.data i).length) := by
  simp only [requestFileTransfer, openTransfer, hdown, openDownload, Bool.false_eq_true,
    if_false] at hreq ⊢
  cases hn : s.files.names (Path.ofBytes request.filePath) with
  | none =>
    simp only [FStream.openInput, hn, FStream.closed, Option.some.injEq] at hreq
    rw [← hreq] at hacc
    exact absurd hacc Bool.false_ne_true
  | some i =>
    refine ⟨i, rfl, ?_⟩
    simp only [FStream.openInput, hn, FStream.opened] at hreq ⊢
    cases hio : io.fileSizeError with
    | true => simp [hio] at hreq
    | false =>
      simp only [hio, Bool.false_eq_true, if_false, emplaceTransfer] at hreq ⊢
      cases hactive : s.activeTransfers uuid with
      | some other =>
        simp only [hactive, Option.some.injEq] at hreq
        rw [← hreq] at hacc
        exact absurd hacc Bool.false_ne_true
      | none =>
        simp only [hactive, Option.some.injEq] at hreq
        subst hreq
        exact ⟨rfl, rfl⟩

end Glider.Transfer

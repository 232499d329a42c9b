import Glider.Transfer.Finalize

namespace Glider.Transfer

open Glider.Lib Glider.Lib.Ranges

-- How far a request has come on its way to the lock. Between any two stages other calls may run.
inductive Stage where
  | checked
  | created
  | resized
  | opened

structure Pending where
  io : RequestIo
  stage : Stage
  entry : TransferEntry

structure Server where
  service : Service
  pending : Bytes → Option Pending

-- One step of the server: a file-system call of a request that has not taken the lock yet, or a
-- critical section.
inductive Event where
  | request (uuid : Bytes) (io : RequestIo)
  | advance (uuid : Bytes)
  | upload (msg : FileChunk)
  | finish (uuid : Bytes) (io : EndIo)

inductive Answer where
  | none
  | response (response : FileTransferResponse)
  | chunk (response : FileChunkResponse)
  | ended (answer : EndAnswer)
  deriving DecidableEq

namespace Server

def await (s : Server) (uuid : Bytes) (files : Files) (p : Pending) : Answer × Server :=
  (.none, { service := { s.service with files }, pending := Function.update s.pending uuid (some p) })

def reject (s : Server) (uuid : Bytes) (files : Files) (message : String) : Answer × Server :=
  (.response ⟨false, none, none, uuid, some message⟩,
    { service := { s.service with files }, pending := Function.update s.pending uuid none })

end Server

-- The next call of a pending request.
def advance (s : Server) (uuid : Bytes) (p : Pending) : Answer × Server :=
  match p.stage with
  | .checked =>
    s.await uuid (createTemporary p.io s.service.files p.entry) { p with stage := .created }
  | .created =>
    match resizeTemporary p.io s.service.files p.entry with
    | none =>
      s.reject uuid (s.service.files.unlink p.entry.filePath)
        "Failed to allocate file for upload"
    | some files => s.await uuid files { p with stage := .resized }
  | .resized =>
    match reopenTemporary p.io s.service.files p.entry with
    | none => s.reject uuid s.service.files "Failed to create temporary file"
    | some (entry, files) => s.await uuid files { p with stage := .opened, entry }
  | .opened =>
    (.response (emplaceTransfer s.service uuid true p.entry).1,
      { service := (emplaceTransfer s.service uuid true p.entry).2
        pending := Function.update s.pending uuid none })

-- The call that ends the upload `uuid`, with the path it was requested for.
def endRequest (requests : Bytes → FileTransferRequest) (uuid : Bytes) : FileTransferRequest :=
  { requests uuid with uuid := some uuid, isUpload := true }

-- Any number of uploads at once. `requests` gives the request behind each uuid.
def serverStep (host : Host) (requests : Bytes → FileTransferRequest) :
    Machine Server Event Answer
  | s, .request uuid io =>
    match checkUpload host io s.service.files uuid (requests uuid) with
    | .error message => s.reject uuid s.service.files message
    | .ok entry => s.await uuid s.service.files ⟨io, .checked, entry⟩
  | s, .advance uuid =>
    match s.pending uuid with
    | none => (.none, s)
    | some p => advance s uuid p
  | s, .upload msg =>
    (.chunk (uploadChunk s.service msg).1, { s with service := (uploadChunk s.service msg).2 })
  | s, .finish uuid io =>
    (.ended (endFileTransfer host io s.service (endRequest requests uuid)).1,
      { s with service := (endFileTransfer host io s.service (endRequest requests uuid)).2 })

section Alone

variable {host : Host} {requests : Bytes → FileTransferRequest} {s : Server} {uuid : Bytes}

theorem serverStep_advance {p : Pending} (hp : s.pending uuid = some p) :
    serverStep host requests s (.advance uuid) = advance s uuid p := by
  simp only [serverStep, hp]

theorem run_advance_idle (n : ℕ) (hp : s.pending uuid = none) :
    (serverStep host requests).run s (List.replicate n (.advance uuid)) = s := by
  induction n with
  | zero => rfl
  | succ n ih =>
    have hstep : (serverStep host requests s (.advance uuid)).2 = s := by
      simp only [serverStep, hp]
    rw [List.replicate_succ, Machine.run_cons, hstep, ih]

theorem pending_await (files : Files) (p : Pending) :
    (s.await uuid files p).2.pending uuid = some p := by simp [Server.await]

theorem pending_reject (files : Files) (message : String) :
    (s.reject uuid files message).2.pending uuid = none := by simp [Server.reject]

-- A request that nobody gets in the way of is the whole call of the service.
theorem run_request (io : RequestIo) (hup : (requests uuid).isUpload = true) :
    ((serverStep host requests).run s
      (.request uuid io :: List.replicate 4 (.advance uuid))).service =
        (requestFileTransfer host io s.service uuid (requests uuid)).2 := by
  simp only [Machine.run_cons, requestFileTransfer, openTransfer, hup, if_true, openUpload]
  cases hcheck : checkUpload host io s.service.files uuid (requests uuid) with
  | error message =>
    simp only [serverStep, hcheck]
    rw [run_advance_idle 4 (pending_reject ..)]
    rfl
  | ok entry =>
    simp only [serverStep, hcheck]
    rw [List.replicate_succ, Machine.run_cons, serverStep_advance (pending_await ..)]
    simp only [advance]
    rw [List.replicate_succ, Machine.run_cons, serverStep_advance (pending_await ..)]
    simp only [advance, Server.await]
    cases resizeTemporary io (createTemporary io s.service.files entry) entry with
    | none => exact congrArg Server.service (run_advance_idle 2 (pending_reject ..))
    | some files =>
      simp only
      rw [List.replicate_succ, Machine.run_cons, serverStep_advance (Function.update_self ..)]
      simp only [advance]
      cases reopenTemporary io files entry with
      | none => exact congrArg Server.service (run_advance_idle 1 (pending_reject ..))
      | some opened =>
        obtain ⟨entry, files⟩ := opened
        simp only
        rw [List.replicate_succ, Machine.run_cons, serverStep_advance (Function.update_self ..)]
        rfl

end Alone

theorem uploadName_injective : Function.Injective uploadName := by
  intro u v h
  simpa [uploadName] using h

-- Two transfers never share a temporary file.
theorem tempPath_injective (host : Host) : Function.Injective (tempPath host) := by
  intro u v h
  simp only [tempPath, Path.join, Path.mk.injEq, true_and] at h
  exact uploadName_injective (by simpa using h)

def destination (request : FileTransferRequest) : Path := Path.ofBytes request.filePath

-- What `requestFileTransfer` puts into the entry of an upload, and nothing changes later.
structure Prepared (host : Host) (request : FileTransferRequest) (uuid : Bytes)
    (entry : TransferEntry) : Prop where
  filePath : entry.filePath = tempPath host uuid
  destinationPath : entry.destinationPath = destination request
  overwriteExisting : entry.overwriteExisting = request.overwriteExisting.getD false
  totalSize : entry.totalSize = request.fileSize
  withinCap : request.fileSize < 2 ^ 64

-- A pending request. Its temporary file is its own and empty once it has been opened again.
structure Allocating (host : Host) (request : FileTransferRequest) (files : Files) (uuid : Bytes)
    (p : Pending) : Prop where
  prepared : Prepared host request uuid p.entry
  coverage : p.entry.coverage = .new request.fileSize
  opened : p.stage = .opened → ∃ i, p.entry.fileStream = .opened .output i ∧
    files.names (tempPath host uuid) = some i ∧ files.data i = []

-- An active upload after the accepted writes `log`, newest first.
structure Live (host : Host) (request : FileTransferRequest) (files : Files) (uuid : Bytes)
    (entry : TransferEntry) (log : List (ℕ × Bytes)) : Prop where
  prepared : Prepared host request uuid entry
  size : entry.coverage.totalSize = request.fileSize
  wellFormed : entry.coverage.WellFormed
  covers : ∀ i, Covers entry.coverage.ranges i ↔ ∃ w ∈ log, w.1 ≤ i ∧ i < w.1 + w.2.length
  inside : ∀ w ∈ log, w.1 + w.2.length ≤ request.fileSize
  file : ∃ i pos, entry.fileStream = ⟨some i, .output, pos, false, false, false⟩ ∧
    files.names (tempPath host uuid) = some i ∧ files.data i = replay 0 log

section Steps

variable {host : Host} {request : FileTransferRequest} {files files' : Files} {uuid : Bytes}
  {s : Service} {entry : TransferEntry} {log : List (ℕ × Bytes)}

theorem Allocating.frame {p : Pending} (h : Allocating host request files uuid p)
    (hfiles : files.Untouched files' (tempPath host uuid)) :
    Allocating host request files' uuid p := by
  refine { h with opened := fun hstage => ?_ }
  obtain ⟨i, hstream, hname, hdata⟩ := h.opened hstage
  exact ⟨i, hstream, hfiles.1.trans hname, (hfiles.2 i hname).trans hdata⟩

theorem Live.frame (h : Live host request files uuid entry log)
    (hfiles : files.Untouched files' (tempPath host uuid)) :
    Live host request files' uuid entry log := by
  obtain ⟨i, pos, hstream, hname, hdata⟩ := h.file
  exact { h with
    file := ⟨i, pos, hstream, hfiles.1.trans hname, (hfiles.2 i hname).trans hdata⟩ }

theorem checkUpload_prepared {io : RequestIo}
    (h : checkUpload host io files uuid request = .ok entry) :
    Allocating host request files uuid ⟨io, .checked, entry⟩ := by
  unfold checkUpload at h
  simp only at h
  split at h
  · cases h
  split at h
  · cases h
  split at h
  · cases h
  rename_i hcap
  obtain rfl := Except.ok.inj h
  have hsize : request.fileSize ≤ kMaxTransferSize := by simpa [sizeWithinCap] using hcap
  refine ⟨⟨rfl, rfl, rfl, rfl, ?_⟩, rfl, fun h => nomatch h⟩
  simp only [kMaxTransferSize] at hsize
  omega

-- The entry that enters the map has received nothing.
theorem Allocating.live {p : Pending} (h : Allocating host request files uuid p)
    (hstage : p.stage = .opened) : Live host request files uuid p.entry [] where
  prepared := h.prepared
  size := by rw [h.coverage]; rfl
  wellFormed := by
    rw [h.coverage]
    exact UploadCoverage.wellFormed_new h.prepared.withinCap
  covers i := by
    rw [h.coverage]
    simp [UploadCoverage.new]
  inside := by simp
  file := by
    obtain ⟨i, hstream, hname, hdata⟩ := h.opened hstage
    exact ⟨i, 0, hstream, hname, hdata⟩

-- A chunk in range is written and counted, one out of range changes nothing.
theorem Live.upload_cases {msg : FileChunk} (h : Live host request s.files msg.uuid entry log)
    (hactive : s.activeTransfers msg.uuid = some entry) :
    uploadChunk s msg = (invalidChunk, s) ∨
      ∃ entry' files', uploadChunk s msg = (⟨true, false, none⟩, Service.store ⟨files',
          s.activeTransfers⟩ msg.uuid entry') ∧
        Live host request files' msg.uuid entry' ((msg.chunkOffset.toNat, msg.chunkData) :: log) ∧
        ∀ p, p ≠ tempPath host msg.uuid → s.files.Untouched files' p := by
  obtain ⟨i, pos, hstream, hname, hdata⟩ := h.file
  cases hrange : uploadChunkInRange msg.chunkOffset msg.chunkData.length entry.totalSize with
  | false =>
    left
    simp only [uploadChunk, hactive, hrange, Bool.not_false, if_true]
  | true =>
    right
    obtain ⟨hoffset, hfits⟩ := (uploadChunkInRange_iff ..).mp hrange
    rw [h.prepared.totalSize] at hfits
    have hwrite : uploadChunk s msg = (⟨true, false, none⟩, Service.store
        ⟨s.files.setData i (overwrite 0 (s.files.data i) msg.chunkOffset.toNat msg.chunkData),
          s.activeTransfers⟩ msg.uuid
        { entry with
          fileStream := ⟨some i, .output, msg.chunkOffset.toNat + msg.chunkData.length,
            false, false, false⟩
          coverage := entry.coverage.add msg.chunkOffset.toNat msg.chunkData.length }) := by
      simp [uploadChunk, hactive, hrange, hstream, FStream.seekp, FStream.fail,
        FStream.isOpen, FStream.good, FStream.write]
    refine ⟨_, _, hwrite, ?_, fun p hp => FileStore.untouched_setData hname hp _⟩
    have hin : msg.chunkOffset.toNat + msg.chunkData.length ≤ entry.coverage.totalSize := by
      rw [h.size]
      exact hfits
    exact {
      prepared := { h.prepared with }
      size := by rw [UploadCoverage.totalSize_add, h.size]
      wellFormed := UploadCoverage.wellFormed_add h.wellFormed hin
      covers := by
        intro j
        rw [UploadCoverage.covers_add h.wellFormed hin, h.covers, List.exists_mem_cons_iff]
        exact or_comm
      inside := by
        rw [List.forall_mem_cons]
        exact ⟨hfits, h.inside⟩
      file := ⟨i, _, rfl, hname, by simp [hdata, replay]⟩ }

end Steps

section Move

variable {io : EndIo} {files : Files} {entry : TransferEntry}

theorem cleared_untouched {p : Path} (hp : p ≠ entry.destinationPath) :
    files.Untouched (cleared io files entry) p := by
  unfold cleared
  split
  · exact FileStore.untouched_unlink hp
  · exact .refl files p

theorem renameFile_ok {error : Option Errc} {source target : Path} {moved : Files}
    (h : renameFile error files source target = .ok moved) :
    ∃ i, ∃ hi : files.names source = some i, moved = files.relink source target i hi := by
  unfold renameFile at h
  split at h
  · cases h
  split at h
  · cases h
  by_cases hnone : files.names source = none
  · rw [FileStore.rename_eq_none.mpr hnone] at h
    cases h
  · obtain ⟨i, hi⟩ := Option.ne_none_iff_exists'.mp hnone
    rw [FileStore.rename_of_names hi] at h
    exact ⟨i, hi, (Except.ok.inj h).symm⟩

theorem copyFile_untouched (outcome : CopyOutcome) (overwriteExisting : Bool) (source : Path)
    {target p : Path} (hp : p ≠ target) :
    files.Untouched (copyFile outcome overwriteExisting files source target).2 p := by
  unfold copyFile copyOver
  split
  · exact .refl files p
  split
  · exact .refl files p
  split
  · exact .refl files p
  split
  · exact FileStore.untouched_put hp _
  · exact .refl files p
  · exact FileStore.untouched_put hp _

theorem copyFile_done {outcome : CopyOutcome} {overwriteExisting : Bool} {source target : Path}
    (h : (copyFile outcome overwriteExisting files source target).1 = true) :
    (copyFile outcome overwriteExisting files source target).2.contents target =
      files.contents source := by
  unfold copyFile at h ⊢
  cases hsource : files.contents source with
  | none => simp [hsource] at h
  | some bytes =>
    simp only [hsource] at h ⊢
    split at h
    · cases h
    rename_i hpaths
    split at h
    · cases h
    rename_i hroom
    rw [if_neg hpaths, if_neg hroom]
    unfold copyOver at h ⊢
    cases outcome with
    | completes => exact FileStore.contents_put_self target bytes
    | fails left => cases left <;> cases h

-- The move touches the temporary file and the destination only.
theorem move_untouched {p : Path} (hfile : p ≠ entry.filePath) (hdest : p ≠ entry.destinationPath) :
    files.Untouched (moveUploaded io files entry).2 p := by
  have hcleared : files.Untouched (cleared io files entry) p := cleared_untouched hdest
  cases hrename : renameFile io.rename (cleared io files entry) entry.filePath
      entry.destinationPath with
  | ok moved =>
    rw [move_of_renamed hrename]
    obtain ⟨i, hi, rfl⟩ := renameFile_ok hrename
    exact hcleared.trans (FileStore.untouched_relink hi hfile hdest)
  | error e =>
    by_cases hx : e = .cross_device_link
    · subst hx
      rw [move_of_cross_device hrename]
      have hcopied := hcleared.trans (copyFile_untouched io.copyFile entry.overwriteExisting
        entry.filePath hdest)
      simp only
      split
      · exact hcopied.trans (FileStore.untouched_unlink hfile)
      · exact hcopied
    · rw [move_of_error hx hrename]
      exact hcleared

-- A move that works leaves the uploaded bytes under the destination alone.
theorem move_done (hne : entry.filePath ≠ entry.destinationPath)
    (h : (moveUploaded io files entry).1 = true) :
    (moveUploaded io files entry).2.contents entry.destinationPath =
      files.contents entry.filePath ∧
    (moveUploaded io files entry).2.names entry.filePath = none := by
  have hsource : (cleared io files entry).contents entry.filePath =
      files.contents entry.filePath := contents_cleared_of_ne hne
  cases hrename : renameFile io.rename (cleared io files entry) entry.filePath
      entry.destinationPath with
  | ok moved =>
    rw [move_of_renamed hrename]
    obtain ⟨i, hi, rfl⟩ := renameFile_ok hrename
    rw [← hsource, FileStore.contents_of_names hi,
      FileStore.contents_of_names (FileStore.names_relink_self hi)]
    exact ⟨rfl, FileStore.names_relink_source hi hne⟩
  | error e =>
    by_cases hx : e = .cross_device_link
    · subst hx
      rw [move_of_cross_device hrename] at h ⊢
      simp only at h ⊢
      split at h
      · rename_i hdone
        simp only [Bool.and_eq_true] at hdone
        rw [if_pos (by simpa using hdone)]
        refine ⟨?_, FileStore.names_unlink_self _⟩
        rw [FileStore.contents_unlink_of_ne hne.symm, copyFile_done hdone.1, hsource]
      · cases h
    · rw [move_of_error hx hrename] at h
      cases h

end Move

-- The calls that look for the destination and remove files do so without an error. The rename and
-- the copy may still fail.
def Removes (io : EndIo) : Prop :=
  io.existsError = false ∧ io.removeDestination = none ∧ io.cleanUp = none

section Finish

variable {host : Host} {io : EndIo} {s : Service} {uuid : Bytes} {entry : TransferEntry}
  {request : FileTransferRequest} {log : List (ℕ × Bytes)}

theorem discard_activeTransfers (hio : io.cleanUp = none) (code : GenericResponseCode)
    (message : String) :
    (discard io s uuid entry code message).2.activeTransfers =
      Function.update s.activeTransfers uuid none := by
  simp [discard, hio, Service.erase]

theorem finalizeUpload_activeTransfers (hio : io.cleanUp = none) :
    (finalizeUpload host io s uuid entry).2.activeTransfers =
      Function.update s.activeTransfers uuid none := by
  unfold finalizeUpload
  split_ifs
  · exact discard_activeTransfers hio ..
  · exact discard_activeTransfers hio ..
  · rfl
  · rfl
  · split
    · rfl
    · exact discard_activeTransfers hio ..

-- Every way out of the call forgets the transfer.
theorem end_activeTransfers (hio : io.cleanUp = none)
    (hactive : s.activeTransfers uuid = some entry) (huuid : request.uuid = some uuid)
    (hup : request.isUpload = true) :
    (endFileTransfer host io s request).2.activeTransfers =
      Function.update s.activeTransfers uuid none := by
  rw [end_upload hactive huuid hup]
  simp only
  split_ifs
  · rw [discard_activeTransfers hio, Service.store, Function.update_idem]
  · rw [finalizeUpload_activeTransfers hio, Service.store, Function.update_idem]

theorem cleanedUp_untouched {files : Files} {p : Path} (hp : p ≠ entry.filePath) :
    files.Untouched (cleanedUp io files entry) p := by
  unfold cleanedUp
  split
  · exact .refl files p
  · exact FileStore.untouched_unlink hp

theorem end_untouched (hactive : s.activeTransfers uuid = some entry)
    (huuid : request.uuid = some uuid) (hup : request.isUpload = true) {p : Path}
    (hfile : p ≠ entry.filePath) (hdest : p ≠ entry.destinationPath) :
    s.files.Untouched (endFileTransfer host io s request).2.files p := by
  by_cases hr : ReachesMove host io s entry request
  · rw [(end_of_reachesMove hactive huuid hup hr).2]
    have hmoved : s.files.Untouched (moveUploaded io s.files entry).2 p :=
      move_untouched hfile hdest
    split
    · exact hmoved
    · exact hmoved.trans (cleanedUp_untouched hfile)
  · rw [(end_of_not_reachesMove hactive huuid hup hr).2]
    exact cleanedUp_untouched hfile

-- Without leave to overwrite, a destination that is there stops the call.
theorem end_of_existing (hio : Removes io) (hactive : s.activeTransfers uuid = some entry)
    (huuid : request.uuid = some uuid) (hup : request.isUpload = true)
    (hover : entry.overwriteExisting = false) (hthere : s.files.names entry.destinationPath ≠ none) :
    (endFileTransfer host io s request).1.isSuccess = false ∧
      (endFileTransfer host io s request).2.files = cleanedUp io s.files entry := by
  apply end_of_not_reachesMove hactive huuid hup
  rintro ⟨-, -, -, h | h | h⟩
  · rw [hover] at h
    cases h
  · rw [hio.1] at h
    cases h
  · exact hthere h

-- What `Success` stands for.
theorem Live.finish (h : Live host request s.files uuid entry log) (hio : Removes io)
    (hactive : s.activeTransfers uuid = some entry) {final : FileTransferRequest}
    (huuid : final.uuid = some uuid) (hup : final.isUpload = true)
    (hsuccess : (endFileTransfer host io s final).1.isSuccess = true) :
    entry.coverage.complete = true ∧ tempPath host uuid ≠ destination request ∧
      (endFileTransfer host io s final).2.files.contents (destination request) =
        some (replay 0 log) ∧
      (endFileTransfer host io s final).2.files.names (tempPath host uuid) = none := by
  obtain ⟨i, pos, -, hname, hdata⟩ := h.file
  rw [← h.prepared.filePath] at hname ⊢
  rw [← h.prepared.destinationPath]
  by_cases hr : ReachesMove host io s entry final
  · obtain ⟨hanswer, hfiles⟩ := end_of_reachesMove hactive huuid hup hr
    rw [hanswer] at hsuccess
    rw [hfiles, if_pos hsuccess]
    have hne : entry.filePath ≠ entry.destinationPath := by
      intro hsame
      rw [hsame] at hname
      -- the temporary file is there, so only an overwrite gets here, and it removes the file
      have hover : entry.overwriteExisting = true := by
        rcases hr.2.2.2 with h | h | h
        · exact h
        · rw [hio.1] at h
          cases h
        · rw [hname] at h
          cases h
      have hremoves : RemovesDestination io s.files entry := ⟨hover, hio.2.1, by simp [hname]⟩
      rw [move_own_removes hsame hremoves] at hsuccess
      cases hsuccess
    obtain ⟨hcontents, hgone⟩ := move_done hne hsuccess
    refine ⟨hr.2.1, hne, ?_, hgone⟩
    rw [hcontents, FileStore.contents_of_names hname, hdata]
  · rw [(end_of_not_reachesMove hactive huuid hup hr).1] at hsuccess
    cases hsuccess

end Finish

end Glider.Transfer

import Glider.Transfer.Download

namespace Glider.Transfer

open Glider.Lib

-- A later call on a transfer, with every field but the uuid.
inductive Call where
  | download (chunkIdx : ℤ)
  | upload (chunkIdx : ℤ) (chunkData : Bytes) (chunkOffset : ℤ)
  | finish (request : FileTransferRequest)

-- The calls carry one uuid; the file system may answer each of them in its own way.
def callStep (host : Host) (uuid : Bytes) : Machine Service (Call × EndIo) Unit :=
  fun s (call, io) =>
    ((), match call with
      | .download chunkIdx => (downloadChunk s ⟨uuid, chunkIdx⟩).2
      | .upload chunkIdx chunkData chunkOffset =>
        (uploadChunk s ⟨uuid, chunkIdx, chunkData, chunkOffset⟩).2
      | .finish request => (endFileTransfer host io s { request with uuid := some uuid }).2)

def FirstEndIsDownload : List Call → Prop
  | [] => True
  | .finish request :: _ => request.isUpload = false
  | _ :: rest => FirstEndIsDownload rest

-- A live download: the entry has kept what a download gets, whatever its stream has been through.
structure LiveDownload (s : Service) (uuid : Bytes) (p : Path) (entry : TransferEntry) : Prop where
  active : s.activeTransfers uuid = some entry
  filePath : entry.filePath = p
  destinationPath : entry.destinationPath = ⟨false, []⟩
  mode : entry.fileStream.mode = .input
  checksumAlgorithm : entry.checksumAlgorithm = .None
  overwriteExisting : entry.overwriteExisting = false
  coverage : entry.coverage = .new 0

theorem mode_seekg (stream : FStream) (off : ℕ) : (stream.seekg off).mode = stream.mode := by
  unfold FStream.seekg
  split_ifs <;> rfl

theorem mode_seekp (stream : FStream) (off : ℕ) : (stream.seekp off).mode = stream.mode := by
  unfold FStream.seekp
  split_ifs <;> rfl

theorem mode_read (files : Files) (stream : FStream) (n : ℕ) :
    (stream.read files n).2.mode = stream.mode := by
  unfold FStream.read
  split
  · split <;> simp_all
  · rfl

-- A stream opened for input writes nothing.
theorem write_input (files : Files) (stream : FStream) (bytes : Bytes)
    (hm : stream.mode = .input) : (stream.write files bytes).2 = files := by
  unfold FStream.write
  split
  · split
    · rename_i hout
      rw [hm] at hout
      cases hout
    · rfl
  · rfl

theorem mode_write (files : Files) (stream : FStream) (bytes : Bytes) :
    (stream.write files bytes).1.mode = stream.mode := by
  unfold FStream.write
  split
  · split <;> simp_all
  · rfl

-- A download message moves the stream of its entry and nothing else.
theorem downloadChunk_cases {s : Service} {uuid : Bytes} {entry : TransferEntry}
    (hactive : s.activeTransfers uuid = some entry) (chunkIdx : ℤ) :
    (downloadChunk s ⟨uuid, chunkIdx⟩).2 = s ∨
      ∃ fileStream, fileStream.mode = entry.fileStream.mode ∧
        (downloadChunk s ⟨uuid, chunkIdx⟩).2 = s.store uuid { entry with fileStream } := by
  simp only [downloadChunk, hactive]
  split
  · exact Or.inl rfl
  · refine Or.inr ?_
    split
    · exact ⟨_, mode_seekg _ _, rfl⟩
    · have hmode := mode_read s.files (entry.fileStream.seekg (chunkOffset chunkIdx)) kChunkSize
      rw [mode_seekg] at hmode
      refine ⟨_, hmode, ?_⟩
      split <;> rfl

-- An upload message on a stream opened for input leaves the files alone; it is accepted only
-- when it is empty, and then covers nothing.
theorem uploadChunk_input {s : Service} {uuid : Bytes} {entry : TransferEntry}
    (hactive : s.activeTransfers uuid = some entry) (hm : entry.fileStream.mode = .input)
    (chunkIdx : ℤ) (chunkData : Bytes) (chunkOffset : ℤ) :
    (uploadChunk s ⟨uuid, chunkIdx, chunkData, chunkOffset⟩).2 = s ∨
      ∃ fileStream, fileStream.mode = .input ∧
        (uploadChunk s ⟨uuid, chunkIdx, chunkData, chunkOffset⟩).2 =
          s.store uuid { entry with fileStream } := by
  simp only [uploadChunk, hactive]
  split
  · exact Or.inl rfl
  refine Or.inr ?_
  have hseek : (entry.fileStream.seekp chunkOffset.toNat).mode = .input := by rw [mode_seekp, hm]
  split
  · exact ⟨_, hseek, rfl⟩
  · rename_i hgood
    have hfiles := write_input s.files (entry.fileStream.seekp chunkOffset.toNat) chunkData hseek
    have hmode := mode_write s.files (entry.fileStream.seekp chunkOffset.toNat) chunkData
    rw [hseek] at hmode
    refine ⟨_, hmode, ?_⟩
    simp only [hfiles]
    split
    · rfl
    · rename_i hwrote
      have hempty : chunkData = [] := by
        by_contra hne
        apply hwrote
        simp only [Bool.not_eq_true, Bool.not_eq_false'] at hgood
        simp only [FStream.write, hgood, if_true, hseek]
        cases chunkData with
        | nil => exact absurd rfl hne
        | cons b rest => simp [FStream.good, FStream.fail]
      subst hempty
      simp [UploadCoverage.add]

theorem LiveDownload.store {s : Service} {uuid : Bytes} {p : Path} {entry : TransferEntry}
    (hl : LiveDownload s uuid p entry) {fileStream : FStream} (hm : fileStream.mode = .input) :
    LiveDownload (s.store uuid { entry with fileStream }) uuid p { entry with fileStream } :=
  { hl with active := activeTransfers_store_self .., mode := hm }

-- Chunk messages keep a download live and the files as they are.
theorem LiveDownload.chunk_step (host : Host) {s : Service} {uuid : Bytes} {p : Path}
    {entry : TransferEntry} (hl : LiveDownload s uuid p entry) {call : Call} (io : EndIo)
    (hc : ∀ request, call ≠ .finish request) :
    (callStep host uuid s (call, io)).2.files = s.files ∧
      ∃ entry', LiveDownload (callStep host uuid s (call, io)).2 uuid p entry' := by
  cases call with
  | download chunkIdx =>
    simp only [callStep]
    rcases downloadChunk_cases hl.active chunkIdx with he | ⟨fileStream, hm, he⟩
    · rw [he]
      exact ⟨rfl, entry, hl⟩
    · rw [he]
      exact ⟨rfl, _, hl.store (hm.trans hl.mode)⟩
  | upload chunkIdx chunkData chunkOffset =>
    simp only [callStep]
    rcases uploadChunk_input hl.active hl.mode chunkIdx chunkData chunkOffset with
      he | ⟨fileStream, hm, he⟩
    · rw [he]
      exact ⟨rfl, entry, hl⟩
    · rw [he]
      exact ⟨rfl, _, hl.store hm⟩
  | finish request => exact absurd rfl (hc request)

-- A transfer that is gone is answered without touching anything.
theorem callStep_of_none {host : Host} {s : Service} {uuid : Bytes}
    (hgone : s.activeTransfers uuid = none) (step : Call × EndIo) :
    (callStep host uuid s step).2 = s := by
  obtain ⟨call, io⟩ := step
  cases call <;> simp [callStep, downloadChunk, uploadChunk, endFileTransfer, hgone]

theorem untouched_of_none {host : Host} {s : Service} {uuid : Bytes} {p : Path} {files : Files}
    (hgone : s.activeTransfers uuid = none) (hs : FileStore.Untouched files s.files p)
    (steps : List (Call × EndIo)) :
    (callStep host uuid).Throughout (fun s => FileStore.Untouched files s.files p) s steps := by
  have hrun : ∀ front : List (Call × EndIo), (callStep host uuid).run s front = s := by
    intro front
    induction front with
    | nil => rfl
    | cons step rest ih => rw [Machine.run_cons, callStep_of_none hgone, ih]
  intro front _
  rw [hrun front]
  exact hs

-- The calls that end a live download: without the upload flag only the entry goes.
theorem LiveDownload.finish_download (host : Host) {s : Service} {uuid : Bytes} {p : Path}
    {entry : TransferEntry} (hl : LiveDownload s uuid p entry) {request : FileTransferRequest}
    (io : EndIo) (hdown : request.isUpload = false) :
    (callStep host uuid s (.finish request, io)).2.files = s.files ∧
      (callStep host uuid s (.finish request, io)).2.activeTransfers uuid = none := by
  simp [callStep, endFileTransfer, hl.active, hdown]

def quietEndIo : EndIo := ⟨false, none, none, .completes, none, none, ""⟩

theorem moveUploaded_to_empty (files : Files) {entry : TransferEntry}
    (hd : entry.destinationPath.isEmpty = true) (ho : entry.overwriteExisting = false) :
    moveUploaded quietEndIo files entry = (false, files) := by
  simp [moveUploaded, quietEndIo, renameFile, hd, ho]

-- With the flag the file itself goes, whatever path the request names: the empty destination of a
-- download either does not match or cannot be moved to, and both exits clean up `filePath`.
theorem LiveDownload.finish_upload {host : Host} {s : Service} {uuid : Bytes} {p : Path}
    {entry : TransferEntry} (hl : LiveDownload s uuid p entry) {request : FileTransferRequest}
    (hup : request.isUpload = true) :
    (callStep host uuid s (.finish request, quietEndIo)).2.files.names p = none := by
  simp only [callStep, endFileTransfer, Option.getD_some, hl.active, hup, if_true]
  split
  · simp [discard, quietEndIo, hl.filePath]
  · simp only [finalizeUpload, hl.coverage, hl.checksumAlgorithm, hl.overwriteExisting,
      hl.destinationPath, UploadCoverage.complete, UploadCoverage.new]
    simp only [BEq.rfl, Bool.not_true, Bool.false_eq_true, if_false, ne_eq, not_true_eq_false,
      false_and, Bool.not_false, Bool.true_and]
    split
    · simp [quietEndIo, hl.filePath]
    · rw [moveUploaded_to_empty _ rfl rfl]
      simp [discard, quietEndIo, hl.filePath]

theorem untouched_of_firstEndIsDownload {host : Host} {s : Service} {uuid : Bytes} {p : Path}
    {entry : TransferEntry} (hl : LiveDownload s uuid p entry) {files : Files}
    (hs : s.files = files) (steps : List (Call × EndIo))
    (hfirst : FirstEndIsDownload (steps.map Prod.fst)) :
    (callStep host uuid).Throughout (fun s => FileStore.Untouched files s.files p) s steps := by
  have hhere : FileStore.Untouched files s.files p := hs ▸ FileStore.Untouched.refl s.files p
  induction steps generalizing s entry with
  | nil =>
    intro front hf
    rw [List.prefix_nil.mp hf]
    exact hhere
  | cons step rest ih =>
    obtain ⟨call, io⟩ := step
    rw [Machine.throughout_cons]
    refine ⟨hhere, ?_⟩
    by_cases hc : ∀ request, call ≠ .finish request
    · obtain ⟨hfiles, entry', hl'⟩ := hl.chunk_step host io hc
      have hrest : FirstEndIsDownload (rest.map Prod.fst) := by
        cases call with
        | finish request => exact absurd rfl (hc request)
        | download _ | upload _ _ _ => exact hfirst
      exact ih hl' (hfiles.trans hs) hrest (by rw [hfiles]; exact hhere)
    · simp only [ne_eq, not_forall, not_not] at hc
      obtain ⟨request, rfl⟩ := hc
      obtain ⟨hfiles, hgone⟩ := hl.finish_download host io hfirst
      exact untouched_of_none hgone (by rw [hfiles]; exact hhere) rest

-- If the first end of a live download carries the upload flag, a file system without failures
-- loses the file.
theorem lost_of_not_firstEndIsDownload (host : Host) {s : Service} {uuid : Bytes} {p : Path}
    {entry : TransferEntry} (hl : LiveDownload s uuid p entry) (calls : List Call)
    (hfirst : ¬FirstEndIsDownload calls) :
    ∃ front, front <+: calls.map (fun call => (call, quietEndIo)) ∧
      ((callStep host uuid).run s front).files.names p = none := by
  induction calls generalizing s entry with
  | nil => exact absurd trivial hfirst
  | cons call rest ih =>
    by_cases hc : ∀ request, call ≠ .finish request
    · obtain ⟨-, entry', hl'⟩ := hl.chunk_step host quietEndIo hc
      have hrest : ¬FirstEndIsDownload rest := by
        cases call with
        | finish request => exact absurd rfl (hc request)
        | download _ | upload _ _ _ => exact hfirst
      obtain ⟨front, hf, hlost⟩ := ih hl' hrest
      exact ⟨(call, quietEndIo) :: front, List.cons_prefix_cons.mpr ⟨rfl, hf⟩, hlost⟩
    · simp only [ne_eq, not_forall, not_not] at hc
      obtain ⟨request, rfl⟩ := hc
      have hup : request.isUpload = true := by simpa [FirstEndIsDownload] using hfirst
      exact ⟨[(.finish request, quietEndIo)], List.cons_prefix_cons.mpr ⟨rfl, List.nil_prefix⟩,
        hl.finish_upload hup⟩

-- A file opened for download stays as it is through every later call on the transfer, whatever
-- the file system answers, exactly when the first `endFileTransfer` has `is_upload` unset: with
-- the flag set the handler takes the downloaded file for the temporary file of an upload.
theorem download_untouched_iff (host : Host) (io : RequestIo) (s : Service) (uuid : Bytes)
    (request : FileTransferRequest) (response : FileTransferResponse) (calls : List Call)
    (hreq : (requestFileTransfer host io s uuid request).1 = some response)
    (hacc : response.accepted = true) (hdown : request.isUpload = false) :
    (∀ steps : List (Call × EndIo), steps.map Prod.fst = calls →
      (callStep host uuid).Throughout
        (fun t => FileStore.Untouched s.files t.files (Path.ofBytes request.filePath))
        (requestFileTransfer host io s uuid request).2 steps) ↔
      FirstEndIsDownload calls := by
  obtain ⟨i, hi, hs, -⟩ := accepted_download hreq hacc hdown
  have hl : LiveDownload (requestFileTransfer host io s uuid request).2 uuid
      (Path.ofBytes request.filePath) (downloadEntry s.files (Path.ofBytes request.filePath) i) := by
    rw [hs]
    exact ⟨activeTransfers_store_self .., rfl, rfl, rfl, rfl, rfl, rfl⟩
  constructor
  · intro hall
    by_contra hfirst
    obtain ⟨front, hf, hlost⟩ := lost_of_not_firstEndIsDownload host hl calls hfirst
    have hgood := hall (calls.map fun call => (call, quietEndIo)) (by simp [Function.comp_def])
      front hf
    have hnames := hgood.1
    rw [hlost, hi] at hnames
    cases hnames
  · rintro hfirst steps rfl
    exact untouched_of_firstEndIsDownload hl (by rw [hs, files_store]) steps hfirst

theorem download_untouched_one_byte :
    (callStep quietHost [1]).Throughout
      (fun t => FileStore.Untouched oneByteServer.files t.files (Path.ofBytes [47, 102]))
      (requestFileTransfer quietHost quietRequestIo oneByteServer [1] oneByteRequest).2
      [(.download 0, quietEndIo), (.finish oneByteRequest, quietEndIo)] :=
  (download_untouched_iff quietHost quietRequestIo oneByteServer [1] oneByteRequest oneByteResponse
    [.download 0, .finish oneByteRequest] (by decide +kernel) rfl rfl).mpr rfl _ rfl

-- Ending the download of `/f` as an upload to `/x` deletes `/f`.
theorem download_deleted :
    ¬∀ (host : Host) (io : RequestIo) (s : Service) (uuid : Bytes)
      (request : FileTransferRequest) (response : FileTransferResponse)
      (steps : List (Call × EndIo)),
      (requestFileTransfer host io s uuid request).1 = some response →
      response.accepted = true → request.isUpload = false →
      (callStep host uuid).Throughout
        (fun t => FileStore.Untouched s.files t.files (Path.ofBytes request.filePath))
        (requestFileTransfer host io s uuid request).2 steps := by
  intro h
  have hbad := h quietHost quietRequestIo oneByteServer [1] oneByteRequest oneByteResponse
    [(.finish ⟨[47, 120], none, none, none, none, true, 0⟩, quietEndIo)] (by decide +kernel) rfl rfl
    _ List.prefix_rfl
  have hnames := hbad.1
  revert hnames
  decide +kernel

end Glider.Transfer

import Glider.Lib.Run
import Glider.Transfer.Service

namespace Glider.Transfer

open Glider.Lib

-- Messages of several streams in the order they are read. A stream whose answer was not a success
-- has returned and answers nothing more.
def onStreams {μ : Type} (chunk : Service → μ → FileChunkResponse × Service) :
    Machine (Service × List ℕ) (ℕ × μ) (Option FileChunkResponse) :=
  fun (s, returned) (stream, msg) =>
    if stream ∈ returned then (none, (s, returned))
    else
      let (response, s) := chunk s msg
      (some response, (s, if response.success then returned else stream :: returned))

-- The bytes `[idx * 64 KiB, min(size, (idx + 1) * 64 KiB))` of a file.
def fileChunk (bytes : Bytes) (chunkIdx : ℤ) : Bytes :=
  (bytes.drop (chunkIdx.toNat * kChunkSize)).take kChunkSize

def sentChunk (bytes : Bytes) (chunkIdx : ℤ) : FileChunkResponse :=
  ⟨true, false, some (chunkIdx, fileChunk bytes chunkIdx)⟩

-- A live download of `bytes`. The stream is spent once a short read has set its `failbit`.
def Downloading (s : Service) (uuid bytes : Bytes) (spent : Bool) : Prop :=
  ∃ entry i pos, s.activeTransfers uuid = some entry ∧
    entry.chunkCount = chunkCount bytes.length ∧
    entry.fileStream = ⟨some i, .input, pos, spent, spent, false⟩ ∧ s.files.data i = bytes

theorem length_fileChunk (bytes : Bytes) (chunkIdx : ℤ) :
    (fileChunk bytes chunkIdx).length =
      min kChunkSize (bytes.length - chunkIdx.toNat * kChunkSize) := by
  simp [fileChunk]

-- Only the chunk at `size / 64 KiB` can be short.
theorem fileChunk_short_iff (bytes : Bytes) {chunkIdx : ℤ} (h0 : 0 ≤ chunkIdx)
    (hlt : chunkIdx.toNat * kChunkSize < bytes.length) :
    (fileChunk bytes chunkIdx).length < kChunkSize ↔
      bytes.length % kChunkSize ≠ 0 ∧ chunkIdx = (bytes.length / kChunkSize : ℕ) := by
  rw [length_fileChunk]
  simp only [kChunkSize] at hlt ⊢
  omega

theorem downloadChunk_fresh {s : Service} {uuid bytes : Bytes} (hd : Downloading s uuid bytes false)
    {chunkIdx : ℤ} (hv : downloadChunkValid chunkIdx (chunkCount bytes.length) = true) :
    (downloadChunk s ⟨uuid, chunkIdx⟩).1 = sentChunk bytes chunkIdx ∧
    Downloading (downloadChunk s ⟨uuid, chunkIdx⟩).2 uuid bytes
      (decide ((fileChunk bytes chunkIdx).length < kChunkSize)) := by
  obtain ⟨entry, i, pos, hentry, hcount, hstream, hdata⟩ := hd
  obtain ⟨h0, h31, hlt⟩ := chunkIdx_lt_of_valid hv
  have hoff := chunkOffset_of_range h0 h31
  have hne : fileChunk bytes chunkIdx ≠ [] := by
    rw [← List.length_pos_iff, length_fileChunk]
    simp only [kChunkSize] at hlt ⊢
    omega
  have hread : (entry.fileStream.seekg (chunkOffset chunkIdx)).read s.files kChunkSize =
      (fileChunk bytes chunkIdx, ⟨some i, .input,
        chunkOffset chunkIdx + (fileChunk bytes chunkIdx).length,
        decide ((fileChunk bytes chunkIdx).length < kChunkSize),
        decide ((fileChunk bytes chunkIdx).length < kChunkSize), false⟩) := by
    simp [hstream, FStream.seekg, FStream.read, FStream.good, FStream.fail, FStream.isOpen, hdata,
      hoff, fileChunk]
  have hgood : (entry.fileStream.seekg (chunkOffset chunkIdx)).good = true := by
    simp [hstream, FStream.seekg, FStream.good, FStream.fail, FStream.isOpen]
  have hstep : downloadChunk s ⟨uuid, chunkIdx⟩ = (sentChunk bytes chunkIdx, s.store uuid
      { entry with fileStream :=
        ((entry.fileStream.seekg (chunkOffset chunkIdx)).read s.files kChunkSize).2 }) := by
    simp [downloadChunk, hentry, hcount, hv, hgood, hread, hne, sentChunk]
  rw [hstep]
  exact ⟨rfl, _, i, _, Function.update_self .., hcount, congrArg Prod.snd hread, hdata⟩

theorem downloadChunk_spent {s : Service} {uuid bytes : Bytes} (hd : Downloading s uuid bytes true)
    {chunkIdx : ℤ} (hv : downloadChunkValid chunkIdx (chunkCount bytes.length) = true) :
    (downloadChunk s ⟨uuid, chunkIdx⟩).1 = retryChunk := by
  obtain ⟨entry, i, pos, hentry, hcount, hstream, -⟩ := hd
  have hgood : (entry.fileStream.seekg (chunkOffset chunkIdx)).good = false := by
    simp [hstream, FStream.seekg, FStream.good, FStream.fail]
  simp [downloadChunk, hentry, hcount, hv, hgood]

-- No request follows one for the short last chunk.
def ShortChunkLast (size : ℕ) (requests : List (ℕ × ℤ)) : Prop :=
  size % kChunkSize = 0 ∨ ∀ r ∈ requests.dropLast, r.2 ≠ (size / kChunkSize : ℕ)

instance (size : ℕ) (requests : List (ℕ × ℤ)) : Decidable (ShortChunkLast size requests) :=
  inferInstanceAs (Decidable (_ ∨ _))

theorem shortChunkLast_cons {size : ℕ} {r next : ℕ × ℤ} {rest : List (ℕ × ℤ)} :
    ShortChunkLast size (r :: next :: rest) ↔
      (size % kChunkSize = 0 ∨ r.2 ≠ (size / kChunkSize : ℕ)) ∧
        ShortChunkLast size (next :: rest) := by
  simp only [ShortChunkLast, List.dropLast_cons_cons, List.forall_mem_cons]
  constructor
  · rintro (h | ⟨hr, hrest⟩)
    · exact ⟨Or.inl h, Or.inl h⟩
    · exact ⟨Or.inr hr, Or.inr hrest⟩
  · rintro ⟨h | hr, h' | hrest⟩
    · exact Or.inl h
    · exact Or.inl h
    · exact Or.inl h'
    · exact Or.inr ⟨hr, hrest⟩

def chunkRequests (uuid : Bytes) (requests : List (ℕ × ℤ)) : List (ℕ × FileChunkRequest) :=
  requests.map fun r => (r.1, ⟨uuid, r.2⟩)

-- Every stream that is asked first on a fresh stream object is still open, so the first answer is
-- the chunk; what follows depends on whether that read was short.
theorem outputs_downloading {s : Service} {uuid bytes : Bytes} {returned : List ℕ}
    (hd : Downloading s uuid bytes false) (requests : List (ℕ × ℤ))
    (hopen : ∀ r ∈ requests, r.1 ∉ returned)
    (hv : ∀ r ∈ requests, downloadChunkValid r.2 (chunkCount bytes.length) = true) :
    (onStreams downloadChunk).outputs (s, returned) (chunkRequests uuid requests) =
        requests.map (fun r => some (sentChunk bytes r.2)) ↔
      ShortChunkLast bytes.length requests := by
  induction requests generalizing s with
  | nil => simp [chunkRequests, ShortChunkLast]
  | cons r rest ih =>
    obtain ⟨hr, hrest⟩ := List.forall_mem_cons.mp hv
    obtain ⟨hor, horest⟩ := List.forall_mem_cons.mp hopen
    obtain ⟨hans, hnext⟩ := downloadChunk_fresh hd hr
    obtain ⟨h0, -, hlt⟩ := chunkIdx_lt_of_valid hr
    have hstep : onStreams downloadChunk (s, returned) (r.1, ⟨uuid, r.2⟩) =
        (some (sentChunk bytes r.2), ((downloadChunk s ⟨uuid, r.2⟩).2, returned)) := by
      simp only [onStreams, if_neg hor, hans]
      simp [sentChunk]
    have hcons : (onStreams downloadChunk).outputs (s, returned) (chunkRequests uuid (r :: rest)) =
        some (sentChunk bytes r.2) :: (onStreams downloadChunk).outputs
          ((downloadChunk s ⟨uuid, r.2⟩).2, returned) (chunkRequests uuid rest) := by
      simp only [chunkRequests, List.map_cons, Machine.outputs_cons, hstep]
    rw [hcons, List.map_cons, List.cons.injEq]
    simp only [true_and]
    by_cases hshort : (fileChunk bytes r.2).length < kChunkSize
    · obtain ⟨hmod, hidx⟩ := (fileChunk_short_iff bytes h0 hlt).mp hshort
      rw [decide_eq_true hshort] at hnext
      cases rest with
      | nil => simp [chunkRequests, ShortChunkLast]
      | cons next rest =>
        -- the stream object is spent: the next request fails whatever it asks for
        have hn := downloadChunk_spent hnext (hrest next (by simp))
        have hno := horest next (by simp)
        rw [shortChunkLast_cons]
        simp only [chunkRequests, List.map_cons, Machine.outputs_cons, List.cons.injEq]
        constructor
        · intro h
          have h1 := h.1
          simp only [onStreams, if_neg hno, hn] at h1
          simp [retryChunk, sentChunk] at h1
        · rintro ⟨h | h, -⟩
          · exact absurd h hmod
          · exact absurd hidx h
    · rw [decide_eq_false hshort] at hnext
      rw [ih hnext horest hrest]
      cases rest with
      | nil => simp [ShortChunkLast]
      | cons next rest =>
        have hlong := mt (fileChunk_short_iff bytes h0 hlt).mpr hshort
        rw [shortChunkLast_cons]
        refine ⟨fun h => ⟨?_, h⟩, fun h => h.2⟩
        by_contra hboth
        rw [not_or, not_not] at hboth
        exact hlong hboth

theorem downloading_of_accepted {host : Host} {io : RequestIo} {s : Service}
    {uuid bytes : Bytes} {request : FileTransferRequest} {response : FileTransferResponse}
    (hreq : (requestFileTransfer host io s uuid request).1 = some response)
    (hacc : response.accepted = true) (hdown : request.isUpload = false)
    (hbytes : s.files.contents (Path.ofBytes request.filePath) = some bytes) :
    response.chunkCount = some (chunkCount bytes.length) ∧
      Downloading (requestFileTransfer host io s uuid request).2 uuid bytes false := by
  obtain ⟨i, hi, hs, hcount⟩ := accepted_download hreq hacc hdown
  rw [FileStore.contents_of_names hi, Option.some.injEq] at hbytes
  subst hbytes
  refine ⟨hcount, downloadEntry s.files (Path.ofBytes request.filePath) i, i, 0, ?_, ?_, rfl, ?_⟩
  · rw [hs, activeTransfers_store_self]
  · simp only [downloadEntry]
  · rw [hs, files_store]

-- Every request of a download is answered with its chunk, whatever was asked before, exactly when
-- nothing is asked after a short last chunk: the short read leaves `failbit` set, `seekg` does not
-- clear it, and from then on every request fails.
theorem download_replies_iff (host : Host) (io : RequestIo) (s : Service) (uuid bytes : Bytes)
    (request : FileTransferRequest) (response : FileTransferResponse) (count : ℤ)
    (requests : List (ℕ × ℤ))
    (hreq : (requestFileTransfer host io s uuid request).1 = some response)
    (hacc : response.accepted = true) (hdown : request.isUpload = false)
    (hbytes : s.files.contents (Path.ofBytes request.filePath) = some bytes)
    (hcount : response.chunkCount = some count)
    (hidx : ∀ r ∈ requests, 0 ≤ r.2 ∧ r.2 < count) :
    (onStreams downloadChunk).outputs ((requestFileTransfer host io s uuid request).2, [])
        (chunkRequests uuid requests) = requests.map (fun r => some (sentChunk bytes r.2)) ↔
      ShortChunkLast bytes.length requests := by
  obtain ⟨hcc, hd⟩ := downloading_of_accepted hreq hacc hdown hbytes
  obtain rfl : chunkCount bytes.length = count := Option.some.inj (hcc.symm.trans hcount)
  apply outputs_downloading hd requests (by simp)
  intro r hr
  simpa [downloadChunkValid] using hidx r hr

section OneByte

-- A server with the one-byte file `/f`.
def oneByteServer : Service := ⟨FileStore.empty.put (Path.ofBytes [47, 102]) [65], fun _ => none⟩

def oneByteRequest : FileTransferRequest := ⟨[47, 102], none, none, none, none, false, 0⟩

def oneByteResponse : FileTransferResponse := ⟨true, some 1, some 1, [1], none⟩

def quietHost : Host := ⟨Path.ofBytes [47, 116], fun _ _ => []⟩

def quietRequestIo : RequestIo := ⟨false, false, false, false, false⟩

-- One byte more than a chunk.
def twoChunks : Bytes := List.replicate (kChunkSize + 1) 65

theorem length_twoChunks : twoChunks.length = 65537 := List.length_replicate

-- The first chunk is asked for on two streams, and on one of them again.
def repeated : List (ℕ × ℤ) := [(0, 0), (1, 0), (0, 0), (1, 1)]

theorem download_replies_repeated :
    let server : Service := ⟨FileStore.empty.put (Path.ofBytes [47, 102]) twoChunks, fun _ => none⟩
    (onStreams downloadChunk).outputs
        ((requestFileTransfer quietHost quietRequestIo server [1] oneByteRequest).2, [])
        (chunkRequests [1] repeated) = repeated.map fun r => some (sentChunk twoChunks r.2) := by
  intro server
  have hopen : FStream.openInput server.files (Path.ofBytes [47, 102]) = .opened .input 0 := rfl
  have hdata : server.files.data 0 = twoChunks := rfl
  have hcount : chunkCount 65537 = 2 := by decide
  have hreq : (requestFileTransfer quietHost quietRequestIo server [1] oneByteRequest).1 =
      some ⟨true, some 65537, some 2, [1], none⟩ := by
    simp only [requestFileTransfer, openTransfer, oneByteRequest, openDownload, quietRequestIo,
      Bool.false_eq_true, if_false, hopen, FStream.opened, hdata, length_twoChunks, hcount]
    rfl
  refine (download_replies_iff quietHost quietRequestIo server [1] twoChunks oneByteRequest _ 2
    repeated hreq rfl rfl rfl rfl (by decide)).mpr ?_
  rw [length_twoChunks]
  decide

-- Asking for the only chunk twice: the second answer is a failure.
theorem download_repeat_fails :
    ¬∀ (host : Host) (io : RequestIo) (s : Service) (uuid bytes : Bytes)
      (request : FileTransferRequest) (response : FileTransferResponse) (count : ℤ)
      (requests : List (ℕ × ℤ)),
      (requestFileTransfer host io s uuid request).1 = some response →
      response.accepted = true → request.isUpload = false →
      s.files.contents (Path.ofBytes request.filePath) = some bytes →
      response.chunkCount = some count → (∀ r ∈ requests, 0 ≤ r.2 ∧ r.2 < count) →
      (onStreams downloadChunk).outputs ((requestFileTransfer host io s uuid request).2, [])
        (chunkRequests uuid requests) = requests.map (fun r => some (sentChunk bytes r.2)) := by
  intro h
  have hbad := h quietHost quietRequestIo oneByteServer [1] [65] oneByteRequest oneByteResponse 1
    [(0, 0), (1, 0)] (by decide +kernel) rfl rfl (by decide +kernel) rfl (by decide)
  revert hbad
  decide +kernel

end OneByte

end Glider.Transfer

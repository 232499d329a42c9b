import Glider.RomBuild.Service

namespace Glider.RomBuild

abbrev Bytes := List UInt8

inductive ResultDetails where
  | localFilePath (path : String)
  | streamData (data : Bytes)
  | gofileLink (link : String)

-- A message of the stream that `get_build_result` answers with.
structure BuildResult where
  success : Bool
  uploadMethod : RomUploadMethod
  resultDetails : Option ResultDetails
  errorMessage : Option String
  fileName : Option String

-- The disk as one call sees it. The read with number `i` fails, or comes back with one byte and up
-- to `n` more, as far as there are any.
structure Disk where
  openFile : Path → Except String Bytes
  read : ℕ → Option ℕ
  uploadToGofile : Path → Except String String

namespace Server

def bufferSize : ℕ := 1024 * 1024

def readFailed : BuildResult := ⟨false, .stream, none, none, none⟩

def dataChunk (fileName : String) (data : Bytes) : BuildResult :=
  ⟨true, .stream, some (.streamData data), none, some fileName⟩

-- The loop over `file.read`. A read of no byte is the end of the file.
def streamFile (read : ℕ → Option ℕ) (fileName : String) (i : ℕ) (rest : Bytes) :
    List BuildResult :=
  match read i with
  | none => [readFailed]
  | some more =>
    let n := min (more + 1) (min bufferSize rest.length)
    if 0 < n then
      dataChunk fileName (rest.take n) :: streamFile read fileName (i + 1) (rest.drop n)
    else []
termination_by rest.length
decreasing_by
  rw [List.length_drop]
  omega

-- An error of the spawned task closes the channel and is not sent.
def uploadMessages (disk : Disk) (task : UploadTask) : List BuildResult :=
  let fileName := task.artifact.fileName
  match task.method with
  | .localFile =>
    [⟨true, .localFile, some (.localFilePath task.artifact.path), none, some fileName⟩]
  | .stream =>
    match disk.openFile task.artifact.path with
    | .ok bytes => streamFile disk.read fileName 0 bytes
    | .error _ => []
  | .goFile =>
    match disk.uploadToGofile task.artifact.path with
    | .ok link => [⟨true, .goFile, some (.gofileLink link), none, some fileName⟩]
    | .error _ => []
  | _ => [⟨false, .none, none, some "Unsupported upload method.", none⟩]

def resultMessages (disk : Disk) : State.BuildResult → List BuildResult
  | .failed errorMessage => [⟨false, .none, none, some errorMessage, none⟩]
  | .noUpload => [⟨true, .none, none, some "No upload task found for this build.", none⟩]
  | .upload task => uploadMessages disk task

end Server

-- A server stream as the client reads it, with the status at its end.
structure ResultStream where
  messages : List BuildResult
  finish : Except String Unit

def Server.getBuildResult (disk : Disk) (s : State) (id : ℕ) : ResultStream :=
  match s.getBuildResult id with
  | .ok result => ⟨resultMessages disk result, .ok ()⟩
  | .error status => ⟨[], .error status.message⟩

structure RomBuildResult where
  success : Bool
  cancelled : Bool
  uploadMethod : RomUploadMethod
  localFilePath : String
  gofileLink : String
  fileName : String
  errorMessage : String

inductive Observed where
  | artifactMeta (fileName : String) (totalSize : ℕ)
  | artifactChunk (data : Bytes)

namespace BuildResult

-- The getters of a field that is not set return its default.
def streamData (message : BuildResult) : Bytes :=
  match message.resultDetails with
  | some (.streamData data) => data
  | _ => []

def localFilePath (message : BuildResult) : String :=
  match message.resultDetails with
  | some (.localFilePath path) => path
  | _ => ""

def gofileLink (message : BuildResult) : String :=
  match message.resultDetails with
  | some (.gofileLink link) => link
  | _ => ""

end BuildResult

namespace RomBuildOrchestrator

def emptyResult : RomBuildResult := ⟨false, false, .none, "", "", "", ""⟩

def failureText (first : BuildResult) (finish : Except String Unit) : String :=
  let text := first.errorMessage.getD ""
  if text ≠ "" then text
  else
    match finish with
    | .error message => message
    | .ok _ => "Build failed with unknown error"

-- What the success path takes from the messages, before the status of the stream is known.
def collectMessages (result : RomBuildResult) (first : BuildResult) (rest : List BuildResult) :
    RomBuildResult × List Observed :=
  match first.uploadMethod with
  | .localFile => ({ result with localFilePath := first.localFilePath }, [])
  | .goFile => ({ result with gofileLink := first.gofileLink }, [])
  | .stream => (result, .artifactMeta result.fileName 0 :: .artifactChunk first.streamData ::
      rest.map fun chunk => .artifactChunk chunk.streamData)
  | _ => (result, [])

def finishResult (result : RomBuildResult) : Except String Unit → RomBuildResult
  | .ok _ => result
  | .error message => { result with
      success := false
      errorMessage := "Build succeeded but result stream finished with error: " ++ message }

-- `running` is what the shared `BuildState` says.
def collectResult (running : Bool) (stream : Option ResultStream) :
    RomBuildResult × List Observed :=
  if running = false then ({ emptyResult with cancelled := true }, [])
  else
    match stream with
    | some ⟨first :: rest, finish⟩ =>
      let result : RomBuildResult := { emptyResult with
        uploadMethod := first.uploadMethod
        fileName := first.fileName.getD "" }
      if first.success then
        let (result, observed) := collectMessages { result with success := true } first rest
        (finishResult result finish, observed)
      else ({ result with errorMessage := failureText first finish }, [])
    | _ => ({ emptyResult with
        errorMessage := "Failed to get build result stream or read from it" }, [])

end RomBuildOrchestrator

-- What has been handed to `onArtifactChunk`.
def delivered (observed : List Observed) : Bytes :=
  observed.flatMap fun
    | .artifactChunk data => data
    | .artifactMeta _ _ => []

-- What is left unread when a read fails.
def unread (read : ℕ → Option ℕ) (i : ℕ) (rest : Bytes) : Option Bytes :=
  match read i with
  | none => some rest
  | some more =>
    let n := min (more + 1) (min Server.bufferSize rest.length)
    if 0 < n then unread read (i + 1) (rest.drop n) else none
termination_by rest.length
decreasing_by
  rw [List.length_drop]
  omega

section Streaming

open Server RomBuildOrchestrator

variable (read : ℕ → Option ℕ) (fileName : String)

-- The chunks are what was read, in order.
theorem flatMap_streamFile (i : ℕ) (rest : Bytes) :
    (streamFile read fileName i rest).flatMap (·.streamData) ++ (unread read i rest).getD [] =
      rest := by
  fun_induction streamFile read fileName i rest with
  | case1 i rest hfails => simp [unread, hfails, readFailed, BuildResult.streamData]
  | case2 i rest more hread n hpos ih =>
    have hunread : unread read i rest = unread read (i + 1) (rest.drop n) := by
      rw [unread, hread]
      exact if_pos hpos
    rw [hunread, List.flatMap_cons, List.append_assoc, ih]
    exact List.take_append_drop n rest
  | case3 i rest more hread n hzero =>
    have hrest : rest = [] := by
      have hsize : 0 < bufferSize := by decide
      refine List.length_eq_zero_iff.mp ?_
      omega
    simp [unread, hread, hrest]

theorem delivered_chunks (messages : List BuildResult) :
    delivered (messages.map fun chunk => .artifactChunk chunk.streamData) =
      messages.flatMap (·.streamData) := by
  simp [delivered, List.flatMap_map]

theorem streamFile_cases (i : ℕ) (rest : Bytes) :
    (streamFile read fileName i rest = [readFailed] ∧ unread read i rest = some rest) ∨
      (streamFile read fileName i rest = [] ∧ unread read i rest = none) ∨
      ∃ data others, data ≠ [] ∧
        streamFile read fileName i rest = dataChunk fileName data :: others := by
  rw [streamFile, unread]
  cases hread : read i with
  | none => exact .inl ⟨rfl, rfl⟩
  | some more =>
    simp only
    split
    case isTrue hpos =>
      refine .inr (.inr ⟨_, _, ?_, rfl⟩)
      rw [← List.length_pos_iff, List.length_take]
      omega
    case isFalse => exact .inr (.inl ⟨rfl, rfl⟩)

-- With a first chunk the client reports a success, whatever comes after it.
theorem collectResult_dataChunk (data : Bytes) (others : List BuildResult) :
    let collected := collectResult true (some ⟨dataChunk fileName data :: others, .ok ()⟩)
    collected.1.success = true ∧
      delivered collected.2 = (dataChunk fileName data :: others).flatMap (·.streamData) := by
  refine ⟨rfl, ?_⟩
  rw [← delivered_chunks]
  rfl

end Streaming

section Delivery

open Server RomBuildOrchestrator

variable {disk : Disk} {path : Path} {s : State} {id : ℕ} {task : UploadTask}

def Whole (disk : Disk) (path : Path) (collected : RomBuildResult × List Observed) : Prop :=
  collected.1.success = true → disk.openFile path = .ok (delivered collected.2)

-- Reading fails with the first byte, after the last one, or not at all.
def ReadsWhole (disk : Disk) (path : Path) : Prop :=
  ∀ bytes left, disk.openFile path = .ok bytes → unread disk.read 0 bytes = some left →
    left = [] ∨ left = bytes

theorem whole_streamFile_iff (fileName : String) {bytes : Bytes}
    (hopen : disk.openFile path = .ok bytes) :
    Whole disk path (collectResult true (some ⟨streamFile disk.read fileName 0 bytes, .ok ()⟩)) ↔
      ReadsWhole disk path := by
  have hbytes := flatMap_streamFile disk.read fileName 0 bytes
  have hreads : ReadsWhole disk path ↔
      ∀ left, unread disk.read 0 bytes = some left → left = [] ∨ left = bytes := by
    refine ⟨fun h left => h bytes left hopen, ?_⟩
    intro h other left hother hleft
    rw [hopen, Except.ok.injEq] at hother
    subst hother
    exact h left hleft
  rw [hreads]
  obtain ⟨hmessages, hunread⟩ | ⟨hmessages, hunread⟩ | ⟨data, others, hdata, hmessages⟩ :=
    streamFile_cases disk.read fileName 0 bytes
  · have hfails : ¬ (collectResult true (some ⟨[readFailed], .ok ()⟩)).1.success = true := by
      decide
    rw [hmessages, hunread]
    simp [Whole, hfails]
  · have hfails : ¬ (collectResult true (some ⟨[], .ok ()⟩)).1.success = true := by decide
    rw [hmessages, hunread]
    simp [Whole, hfails]
  · rw [hmessages] at hbytes ⊢
    obtain ⟨hsuccess, hdelivered⟩ := collectResult_dataChunk fileName data others
    rw [Whole, hdelivered, hopen, Except.ok.injEq, forall_prop_of_true hsuccess]
    generalize hsent : (dataChunk fileName data :: others).flatMap (·.streamData) = sent at hbytes
    have hsome : sent ≠ [] := by
      rw [← hsent, List.flatMap_cons]
      exact List.append_ne_nil_of_left_ne_nil hdata _
    cases hunread : unread disk.read 0 bytes with
    | none => simpa [hunread] using hbytes.symm
    | some left =>
      rw [hunread, Option.getD_some] at hbytes
      have hleft : left ≠ bytes := by
        rw [← hbytes]
        simpa using hsome
      constructor
      · intro hall other hother
        rw [Option.some.injEq] at hother
        rw [← hother]
        exact .inl (List.append_right_eq_self.mp (hbytes.trans hall))
      · intro hends
        obtain rfl | hsame := hends left rfl
        · rw [← hbytes, List.append_nil]
        · exact absurd hsame hleft

theorem streamed_whole_iff (running : Bool) (hresult : s.getBuildResult id = .ok (.upload task))
    (hmethod : task.method = .stream) :
    Whole disk task.artifact.path
        (collectResult running (some (Server.getBuildResult disk s id))) ↔
      (running = true → ReadsWhole disk task.artifact.path) := by
  cases running with
  | false => simp [Whole, collectResult, emptyResult]
  | true =>
    rw [forall_prop_of_true rfl]
    cases hopen : disk.openFile task.artifact.path with
    | ok bytes =>
      rw [← whole_streamFile_iff task.artifact.fileName hopen]
      simp [Server.getBuildResult, hresult, resultMessages, uploadMessages, hmethod, hopen]
    | error message =>
      have hreads : ReadsWhole disk task.artifact.path := by
        intro bytes left hok
        rw [hopen] at hok
        cases hok
      simp [Whole, Server.getBuildResult, hresult, resultMessages, uploadMessages, hmethod,
        hopen, collectResult, emptyResult, hreads]

namespace Sample

def upload : UploadTask := ⟨.stream, 0, ⟨"out/rom.zip", "rom.zip", .romZip⟩⟩

-- Build 0 is done and its artifact is to be streamed.
def uploading : State :=
  { State.initial with known := [⟨0, .success⟩], uploads := [upload] }

-- Two bytes that come one at a time, with the reads from the given one on failing.
def twoBytes (fails : ℕ) : Disk :=
  ⟨fun _ => .ok [80, 75], fun i => if i < fails then some 0 else none, fun _ => .error "offline"⟩

end Sample

theorem streamed_whole_twoBytes :
    Whole (Sample.twoBytes 2) Sample.upload.artifact.path
      (collectResult true (some (Server.getBuildResult (Sample.twoBytes 2) Sample.uploading 0))) :=
  (streamed_whole_iff true (by decide) rfl).mpr fun _ bytes left hopen hleft => by
    obtain rfl : [80, 75] = bytes := by simpa [Sample.twoBytes] using hopen
    have hunread : unread (Sample.twoBytes 2).read 0 [80, 75] = some [] := by
      simp [unread, Sample.twoBytes, Server.bufferSize]
    rw [hunread, Option.some.injEq] at hleft
    exact .inl hleft.symm

-- The second read fails, and the client reports a success with one byte of two.
theorem streamed_truncated :
    ¬ Whole (Sample.twoBytes 1) Sample.upload.artifact.path
      (collectResult true
        (some (Server.getBuildResult (Sample.twoBytes 1) Sample.uploading 0))) := by
  have hresult : Server.getBuildResult (Sample.twoBytes 1) Sample.uploading 0 =
      ⟨[Server.dataChunk "rom.zip" [80], Server.readFailed], .ok ()⟩ := by
    simp [Server.getBuildResult, Sample.uploading, Sample.upload, Sample.twoBytes,
      State.getBuildResult, State.status, Server.resultMessages, Server.uploadMessages,
      Server.streamFile, Server.bufferSize]
  rw [hresult]
  intro hwhole
  have hdelivered : Except.ok [80, 75] = (Except.ok [80] : Except String Bytes) := hwhole rfl
  simp at hdelivered

end Delivery

end Glider.RomBuild

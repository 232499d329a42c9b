import Glider.Lib.Bytes
import Glider.Lib.OutputFile

namespace Glider.KernelBuild.Orchestrator

open Glider.Lib
open Bytes (ascii)

abbrev Path := Lib.Bytes

inductive ArtifactChunk where
  | metadata (filename : Lib.Bytes) (totalSize : ℕ)
  | data (bytes : Lib.Bytes)
  | unset

-- `data()` of a chunk without data is empty.
def ArtifactChunk.bytes : ArtifactChunk → Lib.Bytes
  | .data bytes => bytes
  | _ => []

-- What the service sends, and the status in the end: `none` is OK.
structure Stream where
  chunks : List ArtifactChunk
  status : Option Lib.Bytes

-- The file system: whether the file can be opened and removed, and how its writes come out.
structure Host where
  tempDirectory : Path
  opens : Path → Bool
  write : ℕ → Flush
  close : Flush
  removes : Bool

inductive Notice where
  | failed (message : Lib.Bytes)
  | artifactMeta (filename : Lib.Bytes) (totalSize : ℕ)
  | artifactChunk (bytes : Lib.Bytes)

abbrev Files := Path → Option Lib.Bytes

structure Outcome where
  returned : Bool
  outPath : Option Path
  files : Files
  notices : List Notice

-- `std::filesystem::path::filename`.
def filename (path : Path) : Path := (path.reverse.takeWhile (· ≠ 47)).reverse

-- A download whose local file is open.
structure Download where
  localPath : Path
  name : Lib.Bytes
  totalSize : ℕ
  received : List ArtifactChunk
  status : Option Lib.Bytes

namespace Download

def data (d : Download) : List Lib.Bytes := d.received.map ArtifactChunk.bytes

end Download

section

variable (host : Host) (buildId : ℤ)

def localPath (name : Path) : Path :=
  host.tempDirectory ++ ascii s!"/kernelbuild_{buildId}_" ++ name

-- Up to the opening of the local file.
def startDownload : Option Stream → Except Lib.Bytes Download
  | none => .error (ascii "Failed to start artifact stream.")
  | some ⟨.metadata name totalSize :: received, status⟩ =>
    if filename name = [] ∨ filename name = ascii "." ∨ filename name = ascii ".." then
      .error (ascii "Build service returned an invalid artifact name.")
    else if !host.opens (localPath host buildId (filename name)) then
      .error (ascii "Failed to open output file for writing.")
    else .ok ⟨localPath host buildId (filename name), name, totalSize, received, status⟩
  | some _ => .error (ascii "No artifact metadata received.")

-- What the local file holds when it is closed.
def stored (d : Download) : Lib.Bytes :=
  (OutputFile.writeAll host.write 0 d.data .empty).close host.close

def finishDownload (d : Download) (files : Files) : Outcome :=
  let files := Function.update files d.localPath (some (stored host d))
  let notices := Notice.artifactMeta d.name d.totalSize :: d.data.map .artifactChunk
  match d.status with
  | some message =>
    let failed := Notice.failed (ascii "Failed to retrieve artifact: " ++ message)
    let files := if host.removes then Function.update files d.localPath none else files
    ⟨false, none, files, notices ++ [failed]⟩
  | none => ⟨true, some d.localPath, files, notices⟩

def downloadArtifact (stream : Option Stream) (files : Files) : Outcome :=
  match startDownload host buildId stream with
  | .error message => ⟨false, none, files, [.failed message]⟩
  | .ok d => finishDownload host d files

-- A file that is announced as downloaded is what was sent, with the length that was announced, and
-- a file of a download that failed is gone.
structure Honest (stream : Option Stream) (files : Files) : Prop where
  downloaded : (downloadArtifact host buildId stream files).returned = true →
    ∃ d, startDownload host buildId stream = .ok d ∧
      (downloadArtifact host buildId stream files).outPath = some d.localPath ∧
      (downloadArtifact host buildId stream files).files d.localPath = some d.data.flatten ∧
      d.data.flatten.length = d.totalSize
  failed : (downloadArtifact host buildId stream files).returned = false →
    ∀ d, startDownload host buildId stream = .ok d →
      (downloadArtifact host buildId stream files).files d.localPath = none

-- Every write, and the flush at the end, passes.
def WritesPass (d : Download) : Prop :=
  OutputFile.Passes host.write 0 d.data ∧
    ((OutputFile.writeAll host.write 0 d.data .empty).pending ≠ [] → host.close.IsPass)

-- Once the local file is open: with an OK in the end nothing is lost on the way to the disk and as
-- much comes as was announced, and with an error the file can be removed.
def Unbroken (stream : Option Stream) : Prop :=
  ∀ d, startDownload host buildId stream = .ok d →
    match d.status with
    | none => WritesPass host d ∧ d.data.flatten.length = d.totalSize
    | some _ => host.removes = true

variable {host buildId}

theorem stored_eq_iff (d : Download) : stored host d = d.data.flatten ↔ WritesPass host d := by
  have htracks : OutputFile.Tracks (OutputFile.writeAll host.write 0 d.data .empty)
      ([] ++ d.data.flatten) := OutputFile.Tracks.empty.writeAll 0 d.data
  rw [List.nil_append] at htracks
  rw [stored, OutputFile.close_eq_iff htracks, OutputFile.bad_writeAll_iff rfl, WritesPass]

theorem honest_of_error {stream : Option Stream} {message : Lib.Bytes}
    (h : startDownload host buildId stream = .error message) (files : Files) :
    Honest host buildId stream files where
  downloaded hreturned := by
    rw [downloadArtifact, h] at hreturned
    cases hreturned
  failed _ d hd := by
    rw [h] at hd
    cases hd

section Started

variable {stream : Option Stream} {d : Download} (files : Files)

theorem downloadArtifact_of_ok (h : startDownload host buildId stream = .ok d) :
    downloadArtifact host buildId stream files = finishDownload host d files := by
  rw [downloadArtifact, h]

theorem honest_complete_iff (h : startDownload host buildId stream = .ok d)
    (hstatus : d.status = none) :
    Honest host buildId stream files ↔
      stored host d = d.data.flatten ∧ d.data.flatten.length = d.totalSize := by
  have houtcome := downloadArtifact_of_ok files h
  have hreturned : (finishDownload host d files).returned = true := by
    simp only [finishDownload, hstatus]
  have hpath : (finishDownload host d files).outPath = some d.localPath := by
    simp only [finishDownload, hstatus]
  have hfiles : (finishDownload host d files).files d.localPath = some (stored host d) := by
    simp only [finishDownload, hstatus, Function.update_self]
  constructor
  · intro hhonest
    obtain ⟨d', hd', -, hstored, hlength⟩ := hhonest.downloaded (by rw [houtcome, hreturned])
    obtain rfl := Except.ok.inj (h.symm.trans hd')
    rw [houtcome, hfiles] at hstored
    exact ⟨Option.some.inj hstored, hlength⟩
  · rintro ⟨hstored, hlength⟩
    refine ⟨fun _ => ⟨d, h, ?_, ?_, hlength⟩, fun hfalse => ?_⟩
    · rw [houtcome, hpath]
    · rw [houtcome, hfiles, hstored]
    · rw [houtcome, hreturned] at hfalse
      cases hfalse

theorem honest_broken_iff {message : Lib.Bytes} (h : startDownload host buildId stream = .ok d)
    (hstatus : d.status = some message) :
    Honest host buildId stream files ↔ host.removes = true := by
  have houtcome := downloadArtifact_of_ok files h
  have hreturned : (finishDownload host d files).returned = false := by
    simp only [finishDownload, hstatus]
  have hfiles : (finishDownload host d files).files d.localPath =
      if host.removes then none else some (stored host d) := by
    simp only [finishDownload, hstatus]
    split
    · rw [Function.update_self]
    · rw [Function.update_self]
  constructor
  · intro hhonest
    have hgone := hhonest.failed (by rw [houtcome, hreturned]) d h
    rw [houtcome, hfiles] at hgone
    by_contra hremoves
    rw [if_neg hremoves] at hgone
    cases hgone
  · intro hremoves
    refine ⟨fun htrue => ?_, fun _ d' hd' => ?_⟩
    · rw [houtcome, hreturned] at htrue
      cases htrue
    · obtain rfl := Except.ok.inj (h.symm.trans hd')
      rw [houtcome, hfiles, if_pos hremoves]

end Started

-- The download keeps its word just when nothing breaks unseen.
theorem honest_iff (stream : Option Stream) (files : Files) :
    Honest host buildId stream files ↔ Unbroken host buildId stream := by
  cases hstart : startDownload host buildId stream with
  | error message =>
    refine iff_of_true (honest_of_error hstart files) fun d hd => ?_
    rw [hstart] at hd
    cases hd
  | ok d =>
    simp only [Unbroken, hstart, Except.ok.injEq, forall_eq']
    cases hstatus : d.status with
    | none => rw [honest_complete_iff files hstart hstatus, stored_eq_iff]
    | some message => exact honest_broken_iff files hstart hstatus

end

-- A disk that takes nothing of the second chunk, and a stream that breaks off and says OK.
def kernelStream (chunks : List ArtifactChunk) : Option Stream :=
  some ⟨.metadata (ascii "kernel.zip") 4 :: chunks, none⟩

def fullDisk : Host := ⟨ascii "/tmp", fun _ => true, fun _ => .fails 0, .passes 0, true⟩

def emptyDisk : Host := { fullDisk with write := fun _ => .passes 0 }

theorem honest_not_fullDisk :
    ¬Honest fullDisk 1 (kernelStream [.data (ascii "boot")]) (fun _ => none) ∧
      ¬Honest emptyDisk 1 (kernelStream [.data (ascii "bo")]) (fun _ => none) := by
  constructor
  · intro h
    obtain ⟨d, hd, -, hfiles, -⟩ := h.downloaded rfl
    obtain rfl := Except.ok.inj hd
    revert hfiles
    decide
  · intro h
    obtain ⟨d, hd, -, -, hlength⟩ := h.downloaded rfl
    obtain rfl := Except.ok.inj hd
    revert hlength
    decide

end Glider.KernelBuild.Orchestrator

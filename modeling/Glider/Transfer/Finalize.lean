import Glider.Transfer.ReadOnly

namespace Glider.Transfer

open Glider.Lib

variable (host : Host) (io : EndIo)

-- The checks of `endFileTransfer` on the upload itself all pass.
def PassesChecks (s : Service) (entry : TransferEntry) : Prop :=
  entry.coverage.complete = true ∧
    (entry.checksumAlgorithm = .None ∨
      verifyFileChecksum host s.files entry.filePath entry.checksum entry.checksumAlgorithm = true) ∧
    (entry.overwriteExisting = true ∨ io.existsError = true ∨
      s.files.names entry.destinationPath = none)

def ReachesMove (s : Service) (entry : TransferEntry) (request : FileTransferRequest) : Prop :=
  Path.ofBytes request.filePath = entry.destinationPath ∧ PassesChecks host io s entry

-- The destination is there and is removed to make room.
def RemovesDestination (files : Files) (entry : TransferEntry) : Prop :=
  entry.overwriteExisting = true ∧ io.removeDestination = none ∧
    files.names entry.destinationPath ≠ none

-- How the rename ends, from the state before the call.
def renameError (files : Files) (entry : TransferEntry) : Option Errc :=
  match io.rename with
  | some e => some e
  | none =>
    if entry.destinationPath.isEmpty ∨ files.names entry.filePath = none then
      some .no_such_file_or_directory
    else none

-- The copy goes ahead: there is something to copy and room for it.
def CopyStarts (files : Files) (entry : TransferEntry) : Prop :=
  files.contents entry.filePath ≠ none ∧ entry.destinationPath.isEmpty = false ∧
    (entry.overwriteExisting = true ∨ files.names entry.destinationPath = none)

-- The copy breaks off, or it is complete and only the temporary file cannot go.
def CopyDamages (files : Files) (entry : TransferEntry) : Prop :=
  match io.copyFile with
  | .completes =>
    io.removeCopied ≠ none ∧
      files.contents entry.destinationPath ≠ files.contents entry.filePath
  | .fails none => RemovesDestination io files entry
  | .fails (some left) => files.contents entry.destinationPath ≠ some left

-- The rename fails after the destination was removed, or a copy over it does not end well.
def DamagesDestination (files : Files) (entry : TransferEntry) : Prop :=
  match renameError io files entry with
  | none => False
  | some .cross_device_link =>
    (CopyStarts files entry ∧ CopyDamages io files entry) ∨
      (¬CopyStarts files entry ∧ RemovesDestination io files entry)
  | some _ => RemovesDestination io files entry

-- The name of the temporary file is random and drawn after the destination is named. Should the
-- two coincide all the same, every clean-up of the temporary file is one of the destination.
def SparesOwnTemporary (s : Service) (entry : TransferEntry) (request : FileTransferRequest) :
    Prop :=
  s.files.names entry.destinationPath = none ∨
    (¬ReachesMove host io s entry request ∧ io.cleanUp ≠ none) ∨
    (ReachesMove host io s entry request ∧ ¬RemovesDestination io s.files entry ∧
      (renameError io s.files entry = none ∨ io.cleanUp ≠ none))

def SparesDestination (s : Service) (entry : TransferEntry) (request : FileTransferRequest) :
    Prop :=
  if entry.filePath = entry.destinationPath then SparesOwnTemporary host io s entry request
  else ¬(ReachesMove host io s entry request ∧ DamagesDestination io s.files entry)

def cleanedUp (files : Files) (entry : TransferEntry) : Files :=
  if io.cleanUp.isSome then files else files.unlink entry.filePath

variable {host io}

theorem discard_answer (s : Service) (uuid : Bytes) (entry : TransferEntry)
    {code : GenericResponseCode} (message : String) (hcode : code ≠ .Success) :
    (discard io s uuid entry code message).1.isSuccess = false := by
  unfold discard
  split
  · rfl
  · cases code <;> first | rfl | exact absurd rfl hcode

theorem discard_files (s : Service) (uuid : Bytes) (entry : TransferEntry)
    (code : GenericResponseCode) (message : String) :
    (discard io s uuid entry code message).2.files = cleanedUp io s.files entry := by
  unfold discard cleanedUp
  split <;> rfl

theorem cleanedUp_of_ne {files : Files} {entry : TransferEntry} {p : Path}
    (hp : p ≠ entry.filePath) : (cleanedUp io files entry).contents p = files.contents p := by
  unfold cleanedUp
  split
  · rfl
  · exact FileStore.contents_unlink_of_ne hp

section Upload

variable {s : Service} {uuid : Bytes} {entry : TransferEntry} {request : FileTransferRequest}

-- An upload that fails a check is only cleaned up.
theorem finalizeUpload_of_fails (hr : ¬PassesChecks host io s entry) :
    (finalizeUpload host io s uuid entry).1.isSuccess = false ∧
      (finalizeUpload host io s uuid entry).2.files = cleanedUp io s.files entry := by
  unfold finalizeUpload
  by_cases hcomplete : (!entry.coverage.complete) = true
  · rw [if_pos hcomplete]
    exact ⟨discard_answer _ _ _ _ (by decide), discard_files ..⟩
  rw [if_neg hcomplete]
  by_cases hsum : entry.checksumAlgorithm ≠ .None ∧ (!verifyFileChecksum host s.files
      entry.filePath entry.checksum entry.checksumAlgorithm) = true
  · rw [if_pos hsum]
    exact ⟨discard_answer _ _ _ _ (by decide), discard_files ..⟩
  rw [if_neg hsum]
  by_cases hexists : (!entry.overwriteExisting &&
      (!io.existsError && (s.files.names entry.destinationPath).isSome)) = true
  · rw [if_pos hexists]
    exact ⟨rfl, rfl⟩
  -- all three checks have passed
  refine absurd ⟨by simpa using hcomplete, ?_, ?_⟩ hr
  · simp only [ne_eq, Bool.not_eq_true', not_and, Bool.not_eq_false] at hsum
    exact or_iff_not_imp_left.mpr hsum
  · cases ho : entry.overwriteExisting with
    | true => exact Or.inl rfl
    | false =>
      cases he : io.existsError with
      | true => exact Or.inr (Or.inl rfl)
      | false =>
        simp only [ho, he, Bool.not_false, Bool.true_and, Bool.not_eq_true,
          Option.isSome_eq_false_iff, Option.isNone_iff_eq_none] at hexists
        exact Or.inr (Or.inr hexists)

-- One that passes them is decided by the move.
theorem finalizeUpload_of_passes (hr : PassesChecks host io s entry) :
    finalizeUpload host io s uuid entry =
      let moved := moveUploaded io s.files entry
      if moved.1 then
        (.response .Success "File transfer ended successfully",
          { s with files := moved.2 }.erase uuid)
      else
        discard io { s with files := moved.2 } uuid entry .ErrorCommandIgnored
          ("Failed to move uploaded file: " ++ io.what) := by
  obtain ⟨hcomplete, hsum, hexists⟩ := hr
  have hsum' : ¬(entry.checksumAlgorithm ≠ .None ∧ (!verifyFileChecksum host s.files entry.filePath
      entry.checksum entry.checksumAlgorithm) = true) := by
    rintro ⟨hn, hv⟩
    rcases hsum with h | h
    · exact hn h
    · rw [h] at hv
      cases hv
  have hexists' : ¬(!entry.overwriteExisting &&
      (!io.existsError && (s.files.names entry.destinationPath).isSome)) = true := by
    rcases hexists with h | h | h <;> simp [h]
  unfold finalizeUpload
  rw [if_neg (by simp [hcomplete]), if_neg hsum', if_neg hexists']
  generalize moveUploaded io s.files entry = m
  obtain ⟨ok, files⟩ := m
  cases ok <;> rfl

-- The call closes the stream of the entry and compares the paths first.
theorem end_upload (hactive : s.activeTransfers uuid = some entry)
    (huuid : request.uuid = some uuid) (hup : request.isUpload = true) :
    endFileTransfer host io s request =
      let closed := { entry with fileStream := entry.fileStream.close }
      if Path.ofBytes request.filePath ≠ entry.destinationPath then
        discard io (s.store uuid closed) uuid closed .ErrorInvalidArgument
          "Upload destination path mismatch for this transfer"
      else finalizeUpload host io (s.store uuid closed) uuid closed := by
  simp only [endFileTransfer, huuid, Option.getD_some, hactive, hup, if_true]

theorem end_of_not_reachesMove (hactive : s.activeTransfers uuid = some entry)
    (huuid : request.uuid = some uuid) (hup : request.isUpload = true)
    (hr : ¬ReachesMove host io s entry request) :
    (endFileTransfer host io s request).1.isSuccess = false ∧
      (endFileTransfer host io s request).2.files = cleanedUp io s.files entry := by
  rw [end_upload hactive huuid hup]
  by_cases hpath : Path.ofBytes request.filePath ≠ entry.destinationPath
  · simp only [if_pos hpath]
    exact ⟨discard_answer _ _ _ _ (by decide), discard_files ..⟩
  simp only [if_neg hpath]
  exact finalizeUpload_of_fails (fun h => hr ⟨not_not.mp hpath, h⟩)

theorem end_of_reachesMove (hactive : s.activeTransfers uuid = some entry)
    (huuid : request.uuid = some uuid) (hup : request.isUpload = true)
    (hr : ReachesMove host io s entry request) :
    (endFileTransfer host io s request).1.isSuccess = (moveUploaded io s.files entry).1 ∧
      (endFileTransfer host io s request).2.files =
        if (moveUploaded io s.files entry).1 then (moveUploaded io s.files entry).2
        else cleanedUp io (moveUploaded io s.files entry).2 entry := by
  rw [end_upload hactive huuid hup]
  have hpasses : PassesChecks host io
      (s.store uuid { entry with fileStream := entry.fileStream.close })
      { entry with fileStream := entry.fileStream.close } := hr.2
  have hmove : moveUploaded io s.files { entry with fileStream := entry.fileStream.close } =
      moveUploaded io s.files entry := rfl
  simp only [if_neg (not_not.mpr hr.1), finalizeUpload_of_passes hpasses, files_store, hmove]
  generalize moveUploaded io s.files entry = m
  obtain ⟨ok, files⟩ := m
  cases ok with
  | true => exact ⟨rfl, rfl⟩
  | false => exact ⟨discard_answer _ _ _ _ (by decide), discard_files ..⟩

end Upload

section Move

variable {files : Files} {entry : TransferEntry}

-- The files after the destination was removed to make room.
def cleared (io : EndIo) (files : Files) (entry : TransferEntry) : Files :=
  if entry.overwriteExisting && io.removeDestination.isNone then
    files.unlink entry.destinationPath
  else files

theorem cleared_of_not_removes (h : ¬RemovesDestination io files entry) :
    cleared io files entry = files := by
  unfold cleared
  split
  · rename_i hc
    simp only [Bool.and_eq_true, Option.isNone_iff_eq_none] at hc
    refine FileStore.unlink_of_names_none ?_
    by_contra hn
    exact h ⟨hc.1, hc.2, hn⟩
  · rfl

theorem cleared_of_removes (h : RemovesDestination io files entry) :
    cleared io files entry = files.unlink entry.destinationPath := by
  simp [cleared, h.1, h.2.1]

theorem contents_cleared_iff :
    (cleared io files entry).contents entry.destinationPath =
      files.contents entry.destinationPath ↔ ¬RemovesDestination io files entry := by
  by_cases h : RemovesDestination io files entry
  · rw [cleared_of_removes h, FileStore.contents_unlink_self]
    have hn : files.contents entry.destinationPath ≠ none :=
      fun hn => h.2.2 (FileStore.contents_eq_none.mp hn)
    exact ⟨fun hc => absurd hc.symm hn, fun hc => absurd h hc⟩
  · rw [cleared_of_not_removes h]
    exact ⟨fun _ => h, fun _ => rfl⟩

theorem names_cleared_of_ne {p : Path} (hp : p ≠ entry.destinationPath) :
    (cleared io files entry).names p = files.names p := by
  unfold cleared
  split
  · exact FileStore.names_unlink_of_ne hp
  · rfl

theorem contents_cleared_of_ne {p : Path} (hp : p ≠ entry.destinationPath) :
    (cleared io files entry).contents p = files.contents p := by
  unfold cleared
  split
  · exact FileStore.contents_unlink_of_ne hp
  · rfl

-- The rename goes by the temporary file alone.
theorem renameFile_eq {files' : Files}
    (hsource : files'.names entry.filePath = files.names entry.filePath) :
    match renameError io files entry with
    | some e => renameFile io.rename files' entry.filePath entry.destinationPath = .error e
    | none => ∃ moved,
        renameFile io.rename files' entry.filePath entry.destinationPath = .ok moved := by
  unfold renameError renameFile
  cases io.rename with
  | some e => rfl
  | none =>
    cases hempty : entry.destinationPath.isEmpty with
    | true => simp
    | false =>
      cases hname : files.names entry.filePath with
      | none =>
        rw [hname] at hsource
        simp [FileStore.rename_eq_none.mpr hsource]
      | some i =>
        rw [hname] at hsource
        simp [FileStore.rename_of_names hsource]

theorem move_of_renamed {moved : Files}
    (h : renameFile io.rename (cleared io files entry) entry.filePath entry.destinationPath =
      .ok moved) :
    moveUploaded io files entry = (true, moved) := by
  unfold cleared at h
  simp only [moveUploaded, h]

theorem move_of_error {e : Errc} (hx : e ≠ .cross_device_link)
    (h : renameFile io.rename (cleared io files entry) entry.filePath entry.destinationPath =
      .error e) :
    moveUploaded io files entry = (false, cleared io files entry) := by
  unfold cleared at h ⊢
  cases e with
  | cross_device_link => exact absurd rfl hx
  | no_such_file_or_directory | file_exists | other value => simp only [moveUploaded, h]

-- Across devices the file is copied and the temporary file is removed after it.
theorem move_of_cross_device
    (h : renameFile io.rename (cleared io files entry) entry.filePath entry.destinationPath =
      .error .cross_device_link) :
    moveUploaded io files entry =
      let copied := copyFile io.copyFile entry.overwriteExisting (cleared io files entry)
        entry.filePath entry.destinationPath
      if copied.1 && io.removeCopied.isNone then (true, copied.2.unlink entry.filePath)
      else (false, copied.2) := by
  unfold cleared at h ⊢
  simp only [moveUploaded, h]
  generalize copyFile _ _ _ _ _ = copied
  obtain ⟨ok, files⟩ := copied
  cases ok <;> cases io.removeCopied <;> rfl

theorem copyFile_of_starts (hne : entry.filePath ≠ entry.destinationPath) {bytes : Bytes}
    (hsource : files.contents entry.filePath = some bytes) (hstarts : CopyStarts files entry) :
    copyFile io.copyFile entry.overwriteExisting (cleared io files entry) entry.filePath
      entry.destinationPath =
        copyOver io.copyFile (cleared io files entry) entry.destinationPath bytes := by
  obtain ⟨-, hempty, hroom⟩ := hstarts
  have hroom' : (!entry.overwriteExisting &&
      ((cleared io files entry).names entry.destinationPath).isSome) = false := by
    rcases hroom with ho | hn
    · simp [ho]
    · have hkept : cleared io files entry = files := cleared_of_not_removes fun h => h.2.2 hn
      simp [hkept, hn]
  simp [copyFile, contents_cleared_of_ne hne, hsource, hempty, hne, hroom']

theorem copyFile_of_not_starts (hne : entry.filePath ≠ entry.destinationPath)
    (hstarts : ¬CopyStarts files entry) :
    copyFile io.copyFile entry.overwriteExisting (cleared io files entry) entry.filePath
      entry.destinationPath = (false, cleared io files entry) := by
  unfold copyFile
  rw [contents_cleared_of_ne hne]
  cases hsource : files.contents entry.filePath with
  | none => rfl
  | some bytes =>
    cases hempty : entry.destinationPath.isEmpty with
    | true => simp
    | false =>
      -- the destination is there and may not be replaced
      have hroom : ¬(entry.overwriteExisting = true ∨
          files.names entry.destinationPath = none) :=
        fun h => hstarts ⟨by simp [hsource], hempty, h⟩
      simp only [not_or, Bool.not_eq_true] at hroom
      have hkept : cleared io files entry = files :=
        cleared_of_not_removes fun h => by simp [h.1] at hroom
      simp [hkept, hroom.1, hne, Option.isSome_iff_ne_none.mpr hroom.2]

-- A copy that has started, and what it leaves at the destination.
theorem copy_damages {bytes : Bytes} (hsource : files.contents entry.filePath = some bytes) :
    let copied := copyOver io.copyFile (cleared io files entry) entry.destinationPath bytes
    let moved := if copied.1 && io.removeCopied.isNone then
      (true, copied.2.unlink entry.filePath) else (false, copied.2)
    moved.1 = true ∧ ¬CopyDamages io files entry ∨
      moved.1 = false ∧ (moved.2.contents entry.destinationPath =
        files.contents entry.destinationPath ↔ ¬CopyDamages io files entry) := by
  unfold CopyDamages copyOver
  cases hcopy : io.copyFile with
  | completes =>
    cases hleft : io.removeCopied with
    | none => exact Or.inl ⟨rfl, fun h => h.1 rfl⟩
    | some e =>
      refine Or.inr ⟨rfl, ?_⟩
      simp [FileStore.contents_put_self, hsource, eq_comm]
  | fails left =>
    cases left with
    | none => exact Or.inr ⟨rfl, contents_cleared_iff⟩
    | some left =>
      refine Or.inr ⟨rfl, ?_⟩
      simp [FileStore.contents_put_self, eq_comm]

-- What the call leaves at the destination when the move throws.
theorem move_damages (hne : entry.filePath ≠ entry.destinationPath) :
    (moveUploaded io files entry).1 = true ∧ ¬DamagesDestination io files entry ∨
      (moveUploaded io files entry).1 = false ∧
        ((moveUploaded io files entry).2.contents entry.destinationPath =
          files.contents entry.destinationPath ↔ ¬DamagesDestination io files entry) := by
  have hrename := @renameFile_eq io files entry (cleared io files entry) (names_cleared_of_ne hne)
  have hremoved := @contents_cleared_iff io files entry
  unfold DamagesDestination
  cases he : renameError io files entry with
  | none =>
    rw [he] at hrename
    obtain ⟨moved, hmoved⟩ := hrename
    rw [move_of_renamed hmoved]
    exact Or.inl ⟨rfl, not_false⟩
  | some e =>
    rw [he] at hrename
    by_cases hx : e = .cross_device_link
    · subst hx
      rw [move_of_cross_device hrename]
      by_cases hstarts : CopyStarts files entry
      · obtain ⟨bytes, hsource⟩ := Option.ne_none_iff_exists'.mp hstarts.1
        simp only [copyFile_of_starts hne hsource hstarts, hstarts, true_and, not_true_eq_false,
          false_and, or_false]
        exact copy_damages hsource
      · simp only [copyFile_of_not_starts hne hstarts, hstarts, false_and, not_false_eq_true,
          true_and, false_or, Bool.false_and, Bool.false_eq_true, if_false]
        exact hremoved
    · rw [move_of_error hx hrename]
      cases e with
      | cross_device_link => exact absurd rfl hx
      | no_such_file_or_directory | file_exists | other value => exact Or.inr ⟨rfl, hremoved⟩

-- A destination that is also the temporary file is gone with it, unless the file moves onto itself.
theorem move_own_removes (hsame : entry.filePath = entry.destinationPath)
    (hremoves : RemovesDestination io files entry) :
    moveUploaded io files entry = (false, files.unlink entry.destinationPath) := by
  have hcleared := cleared_of_removes hremoves
  have hgone : (files.unlink entry.destinationPath).names entry.filePath = none := by simp [hsame]
  cases hio : io.rename with
  | none =>
    rw [← hcleared]
    refine @move_of_error io files entry .no_such_file_or_directory (by decide) ?_
    simp [renameFile, hcleared, hio, FileStore.rename_eq_none.mpr hgone]
  | some e =>
    have herror : renameFile io.rename (cleared io files entry) entry.filePath
        entry.destinationPath = .error e := by simp [renameFile, hio]
    by_cases hx : e = .cross_device_link
    · subst hx
      rw [move_of_cross_device herror]
      simp [copyFile, hcleared, FileStore.contents_eq_none.mpr hgone]
    · rw [move_of_error hx herror, hcleared]

theorem move_own_keeps (hsame : entry.filePath = entry.destinationPath)
    (hkeeps : ¬RemovesDestination io files entry) :
    (moveUploaded io files entry).1 = (renameError io files entry).isNone ∧
      ((moveUploaded io files entry).1 = false → (moveUploaded io files entry).2 = files) := by
  have hcleared := cleared_of_not_removes hkeeps
  have hrename := @renameFile_eq io files entry (cleared io files entry) (by rw [hcleared])
  cases he : renameError io files entry with
  | none =>
    rw [he] at hrename
    obtain ⟨moved, hmoved⟩ := hrename
    rw [move_of_renamed hmoved]
    simp
  | some e =>
    rw [he] at hrename
    by_cases hx : e = .cross_device_link
    · subst hx
      rw [move_of_cross_device hrename]
      have hcopy : copyFile io.copyFile entry.overwriteExisting files entry.filePath
          entry.destinationPath = (false, files) := by
        unfold copyFile
        cases files.contents entry.filePath with
        | none => rfl
        | some bytes => simp [hsame]
      simp [hcleared, hcopy]
    · rw [move_of_error hx hrename, hcleared]
      simp

end Move

section Spares

variable {s : Service} {uuid : Bytes} {entry : TransferEntry} {request : FileTransferRequest}

theorem cleanedUp_own_iff {files : Files} (hsame : entry.filePath = entry.destinationPath)
    (hthere : files.names entry.destinationPath ≠ none) :
    (cleanedUp io files entry).contents entry.destinationPath =
      files.contents entry.destinationPath ↔ io.cleanUp ≠ none := by
  have hcontents : files.contents entry.destinationPath ≠ none :=
    fun h => hthere (FileStore.contents_eq_none.mp h)
  unfold cleanedUp
  cases io.cleanUp with
  | none => simpa [hsame] using hcontents.symm
  | some e => simp

theorem cleanedUp_none {files : Files} {p : Path} (h : files.contents p = none) :
    (cleanedUp io files entry).contents p = none := by
  unfold cleanedUp
  split
  · exact h
  · by_cases hp : p = entry.filePath
    · rw [hp, FileStore.contents_unlink_self]
    · rw [FileStore.contents_unlink_of_ne hp, h]

theorem spares_own_iff (hactive : s.activeTransfers uuid = some entry)
    (huuid : request.uuid = some uuid) (hup : request.isUpload = true)
    (hsame : entry.filePath = entry.destinationPath) :
    ((endFileTransfer host io s request).1.isSuccess = false →
      (endFileTransfer host io s request).2.files.contents entry.destinationPath =
        s.files.contents entry.destinationPath) ↔ SparesOwnTemporary host io s entry request := by
  unfold SparesOwnTemporary
  by_cases hr : ReachesMove host io s entry request
  · obtain ⟨hanswer, hfiles⟩ := end_of_reachesMove hactive huuid hup hr
    rw [hanswer, hfiles]
    by_cases hremoves : RemovesDestination io s.files entry
    · have hthere : s.files.contents entry.destinationPath ≠ none :=
        fun h => hremoves.2.2 (FileStore.contents_eq_none.mp h)
      have hgone : (cleanedUp io (s.files.unlink entry.destinationPath) entry).contents
          entry.destinationPath = none := cleanedUp_none (FileStore.contents_unlink_self _)
      rw [move_own_removes hsame hremoves]
      simp only [Bool.false_eq_true, if_false, forall_const, hgone, hr, hremoves, hremoves.2.2,
        not_true_eq_false, false_and, and_false, or_false, iff_false]
      exact hthere.symm
    · obtain ⟨hmoved, hkept⟩ := move_own_keeps hsame hremoves
      rw [hmoved] at hkept ⊢
      simp only [hr, hremoves, not_true_eq_false, not_false_eq_true, false_and, true_and, false_or]
      cases he : renameError io s.files entry with
      | none => simp
      | some e =>
        simp only [he, Option.isNone_some, Bool.false_eq_true, if_false, forall_const] at hkept ⊢
        rw [hkept]
        by_cases hthere : s.files.names entry.destinationPath = none
        · have hnone := FileStore.contents_eq_none.mpr hthere
          simp [hthere, cleanedUp_none hnone, hnone]
        · rw [cleanedUp_own_iff hsame hthere]
          simp [hthere]
  · obtain ⟨hanswer, hfiles⟩ := end_of_not_reachesMove hactive huuid hup hr
    rw [hanswer, hfiles]
    simp only [hr, not_false_eq_true, true_and, false_and, or_false, forall_const]
    by_cases hthere : s.files.names entry.destinationPath = none
    · have hnone := FileStore.contents_eq_none.mpr hthere
      simp [hthere, cleanedUp_none hnone, hnone]
    · rw [cleanedUp_own_iff hsame hthere]
      simp [hthere]

theorem spares_iff (hactive : s.activeTransfers uuid = some entry)
    (huuid : request.uuid = some uuid) (hup : request.isUpload = true)
    (hne : entry.filePath ≠ entry.destinationPath) :
    ((endFileTransfer host io s request).1.isSuccess = false →
      (endFileTransfer host io s request).2.files.contents entry.destinationPath =
        s.files.contents entry.destinationPath) ↔
      ¬(ReachesMove host io s entry request ∧ DamagesDestination io s.files entry) := by
  by_cases hr : ReachesMove host io s entry request
  · obtain ⟨hanswer, hfiles⟩ := end_of_reachesMove hactive huuid hup hr
    rw [hanswer, hfiles]
    rcases @move_damages io s.files entry hne with ⟨hmoved, hd⟩ | ⟨hmoved, hd⟩
    · simp [hmoved, hd]
    · rw [hmoved]
      simp only [Bool.false_eq_true, if_false, forall_const, cleanedUp_of_ne hne.symm, hr, true_and]
      exact hd
  · obtain ⟨-, hfiles⟩ := end_of_not_reachesMove hactive huuid hup hr
    rw [hfiles, cleanedUp_of_ne hne.symm]
    simp [hr]

-- A call that does not answer `Success` leaves the destination as it was, exactly when nothing
-- fails once the destination has been touched.
theorem end_spares_destination_iff (host : Host) (io : EndIo) (s : Service) (uuid : Bytes)
    (entry : TransferEntry) (request : FileTransferRequest)
    (hactive : s.activeTransfers uuid = some entry) (huuid : request.uuid = some uuid)
    (hup : request.isUpload = true) :
    ((endFileTransfer host io s request).1.isSuccess = false →
      (endFileTransfer host io s request).2.files.contents entry.destinationPath =
        s.files.contents entry.destinationPath) ↔ SparesDestination host io s entry request := by
  unfold SparesDestination
  split
  · exact spares_own_iff hactive huuid hup ‹_›
  · exact spares_iff hactive huuid hup ‹_›

end Spares

-- `/f` holds the byte `A`, and an upload of the byte `B` that may overwrite it has been sent whole.
def overwriteRequest : FileTransferRequest := ⟨[47, 102], none, none, some true, some [1], true, 1⟩

def overwriteServer : Service :=
  (uploadChunk (requestFileTransfer quietHost quietRequestIo oneByteServer [1] overwriteRequest).2
    ⟨[1], 0, [66], 0⟩).2

def overwriteEntry : TransferEntry :=
  ⟨⟨some 1, .output, 1, false, false, false⟩, tempPath quietHost [1], Path.ofBytes [47, 102], 1, 0,
    .None, [], true, (UploadCoverage.new 1).add 0 1⟩

-- Neither the destination can be removed nor the temporary file renamed.
theorem end_spares_stuck_destination :
    (endFileTransfer quietHost { quietEndIo with
        removeDestination := some (.other 1), rename := some (.other 5) } overwriteServer
      overwriteRequest).1.isSuccess = false ∧
    (endFileTransfer quietHost { quietEndIo with
        removeDestination := some (.other 1), rename := some (.other 5) } overwriteServer
      overwriteRequest).2.files.contents (Path.ofBytes [47, 102]) =
        overwriteServer.files.contents (Path.ofBytes [47, 102]) := by
  have hfailed : (endFileTransfer quietHost { quietEndIo with
        removeDestination := some (.other 1), rename := some (.other 5) } overwriteServer
      overwriteRequest).1.isSuccess = false := by decide +kernel
  refine ⟨hfailed, (end_spares_destination_iff quietHost _ overwriteServer [1] overwriteEntry
    overwriteRequest (by decide +kernel) rfl rfl).mpr ?_ hfailed⟩
  have hne : overwriteEntry.filePath ≠ overwriteEntry.destinationPath := by decide
  rw [SparesDestination, if_neg hne]
  rintro ⟨-, hd⟩
  cases hd.2.1

-- The destination is removed, then the rename fails with an input/output error.
theorem end_loses_destination :
    ¬∀ (host : Host) (io : EndIo) (s : Service) (uuid : Bytes) (entry : TransferEntry)
      (request : FileTransferRequest), s.activeTransfers uuid = some entry →
      request.uuid = some uuid → request.isUpload = true →
      (endFileTransfer host io s request).1.isSuccess = false →
      (endFileTransfer host io s request).2.files.contents entry.destinationPath =
        s.files.contents entry.destinationPath := by
  intro h
  have hbad := h quietHost { quietEndIo with rename := some (.other 5) } overwriteServer [1]
    overwriteEntry overwriteRequest (by decide +kernel) rfl rfl (by decide +kernel)
  revert hbad
  decide +kernel

end Glider.Transfer

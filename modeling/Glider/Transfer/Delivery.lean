import Glider.Transfer.Uploads

namespace Glider.Transfer

open Glider.Lib Glider.Lib.Ranges

-- Everything that was asked and answered, newest first.
abbrev History := List (Event × Answer)

section History

def requested (history : History) : List Bytes :=
  history.filterMap fun e => match e.1 with
    | .request uuid _ => some uuid
    | _ => none

-- The writes of the accepted chunks of a transfer, newest first.
def accepted (uuid : Bytes) (history : History) : List (ℕ × Bytes) :=
  history.filterMap fun e => match e with
    | (.upload msg, .chunk response) =>
      if msg.uuid = uuid ∧ response.success = true then
        some (msg.chunkOffset.toNat, msg.chunkData)
      else none
    | _ => none

-- The transfers to `p` that ended in `Success`.
def delivered (requests : Bytes → FileTransferRequest) (p : Path) (history : History) :
    List Bytes :=
  history.filterMap fun e => match e with
    | (.finish uuid _, .ended answer) =>
      if destination (requests uuid) = p ∧ answer.isSuccess = true then some uuid else none
    | _ => none

end History

variable (host : Host) (requests : Bytes → FileTransferRequest)

-- The uuids are drawn anew for each request, and the removals of an end succeed.
def Distinct (s : Server × History) : Event → Prop
  | .request uuid _ => uuid ∉ requested s.2
  | .finish _ io => Removes io
  | _ => True

-- An absolute path without `.`, `..` and without a slash at its end. Where no directory is a link,
-- two of them that differ are two files.
def Path.Canonical (p : Path) : Prop :=
  p.rooted = true ∧ ∀ name ∈ p.elements, name ∉ [[], [46], [46, 46]]

-- No transfer is sent to the temporary file of another one, and no path is written in two ways.
def Apart (s : Server × History) : Event → Prop
  | .request uuid _ =>
    ((destination (requests uuid)).Canonical ∧ (tempPath host uuid).Canonical) ∧
      ∀ other ∈ requested s.2, destination (requests uuid) ≠ tempPath host other ∧
        destination (requests other) ≠ tempPath host uuid
  | _ => True

-- What a client may rely on when its upload ends in `Success`.
structure Arrived (uuid : Bytes) (history : History) (s : Server) : Prop where
  covered : ∀ i < (requests uuid).fileSize, ∃ w ∈ accepted uuid history,
    w.1 ≤ i ∧ i < w.1 + w.2.length
  bytes : ∃ bytes, s.service.files.contents (destination (requests uuid)) = some bytes ∧
    bytes.length = (requests uuid).fileSize ∧
    ∀ i < (requests uuid).fileSize, bytes[i]? = lastWrite (accepted uuid history) i
  temporary : s.service.files.names (tempPath host uuid) = none
  inactive : s.service.activeTransfers uuid = none

structure Invariant (s : Server × History) : Prop where
  apart : ∀ u ∈ requested s.2, ∀ v ∈ requested s.2, u ≠ v →
    destination (requests u) ≠ tempPath host v
  idle : ∀ u ∉ requested s.2, s.1.pending u = none ∧ s.1.service.activeTransfers u = none ∧
    accepted u s.2 = []
  pending : ∀ u p, s.1.pending u = some p → s.1.service.activeTransfers u = none ∧
    accepted u s.2 = [] ∧ Allocating host (requests u) s.1.service.files u p
  live : ∀ u entry, s.1.service.activeTransfers u = some entry →
    Live host (requests u) s.1.service.files u entry (accepted u s.2)

instance Distinct.decidable (s : Server × History) : ∀ i, Decidable (Distinct s i)
  | .request uuid _ => inferInstanceAs (Decidable (uuid ∉ requested s.2))
  | .advance _ => inferInstanceAs (Decidable True)
  | .upload _ => inferInstanceAs (Decidable True)
  | .finish _ io => inferInstanceAs (Decidable (io.existsError = false ∧
      io.removeDestination = none ∧ io.cleanUp = none))

instance (p : Path) : Decidable p.Canonical := inferInstanceAs (Decidable (_ ∧ _))

instance Apart.decidable (s : Server × History) : ∀ i, Decidable (Apart host requests s i)
  | .request _ _ => inferInstanceAs (Decidable (_ ∧ ∀ _ ∈ _, _))
  | .advance _ => inferInstanceAs (Decidable True)
  | .upload _ => inferInstanceAs (Decidable True)
  | .finish _ _ => inferInstanceAs (Decidable True)

variable {host requests}

theorem accepted_upload (uuid : Bytes) (msg : FileChunk) (response : FileChunkResponse)
    (history : History) :
    accepted uuid ((.upload msg, .chunk response) :: history) =
      if msg.uuid = uuid ∧ response.success = true then
        (msg.chunkOffset.toNat, msg.chunkData) :: accepted uuid history
      else accepted uuid history := by
  simp only [accepted, List.filterMap_cons]
  split_ifs <;> simp_all

section Step

variable {s s' : Server} {history history' : History} {uuid : Bytes}

theorem Invariant.requested_of_pending (hinv : Invariant host requests (s, history)) {p : Pending}
    (hp : s.pending uuid = some p) : uuid ∈ requested history := by
  by_contra hu
  rw [(hinv.idle uuid hu).1] at hp
  cases hp

theorem Invariant.requested_of_active (hinv : Invariant host requests (s, history))
    {entry : TransferEntry} (hp : s.service.activeTransfers uuid = some entry) :
    uuid ∈ requested history := by
  by_contra hu
  rw [(hinv.idle uuid hu).2.1] at hp
  cases hp

theorem Invariant.apart_of_requested (hinv : Invariant host requests (s, history))
    (hu : uuid ∈ requested history) : ∀ v ∈ requested history, v ≠ uuid →
      destination (requests uuid) ≠ tempPath host v ∧
        destination (requests v) ≠ tempPath host uuid :=
  fun v hv hne => ⟨hinv.apart uuid hu v hv hne.symm, hinv.apart v hv uuid hu hne⟩

-- A step on behalf of one transfer leaves the others alone, so only that one has to be checked.
theorem Invariant.of_local (hinv : Invariant host requests (s, history))
    (hrequested : ∀ v, v ∈ requested history' ↔ v = uuid ∨ v ∈ requested history)
    (hapart : ∀ v ∈ requested history, v ≠ uuid →
      destination (requests uuid) ≠ tempPath host v ∧
        destination (requests v) ≠ tempPath host uuid)
    (hpending : ∀ v ≠ uuid, s'.pending v = s.pending v)
    (hactive : ∀ v ≠ uuid, s'.service.activeTransfers v = s.service.activeTransfers v)
    (haccepted : ∀ v ≠ uuid, accepted v history' = accepted v history)
    (hfiles : ∀ v ∈ requested history, v ≠ uuid →
      s.service.files.Untouched s'.service.files (tempPath host v))
    (hownPending : ∀ p, s'.pending uuid = some p → s'.service.activeTransfers uuid = none ∧
      accepted uuid history' = [] ∧ Allocating host (requests uuid) s'.service.files uuid p)
    (hownLive : ∀ entry, s'.service.activeTransfers uuid = some entry →
      Live host (requests uuid) s'.service.files uuid entry (accepted uuid history')) :
    Invariant host requests (s', history') where
  apart := by
    intro u hu v hv huv
    rcases (hrequested u).mp hu with rfl | hu'
    · rcases (hrequested v).mp hv with rfl | hv'
      · exact absurd rfl huv
      · exact (hapart v hv' huv.symm).1
    · by_cases h : u = uuid
      · subst h
        exact (hapart v (((hrequested v).mp hv).resolve_left huv.symm) huv.symm).1
      · rcases (hrequested v).mp hv with rfl | hv'
        · exact (hapart u hu' h).2
        · exact hinv.apart u hu' v hv' huv
  idle := by
    intro v hv
    have hne : v ≠ uuid := fun h => hv ((hrequested v).mpr (Or.inl h))
    obtain ⟨hp, ha, hacc⟩ := hinv.idle v fun h => hv ((hrequested v).mpr (Or.inr h))
    exact ⟨(hpending v hne).trans hp, (hactive v hne).trans ha, (haccepted v hne).trans hacc⟩
  pending := by
    intro v p hp
    by_cases hne : v = uuid
    · subst hne
      exact hownPending p hp
    · simp only [hpending v hne] at hp
      obtain ⟨ha, hacc, halloc⟩ := hinv.pending v p hp
      exact ⟨(hactive v hne).trans ha, (haccepted v hne).trans hacc,
        halloc.frame (hfiles v (hinv.requested_of_pending hp) hne)⟩
  live := by
    intro v entry ha
    by_cases hne : v = uuid
    · subst hne
      exact hownLive entry ha
    · simp only [hactive v hne] at ha
      simp only [haccepted v hne]
      exact (hinv.live v entry ha).frame (hfiles v (hinv.requested_of_active ha) hne)

theorem tempPath_ne {u v : Bytes} (h : u ≠ v) : tempPath host u ≠ tempPath host v :=
  fun he => h (tempPath_injective host he)

theorem invariant_request (hinv : Invariant host requests (s, history)) (io : RequestIo)
    (answer : Answer) (hnew : uuid ∉ requested history)
    (hapart : ∀ v ∈ requested history, destination (requests uuid) ≠ tempPath host v ∧
      destination (requests v) ≠ tempPath host uuid) :
    Invariant host requests ((serverStep host requests s (.request uuid io)).2,
      (.request uuid io, answer) :: history) := by
  obtain ⟨-, hidle, haccepted⟩ := hinv.idle uuid hnew
  have hrequested : ∀ v, v ∈ requested ((.request uuid io, answer) :: history) ↔
      v = uuid ∨ v ∈ requested history := fun v => List.mem_cons
  cases hcheck : checkUpload host io s.service.files uuid (requests uuid) with
  | error message =>
    simp only [serverStep, hcheck]
    refine hinv.of_local hrequested (fun v hv _ => hapart v hv)
      (fun v hv => Function.update_of_ne hv ..) (fun _ _ => rfl) (fun _ _ => rfl)
      (fun _ _ _ => .refl ..) (fun p hp => ?_) (fun entry he => ?_)
    · rw [pending_reject] at hp
      cases hp
    · rw [Server.reject, hidle] at he
      cases he
  | ok entry =>
    simp only [serverStep, hcheck]
    refine hinv.of_local hrequested (fun v hv _ => hapart v hv)
      (fun v hv => Function.update_of_ne hv ..) (fun _ _ => rfl) (fun _ _ => rfl)
      (fun _ _ _ => .refl ..) (fun p hp => ?_) (fun entry he => ?_)
    · rw [pending_await] at hp
      obtain rfl := Option.some.inj hp
      exact ⟨hidle, haccepted, checkUpload_prepared hcheck⟩
    · rw [Server.await, hidle] at he
      cases he

-- A call of a pending request works on its own temporary file.
theorem invariant_pending (hinv : Invariant host requests (s, history)) {p p' : Pending}
    (hp : s.pending uuid = some p) (answer : Answer) (files : Files)
    (hfiles : ∀ q, q ≠ tempPath host uuid → s.service.files.Untouched files q)
    (hp' : Allocating host (requests uuid) files uuid p') :
    Invariant host requests ((s.await uuid files p').2, (.advance uuid, answer) :: history) := by
  have hu := hinv.requested_of_pending hp
  obtain ⟨hidle, haccepted, -⟩ := hinv.pending uuid p hp
  refine hinv.of_local (fun v => (or_iff_right_of_imp fun h => h ▸ hu).symm)
    (hinv.apart_of_requested hu) (fun v hv => Function.update_of_ne hv ..) (fun _ _ => rfl)
    (fun _ _ => rfl) (fun v _ hv => hfiles _ (tempPath_ne hv)) (fun q hq => ?_) (fun entry he => ?_)
  · rw [pending_await] at hq
    obtain rfl := Option.some.inj hq
    exact ⟨hidle, haccepted, hp'⟩
  · rw [Server.await, hidle] at he
    cases he

theorem invariant_rejected (hinv : Invariant host requests (s, history)) {p : Pending}
    (hp : s.pending uuid = some p) (answer : Answer) (files : Files) (message : String)
    (hfiles : ∀ q, q ≠ tempPath host uuid → s.service.files.Untouched files q) :
    Invariant host requests
      ((s.reject uuid files message).2, (.advance uuid, answer) :: history) := by
  have hu := hinv.requested_of_pending hp
  obtain ⟨hidle, -, -⟩ := hinv.pending uuid p hp
  refine hinv.of_local (fun v => (or_iff_right_of_imp fun h => h ▸ hu).symm)
    (hinv.apart_of_requested hu) (fun v hv => Function.update_of_ne hv ..) (fun _ _ => rfl)
    (fun _ _ => rfl) (fun v _ hv => hfiles _ (tempPath_ne hv)) (fun q hq => ?_) (fun entry he => ?_)
  · rw [pending_reject] at hq
    cases hq
  · rw [Server.reject, hidle] at he
    cases he

theorem resizeTemporary_untouched {io : RequestIo} {files files' : Files} {entry : TransferEntry}
    (h : resizeTemporary io files entry = some files') {q : Path} (hq : q ≠ entry.filePath) :
    files.Untouched files' q := by
  unfold resizeTemporary resizeFile at h
  split at h
  · cases h
  · obtain ⟨i, hi, rfl⟩ := Option.map_eq_some_iff.mp h
    exact FileStore.untouched_setData hi hq _

theorem emplaceTransfer_of_none {t : Service} (entry : TransferEntry)
    (h : t.activeTransfers uuid = none) :
    (emplaceTransfer t uuid true entry).2 = t.store uuid entry := by
  simp only [emplaceTransfer, h]

theorem advance_untouched {p : Pending} {q : Path} (hq : q ≠ p.entry.filePath) :
    s.service.files.Untouched (advance s uuid p).2.service.files q := by
  obtain ⟨io, stage, entry⟩ := p
  cases stage with
  | checked =>
    simp only [advance, Server.await, createTemporary]
    split
    · exact .refl ..
    · exact FileStore.untouched_truncate hq
  | created =>
    simp only [advance]
    cases hresize : resizeTemporary io s.service.files entry with
    | none => exact FileStore.untouched_unlink hq
    | some files => exact resizeTemporary_untouched hresize hq
  | resized =>
    simp only [advance, reopenTemporary]
    cases io.reopenError with
    | true => exact .refl ..
    | false => exact FileStore.untouched_truncate hq
  | opened =>
    simp only [advance, emplaceTransfer]
    split <;> exact .refl ..

theorem invariant_advance (hinv : Invariant host requests (s, history)) (answer : Answer) :
    Invariant host requests ((serverStep host requests s (.advance uuid)).2,
      (.advance uuid, answer) :: history) := by
  cases hp : s.pending uuid with
  | none =>
    simp only [serverStep, hp]
    exact { hinv with }
  | some p =>
    rw [serverStep_advance hp]
    obtain ⟨hidle, haccepted, halloc⟩ := hinv.pending uuid p hp
    have hpath : p.entry.filePath = tempPath host uuid := halloc.prepared.filePath
    have hframe : ∀ q, q ≠ tempPath host uuid →
        s.service.files.Untouched (advance s uuid p).2.service.files q :=
      fun q hq => advance_untouched (hpath ▸ hq)
    obtain ⟨io, stage, entry⟩ := p
    cases stage with
    | checked =>
      exact invariant_pending hinv hp answer _ hframe
        ⟨halloc.prepared, halloc.coverage, fun h => by cases h⟩
    | created =>
      simp only [advance] at hframe ⊢
      cases hresize : resizeTemporary io s.service.files entry with
      | none =>
        rw [hresize] at hframe
        exact invariant_rejected hinv hp answer _ _ hframe
      | some files =>
        rw [hresize] at hframe
        exact invariant_pending hinv hp answer files hframe
          ⟨halloc.prepared, halloc.coverage, fun h => by cases h⟩
    | resized =>
      simp only [advance, reopenTemporary] at hframe ⊢
      cases hreopen : io.reopenError with
      | true =>
        rw [hreopen] at hframe
        exact invariant_rejected hinv hp answer _ _ hframe
      | false =>
        rw [hreopen] at hframe
        refine invariant_pending hinv hp answer _ hframe
          ⟨{ halloc.prepared with }, halloc.coverage, fun _ => ⟨_, rfl, ?_, ?_⟩⟩
        · rw [← hpath]
          exact FileStore.names_truncate_self entry.filePath
        · exact FileStore.data_truncate_self entry.filePath
    | opened =>
      have hu := hinv.requested_of_pending hp
      simp only [advance, emplaceTransfer_of_none _ hidle]
      refine hinv.of_local (fun v => (or_iff_right_of_imp fun h => h ▸ hu).symm)
        (hinv.apart_of_requested hu) (fun v hv => Function.update_of_ne hv ..)
        (fun v hv => Function.update_of_ne hv ..) (fun _ _ => rfl) (fun _ _ _ => .refl ..)
        (fun q hq => ?_) (fun entry' he => ?_)
      · simp only [Function.update_self, reduceCtorEq] at hq
      · rw [activeTransfers_store_self, Option.some.injEq] at he
        subst he
        have hlog : accepted uuid ((.advance uuid, answer) :: history) = [] := haccepted
        rw [hlog]
        exact halloc.live rfl

-- A chunk that is not accepted leaves no trace.
theorem invariant_ignored (hinv : Invariant host requests (s, history)) (msg : FileChunk) :
    Invariant host requests (s, (.upload msg, .chunk invalidChunk) :: history) := by
  have haccepted : ∀ u, accepted u ((.upload msg, .chunk invalidChunk) :: history) =
      accepted u history := by
    intro u
    rw [accepted_upload, if_neg fun h => nomatch h.2]
  exact {
    apart := hinv.apart
    idle := fun u hu => by simpa only [haccepted] using hinv.idle u hu
    pending := fun u p hp => by simpa only [haccepted] using hinv.pending u p hp
    live := fun u entry he => by simpa only [haccepted] using hinv.live u entry he }

theorem invariant_upload (hinv : Invariant host requests (s, history)) (msg : FileChunk) :
    Invariant host requests ((serverStep host requests s (.upload msg)).2,
      (.upload msg, (serverStep host requests s (.upload msg)).1) :: history) := by
  cases hactive : s.service.activeTransfers msg.uuid with
  | none =>
    have hignored : uploadChunk s.service msg = (invalidChunk, s.service) := by
      simp only [uploadChunk, hactive]
    simp only [serverStep, hignored]
    exact invariant_ignored hinv msg
  | some entry =>
    rcases (hinv.live _ _ hactive).upload_cases hactive with hignored | hwritten
    · simp only [serverStep, hignored]
      exact invariant_ignored hinv msg
    · obtain ⟨entry', files', hwritten, hlive, hfiles⟩ := hwritten
      have hu := hinv.requested_of_active hactive
      simp only [serverStep, hwritten]
      refine hinv.of_local (fun v => (or_iff_right_of_imp fun h => h ▸ hu).symm)
        (hinv.apart_of_requested hu) (fun _ _ => rfl) (fun v hv => Function.update_of_ne hv ..)
        (fun v hv => ?_) (fun v _ hv => hfiles _ (tempPath_ne hv)) (fun p hp => ?_)
        (fun last he => ?_)
      · rw [accepted_upload, if_neg fun h => hv h.1.symm]
      · rw [(hinv.pending msg.uuid p hp).1] at hactive
        cases hactive
      · rw [activeTransfers_store_self, Option.some.injEq] at he
        subst he
        rw [accepted_upload, if_pos ⟨rfl, rfl⟩]
        exact hlive

theorem invariant_finish (hinv : Invariant host requests (s, history)) (io : EndIo)
    (answer : Answer) (hio : Removes io) :
    Invariant host requests ((serverStep host requests s (.finish uuid io)).2,
      (.finish uuid io, answer) :: history) := by
  cases hactive : s.service.activeTransfers uuid with
  | none =>
    have hignored : (endFileTransfer host io s.service (endRequest requests uuid)).2 =
        s.service := by
      simp only [endFileTransfer, endRequest, Option.getD_some, hactive]
    simp only [serverStep, hignored]
    exact { hinv with }
  | some entry =>
    have hu := hinv.requested_of_active hactive
    have hlive := hinv.live _ _ hactive
    have hforgotten := @end_activeTransfers host io s.service uuid entry
      (endRequest requests uuid) hio.2.2 hactive rfl rfl
    simp only [serverStep]
    refine hinv.of_local (fun v => (or_iff_right_of_imp fun h => h ▸ hu).symm)
      (hinv.apart_of_requested hu) (fun _ _ => rfl) (fun v hv => ?_) (fun _ _ => rfl)
      (fun v hv hne => ?_) (fun p hp => ?_) (fun last he => ?_)
    · rw [hforgotten, Function.update_of_ne hv]
    · apply end_untouched hactive rfl rfl
      · rw [hlive.prepared.filePath]
        exact tempPath_ne hne
      · rw [hlive.prepared.destinationPath]
        exact (hinv.apart_of_requested hu v hv hne).1.symm
    · rw [(hinv.pending uuid p hp).1] at hactive
      cases hactive
    · rw [hforgotten, Function.update_self] at he
      cases he

theorem invariant_step (i : Event) (hinv : Invariant host requests (s, history))
    (hdistinct : Distinct (s, history) i) (hapart : Apart host requests (s, history) i) :
    Invariant host requests ((serverStep host requests).recorded (s, history) i).2 := by
  cases i with
  | request uuid io => exact invariant_request hinv io _ hdistinct hapart.2
  | advance uuid => exact invariant_advance hinv _
  | upload msg => exact invariant_upload hinv msg
  | finish uuid io => exact invariant_finish hinv io _ hdistinct

-- The coverage that is complete is the one of the accepted chunks, and the file that is moved is
-- their replay.
theorem arrived_of_success (hinv : Invariant host requests (s, history)) {io : EndIo}
    (hio : Removes io)
    (hsuccess : (endFileTransfer host io s.service (endRequest requests uuid)).1.isSuccess =
      true) :
    Arrived host requests uuid history (serverStep host requests s (.finish uuid io)).2 := by
  cases hactive : s.service.activeTransfers uuid with
  | none =>
    simp only [endFileTransfer, endRequest, Option.getD_some, hactive] at hsuccess
    cases hsuccess
  | some entry =>
    have hlive := hinv.live uuid entry hactive
    obtain ⟨hcomplete, -, hcontents, hgone⟩ := hlive.finish hio hactive rfl rfl hsuccess
    have hcovered : ∀ i < (requests uuid).fileSize, ∃ w ∈ accepted uuid history,
        w.1 ≤ i ∧ i < w.1 + w.2.length := by
      intro i hi
      rw [← hlive.size] at hi
      exact (hlive.covers i).mp (UploadCoverage.covers_of_complete hlive.wellFormed hcomplete i hi)
    have hwritten : ∀ i < (requests uuid).fileSize,
        (lastWrite (accepted uuid history) i).isSome := by
      intro i hi
      obtain ⟨w, hw, hlo, hhi⟩ := hcovered i hi
      exact lastWrite_isSome_of_mem _ i w hw hlo hhi
    refine ⟨hcovered, ⟨_, hcontents, length_replay 0 _ _ hlive.inside hwritten, ?_⟩, hgone, ?_⟩
    · intro i hi
      obtain ⟨b, hb⟩ := Option.isSome_iff_exists.mp (hwritten i hi)
      rw [getElem?_replay 0 _ i b hb, hb]
    · simp only [serverStep]
      rw [end_activeTransfers hio.2.2 hactive rfl rfl, Function.update_self]

end Step

-- At most one transfer that may not overwrite has arrived at `p`, and what it left is still there.
def Single (host : Host) (requests : Bytes → FileTransferRequest) (p : Path)
    (s : Server × History) : Prop :=
  (∀ u ∈ requested s.2, destination (requests u) = p →
      (requests u).overwriteExisting.getD false = false) →
    delivered requests p s.2 = [] ∨
      ∃ u, delivered requests p s.2 = [u] ∧ u ∈ requested s.2 ∧ destination (requests u) = p ∧
        tempPath host u ≠ p ∧ s.1.service.files.names p ≠ none

section Single

variable {s s' : Server} {history history' : History} {uuid : Bytes} {p : Path}

theorem Single.of_untouched (h : Single host requests p (s, history))
    (hrequested : ∀ u ∈ requested history, u ∈ requested history')
    (hdelivered : delivered requests p history' = delivered requests p history)
    (hfiles : ∀ u, u ∈ requested history → destination (requests u) = p → tempPath host u ≠ p →
      s.service.files.names p ≠ none → s'.service.files.names p ≠ none) :
    Single host requests p (s', history') := by
  intro hover
  rcases h (fun u hu => hover u (hrequested u hu)) with hnone | ⟨u, hu, hreq, hdest, htemp, hname⟩
  · exact Or.inl (hdelivered.trans hnone)
  · exact Or.inr ⟨u, hdelivered.trans hu, hrequested u hreq, hdest, htemp,
      hfiles u hreq hdest htemp hname⟩

-- The path of a delivery is nobody's temporary file.
theorem Invariant.ne_tempPath (hinv : Invariant host requests (s, history)) {u v : Bytes}
    (hu : u ∈ requested history) (hdest : destination (requests u) = p)
    (htemp : tempPath host u ≠ p) (hv : v ∈ requested history) : p ≠ tempPath host v := by
  by_cases h : u = v
  · subst h
    exact htemp.symm
  · rw [← hdest]
    exact hinv.apart u hu v hv h

theorem single_advance (hinv : Invariant host requests (s, history))
    (h : Single host requests p (s, history)) (answer : Answer) :
    Single host requests p ((serverStep host requests s (.advance uuid)).2,
      (.advance uuid, answer) :: history) := by
  refine h.of_untouched (fun _ hu => hu) rfl fun u hu hdest htemp hname => ?_
  cases hp : s.pending uuid with
  | none => simpa only [serverStep, hp] using hname
  | some p' =>
    rw [serverStep_advance hp]
    have hpath := (hinv.pending uuid p' hp).2.2.prepared.filePath
    have hne := hinv.ne_tempPath hu hdest htemp (hinv.requested_of_pending hp)
    rw [← hpath] at hne
    rw [(advance_untouched hne).1]
    exact hname

theorem single_upload (hinv : Invariant host requests (s, history))
    (h : Single host requests p (s, history)) (msg : FileChunk) (answer : Answer) :
    Single host requests p ((serverStep host requests s (.upload msg)).2,
      (.upload msg, answer) :: history) := by
  refine h.of_untouched (fun _ hu => hu) rfl fun u hu hdest htemp hname => ?_
  cases hactive : s.service.activeTransfers msg.uuid with
  | none => simpa only [serverStep, uploadChunk, hactive] using hname
  | some entry =>
    rcases (hinv.live _ _ hactive).upload_cases hactive with hignored | hwritten
    · simpa only [serverStep, hignored] using hname
    · obtain ⟨entry', files', hwritten, -, hfiles⟩ := hwritten
      have hne := hinv.ne_tempPath hu hdest htemp (hinv.requested_of_active hactive)
      simp only [serverStep, hwritten, files_store]
      rw [(hfiles p hne).1]
      exact hname

theorem delivered_finish (requests : Bytes → FileTransferRequest) (p : Path) (io : EndIo)
    (answer : EndAnswer) (history : History) :
    delivered requests p ((.finish uuid io, .ended answer) :: history) =
      if destination (requests uuid) = p ∧ answer.isSuccess = true then
        uuid :: delivered requests p history
      else delivered requests p history := by
  simp only [delivered, List.filterMap_cons]
  split_ifs <;> simp_all

theorem single_finish (hinv : Invariant host requests (s, history))
    (h : Single host requests p (s, history)) {io : EndIo} (hio : Removes io) :
    Single host requests p ((serverStep host requests s (.finish uuid io)).2,
      (.finish uuid io, (serverStep host requests s (.finish uuid io)).1) :: history) := by
  simp only [serverStep]
  cases hactive : s.service.activeTransfers uuid with
  | none =>
    have hignored : endFileTransfer host io s.service (endRequest requests uuid) =
        (.response .ErrorCommandIgnored "Invalid UUID for ending file transfer", s.service) := by
      simp only [endFileTransfer, endRequest, Option.getD_some, hactive]
    rw [hignored]
    refine h.of_untouched (fun _ hu => hu) ?_ fun _ _ _ _ hname => hname
    rw [delivered_finish, if_neg fun h => Bool.false_ne_true h.2]
  | some entry =>
    have hlive := hinv.live uuid entry hactive
    have huuid := hinv.requested_of_active hactive
    intro hover
    rcases h hover with hnone | ⟨u, hu, hreq, hdest, htemp, hname⟩
    · rw [delivered_finish]
      split_ifs with hfirst
      · -- the first delivery to this path
        obtain ⟨-, hne, hcontents, -⟩ := hlive.finish hio hactive rfl rfl hfirst.2
        rw [hfirst.1] at hne hcontents
        refine Or.inr ⟨uuid, by rw [hnone], huuid, hfirst.1, hne, fun hgone => ?_⟩
        rw [FileStore.contents_eq_none.mpr hgone] at hcontents
        cases hcontents
      · exact Or.inl hnone
    · have hfile : p ≠ entry.filePath := by
        rw [hlive.prepared.filePath]
        exact hinv.ne_tempPath hreq hdest htemp huuid
      refine Or.inr ⟨u, ?_⟩
      by_cases hsame : destination (requests uuid) = p
      · -- a second one finds the file there
        have hpath : entry.destinationPath = p := hlive.prepared.destinationPath.trans hsame
        have hkeep : entry.overwriteExisting = false :=
          hlive.prepared.overwriteExisting.trans (hover uuid huuid hsame)
        obtain ⟨hfails, hfiles⟩ := @end_of_existing host io s.service uuid entry
          (endRequest requests uuid) hio hactive rfl rfl hkeep (by rw [hpath]; exact hname)
        rw [delivered_finish, if_neg (by simp [hfails]), hfiles, (cleanedUp_untouched hfile).1]
        exact ⟨hu, hreq, hdest, htemp, hname⟩
      · have hdestination : p ≠ entry.destinationPath := by
          rw [hlive.prepared.destinationPath]
          exact fun h => hsame h.symm
        rw [delivered_finish, if_neg fun h => hsame h.1,
          (end_untouched hactive rfl rfl hfile hdestination).1]
        exact ⟨hu, hreq, hdest, htemp, hname⟩

theorem single_step (i : Event) (hinv : Invariant host requests (s, history))
    (h : Single host requests p (s, history)) (hdistinct : Distinct (s, history) i) :
    Single host requests p ((serverStep host requests).recorded (s, history) i).2 := by
  cases i with
  | request uuid io =>
    refine h.of_untouched (fun _ hu => List.mem_cons_of_mem _ hu) rfl fun _ _ _ _ hname => ?_
    simp only [serverStep]
    split <;> exact hname
  | advance uuid => exact single_advance hinv h _
  | upload msg => exact single_upload hinv h msg _
  | finish uuid io => exact single_finish hinv h hdistinct

end Single

theorem invariant_start (files : Files) :
    Invariant host requests (⟨⟨files, fun _ => none⟩, fun _ => none⟩, []) where
  apart := by simp [requested]
  idle := by simp [accepted]
  pending := by simp
  live := by simp

section TwoUploads

-- The upload `a` goes to `/x`, the upload `b` to `/t/upload_a.tmp`.
def twoUploads (uuid : Bytes) : FileTransferRequest :=
  if uuid = [97] then ⟨[47, 120], none, none, none, none, true, 1⟩
  else
    ⟨[47, 116, 47, 117, 112, 108, 111, 97, 100, 95, 97, 46, 116, 109, 112], none, none, some true,
      none, true, 1⟩

def requestEvents (uuid : Bytes) : List Event :=
  .request uuid quietRequestIo :: List.replicate 4 (.advance uuid)

end TwoUploads

end Glider.Transfer

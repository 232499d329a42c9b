import Glider.KernelBuild.Claiming
import Glider.KernelBuild.Preparing

namespace Glider.KernelBuild

open Glider.Lib Glider.Lib.Threads State
open Glider.RomBuild (Path)

def BuildStatus.terminal (status : BuildStatus) : Bool :=
  status.status == .success || status.status == .failed

-- What a client has of a build: a terminal status on its stream, or the end of the stream.
def Over (w : World) (t : ℕ) : Prop :=
  (∃ status ∈ w.shared.streams t, status.terminal = true) ∨ w.running t = none

-- The exits of `do_build` that record the lifecycle late, or not at all.
def harmless (s : State) (id : ℕ) : Op → Choice → Bool
  | .report status, .goes env => status.status != .success || !env.connected
  | .copy source _, .goes env => (s.fromFile source env fun _ => ()).toOption.isSome
  | .zipDir _ _, .goes env => env.outcome.toOption.isSome
  | .runProcess _, .process (.exits result) => result.toOption.isSome
  | .runProcess _, .process (.stopped connected) =>
    !connected || s.buildStatuses.all fun e => e.buildId != id || e.lifecycle == .finished
  | _, _ => true

def FinishesFirst (service : BuildService) (w : World) : Step → Prop
  | .acts t i =>
    (∀ id ∈ claimedBy service w t, ∀ op ∈ w.asks t, harmless w.shared id op i = true) ∧
      (w.asks t = some .pruneKernelStatuses → ∀ entry ∈ dropped w.shared, ∀ u < w.started,
        stageOf service w u ≠ some (.fetch entry.buildId .valid))
  | .hangsUp t => claimedBy service w t = none
  | _ => True

instance (service : BuildService) : ∀ w i, Decidable (FinishesFirst service w i)
  | w, .acts t i => inferInstanceAs (Decidable
      ((∀ id ∈ claimedBy service w t, ∀ op ∈ w.asks t, harmless w.shared id op i = true) ∧
        (w.asks t = some .pruneKernelStatuses → ∀ entry ∈ dropped w.shared, ∀ u < w.started,
          stageOf service w u ≠ some (.fetch entry.buildId .valid))))
  | w, .hangsUp t => inferInstanceAs (Decidable (claimedBy service w t = none))
  | _, .begins _ | _, .ends _ => .isTrue trivial

-- A build whose client has been told the end has nothing left to be done.
structure Recorded (service : BuildService) (w : World) : Prop where
  claims : Claims service w
  straight : ∀ t id m, stageOf service w t = some (.build id m) → m ≠ .uncopied ∧ m ≠ .broken
  marked : ∀ t id success, stageOf service w t = some (.build id (.marked success)) →
    Settled service w id
  told : ∀ t id m status, stageOf service w t = some (.build id m) → m ≠ .refused →
    status ∈ w.shared.streams t → status.terminal = true →
      m.claims = true ∧ status.status = .failed ∧ Settled service w id
  closed : ∀ t id, claimedBy service w t = some id → w.running t = none → Settled service w id

section Steps

variable {service : BuildService} {w w' : World} {i : Step}

theorem fromFile_error {s : State} {α β : Type} {path : Path} {env : Environment} {f : Bytes → α}
    {e : String} (g : Bytes → β) (h : s.fromFile path env f = .error e) :
    s.fromFile path env g = .error e := by
  unfold State.fromFile at h ⊢
  split at h
  case h_1 => exact congrArg Except.error (Except.error.inj h)
  case h_2 => exact congrArg Except.error (Except.error.inj h)
  case h_3 => cases h

theorem harmless_copy {s s' : State} {t id : ℕ} {source dest : Path} {c : Choice} {e : String}
    (h : Acts service s t (.copy source dest) c s' (some (.error e))) :
    harmless s id (.copy source dest) c = false := by
  cases h with
  | performs h =>
    simp only [perform] at h
    split at h
    case h_1 => cases h
    case h_2 herror =>
      simp only [harmless, fromFile_error _ herror]
      rfl

theorem harmless_zipDir {s s' : State} {t id : ℕ} {archive dir : Path} {c : Choice} {e : String}
    (h : Acts service s t (.zipDir archive dir) c s' (some (.error e))) :
    harmless s id (.zipDir archive dir) c = false := by
  cases h with
  | performs h =>
    rename_i env
    have herror : env.outcome = .error e := by
      simp only [perform, Option.some.injEq, Prod.mk.injEq] at h
      exact h.2
    simp only [harmless, herror]
    rfl

theorem harmless_runProcess {s s' : State} {t id : ℕ} {spec : CommandSpec} {c : Choice} {e : Status}
    (h : Acts service s t (.runProcess spec) c s' (some (.error e))) :
    harmless s id (.runProcess spec) c = false := by
  cases h with
  | performs h => cases h
  | runs h =>
    cases h with
    | fails | exits => rfl

-- Neither of the two exits is taken that leave the build running.
theorem BuildGoes.straight {s s' : State} {t id : ℕ} {m m' : BuildStage} {op : Op} {c : Choice}
    {answer : op.Answer} (hgoes : BuildGoes m op answer m') (hm : m ≠ .uncopied ∧ m ≠ .broken)
    (h : Acts service s t op c s' (some answer))
    (hharmless : m.claims = true → harmless s id op c = true) :
    m' ≠ .uncopied ∧ m' ≠ .broken := by
  cases hgoes with
  | stays => exact hm
  | breaks => exact absurd (hharmless rfl) (by rw [harmless_runProcess h]; decide)
  | miscopies => exact absurd (hharmless rfl) (by rw [harmless_copy h]; decide)
  | miszips => exact absurd (hharmless rfl) (by rw [harmless_zipDir h]; decide)
  | _ => exact ⟨nofun, nofun⟩

theorem claims_of_mark {id id' : ℕ} {m : BuildStage} {success : Bool}
    (h : Allows service (.build id m) (.markBuildFinished id' success)) :
    id = id' ∧ m.claims = true := by
  obtain ⟨-, hm⟩ | ⟨-, hm⟩ := h
  · cases hm
    exact ⟨rfl, rfl⟩
  · obtain hm | ⟨context, hm⟩ := hm
    · cases hm
      exact ⟨rfl, rfl⟩
    · cases hm
      exact ⟨rfl, rfl⟩

theorem Recorded.of_marked (h : Recorded service w) (hs : Orderly service w)
    (hm : Moves service w i w') {t id : ℕ} {success : Bool}
    (hstage : stageOf service w' t = some (.build id (.marked success))) :
    Settled service w' id := by
  cases came_build hm hstage with
  | stayed hold => exact (h.marked t id success hold).of_moves hs hm
  | went hi hold hallows hacts hasks hgoes hhistory =>
    rename_i m op answer c
    cases hgoes with
    | stays => exact (h.marked t id success hold).of_moves hs hm
    | marks =>
      obtain ⟨rfl, hclaims⟩ := claims_of_mark hallows
      have hlisted := h.claims.listed t id (claimedBy_eq_some.mpr ⟨m, hold, hclaims⟩)
      refine ⟨hlisted.of_moves hs hm, ?_⟩
      rw [buildStatuses_of_acts hacts]
      exact finished_of_change hs.sound.statuses_nodup fun _ => rfl

-- What is put on the stream of a build that is not refused.
theorem Recorded.of_puts (h : Recorded service w) {t id : ℕ} {m : BuildStage} {op : Op} {c : Choice}
    {status : BuildStatus} (hstage : stageOf service w t = some (.build id m))
    (hallows : Allows service (.build id m) op) (hrefused : m ≠ .refused)
    (hharmless : m.claims = true → harmless w.shared id op c = true)
    (hputs : Puts w.shared t op c status) (hterminal : status.terminal = true) :
    m.claims = true ∧ status.status = .failed ∧ Settled service w id := by
  cases hputs with
  | prints hprocess => cases hterminal
  | reports henv =>
    rename_i env
    obtain ⟨-, hsuccess, hfailed⟩ := hallows
    simp only [BuildStatus.terminal, Bool.or_eq_true, beq_iff_eq] at hterminal
    obtain hstatus | hstatus := hterminal
    · have hclaims : m.claims = true := by
        obtain ⟨context, hm⟩ | ⟨context, archive, hm⟩ := hsuccess hstatus
        · cases hm
          rfl
        · cases hm
          rfl
      have hquiet := hharmless hclaims
      simp only [harmless, hstatus, henv] at hquiet
      cases hquiet
    · obtain hm | hm | hm := hfailed hstatus
      · cases hm
        exact absurd rfl hrefused
      · cases hm
        exact absurd rfl (h.straight t id _ hstage).1
      · cases hm
        exact ⟨rfl, hstatus, h.marked t id false hstage⟩
  | cancelled hprocess hphase =>
    have hclaims : m.claims = true := by
      cases m with
      | making context kill => rfl
      | _ => exact hallows.elim
    have hfinished := hharmless hclaims
    simp only [harmless, Bool.not_true, Bool.false_or, List.all_eq_true, Bool.or_eq_true,
      bne_iff_ne, beq_iff_eq] at hfinished
    refine ⟨hclaims, rfl, h.claims.listed t id (claimedBy_eq_some.mpr ⟨m, hstage, hclaims⟩), ?_⟩
    exact fun entry hentry hid => (hfinished entry hentry).resolve_left (not_not.mpr hid)

theorem FinishesFirst.harmless {t id : ℕ} {m : BuildStage} {op : Op} {c : Choice}
    (h : FinishesFirst service w (.acts t c)) (hstage : stageOf service w t = some (.build id m))
    (hasks : w.asks t = some op) (hclaims : m.claims = true) :
    KernelBuild.harmless w.shared id op c = true :=
  h.1 id (claimedBy_eq_some.mpr ⟨m, hstage, hclaims⟩) op hasks

theorem BuildGoes.of_refused {m : BuildStage} {op : Op} {answer : op.Answer}
    (h : BuildGoes .refused op answer m) : m = .refused := by
  cases h with
  | stays => rfl
  | logs hm => obtain hm | hm := hm <;> cases hm
  | marks hm => obtain hm | hm | ⟨context, hm⟩ := hm <;> cases hm
  | announces hm => obtain ⟨context, hm, -⟩ | ⟨context, hm⟩ := hm <;> cases hm

theorem Recorded.of_told (h : Recorded service w) (hs : Orderly service w)
    (hguard : FinishesFirst service w i) (hm : Moves service w i w') {t id : ℕ} {m : BuildStage}
    {status : BuildStatus} (hstage : stageOf service w' t = some (.build id m))
    (hrefused : m ≠ .refused) (hmem : status ∈ w'.shared.streams t)
    (hterminal : status.terminal = true) :
    m.claims = true ∧ status.status = .failed ∧ Settled service w' id := by
  -- The stage that the call comes from.
  have hbefore {m : BuildStage} (hold : stageOf service w t = some (.build id m))
      (hrefused : m ≠ .refused) :
      m.claims = true ∧ status.status = .failed ∧ Settled service w' id := by
    have hnow : m.claims = true ∧ status.status = .failed ∧ Settled service w id := by
      obtain hmem | ⟨m', op, c, rfl, hstage', hallows, hasks, hputs⟩ := mem_streams_of_moves hm hmem
      · exact h.told t id m status hold hrefused hmem hterminal
      · obtain rfl := Option.some.inj (hold.symm.trans hstage')
        exact h.of_puts hold hallows hrefused (hguard.harmless hold hasks) hputs hterminal
    exact ⟨hnow.1, hnow.2.1, hnow.2.2.of_moves hs hm⟩
  cases came_build hm hstage with
  | began hi ht =>
    subst ht
    obtain hmem | ⟨m', op, c, -, hstage', -⟩ := mem_streams_of_moves hm hmem
    · rw [hs.silent _ le_rfl] at hmem
      cases hmem
    · exact absurd (hs.follows.stage_lt hstage') (Nat.lt_irrefl _)
  | stayed hold => exact hbefore hold hrefused
  | went hi hold hallows hacts hasks hgoes hhistory =>
    rename_i m op answer c
    have hold' : m ≠ .refused := by
      rintro rfl
      exact hrefused hgoes.of_refused
    obtain ⟨hclaims, hstatus⟩ := hbefore hold hold'
    exact ⟨hgoes.claims_of hclaims, hstatus⟩

theorem Recorded.of_closed (h : Recorded service w) (hs : Orderly service w)
    (hguard : FinishesFirst service w i) (hm : Moves service w i w') {t id : ℕ}
    (hclaimed : claimedBy service w' t = some id) (hnone : w'.running t = none) :
    Settled service w' id := by
  refine Settled.of_moves ?_ hs hm
  obtain ⟨m, hstage, hclaims⟩ := claimedBy_eq_some.mp hclaimed
  -- A thread that is gone is where it was.
  have hold : stageOf service w t = some (.build id m) := by
    cases came_build hm hstage with
    | began hi ht => cases hclaims
    | stayed hold => exact hold
    | went hi hold hallows hacts hasks hgoes hhistory =>
      subst hi
      obtain hgone | ⟨result, m', hi, -⟩ | hi := Discipline.running_none_of_moves hm hnone
      · rw [Threads.asks, hgone] at hasks
        cases hasks
      · cases hi
      · cases hi
  have hclaimed := claimedBy_eq_some.mpr ⟨m, hold, hclaims⟩
  obtain hgone | ⟨result, m', -, hstage', hpost⟩ | rfl := Discipline.running_none_of_moves hm hnone
  · exact h.closed t id hclaimed hgone
  · obtain rfl := Option.some.inj (hold.symm.trans hstage')
    cases result with
    | ok _ =>
      obtain rfl | ⟨success, rfl⟩ := hpost
      · exact absurd rfl (h.straight t id _ hold).1
      · exact h.marked t id success hold
    | error e =>
      obtain rfl | rfl := hpost
      · cases hclaims
      · exact absurd rfl (h.straight t id _ hold).2
  · cases hclaimed.symm.trans hguard

theorem Recorded.of_moves (h : Recorded service w) (hs : Orderly service w)
    (hguard : FinishesFirst service w i) (hm : Moves service w i w') : Recorded service w' where
  claims := h.claims.of_moves hs hm
  straight t id m hstage := by
    cases came_build hm hstage with
    | began hi ht => exact ⟨nofun, nofun⟩
    | stayed hold => exact h.straight t id m hold
    | went hi hold hallows hacts hasks hgoes hhistory =>
      subst hi
      exact hgoes.straight (h.straight t id _ hold) hacts (hguard.harmless hold hasks)
  marked _ _ _ hstage := h.of_marked hs hm hstage
  told _ _ _ _ hstage hrefused hmem hterminal :=
    h.of_told hs hguard hm hstage hrefused hmem hterminal
  closed _ _ hclaimed hnone := h.of_closed hs hguard hm hclaimed hnone

-- What calls of `get_artifact` find that begin when there is nothing left to be done of a build.
structure Fetches (service : BuildService) (id n : ℕ) (w : World) : Prop where
  recorded : Recorded service w
  settled : Settled service w id
  fetched : ∀ u m, n ≤ u → stageOf service w u = some (.fetch id m) → m ≠ .unfinished ∧
    (m = .valid → ∃ entry ∈ w.shared.buildStatuses, entry.buildId = id)

theorem isBuildFinished_of_settled {id : ℕ} (hs : Orderly service w) (h : Settled service w id)
    (hentry : ∃ entry ∈ w.shared.buildStatuses, entry.buildId = id) :
    w.shared.isBuildFinished id = true := by
  obtain ⟨entry, hmem, hid⟩ := hentry
  have hstatus : w.shared.status id = some entry :=
    (find?_key_eq_some hs.sound.statuses_nodup).mpr ⟨hmem, hid⟩
  rw [State.isBuildFinished, hstatus]
  exact beq_iff_eq.mpr (h.finished entry hmem hid)

theorem Fetches.of_moves {id n : ℕ} (h : Fetches service id n w) (hs : Orderly service w)
    (hguard : FinishesFirst service w i) (hm : Moves service w i w') : Fetches service id n w' := by
  refine ⟨h.recorded.of_moves hs hguard hm, h.settled.of_moves hs hm, fun u m' hu hstage => ?_⟩
  -- A call that stays where it is.
  have hstay {m : FetchStage} (hold : stageOf service w u = some (.fetch id m)) :
      m ≠ .unfinished ∧ (m = .valid → ∃ entry ∈ w'.shared.buildStatuses, entry.buildId = id) := by
    obtain ⟨hunfinished, hvalid⟩ := h.fetched u m hu hold
    refine ⟨hunfinished, ?_⟩
    rintro rfl
    refine entry_of_moves hs hm ?_ (hvalid rfl)
    rintro t c rfl hprune entry hdropped rfl
    exact hguard.2 hprune entry hdropped u (hs.follows.stage_lt hold) hold
  cases came_fetch hm hstage with
  | began hi ht => exact ⟨nofun, nofun⟩
  | stayed hold => exact hstay hold
  | went hi hold hallows hacts hasks hgoes hhistory =>
    subst hgoes
    unfold nextFetch
    split
    case h_1 valid =>
      obtain hm | hm | hm := hallows <;> cases hm
      cases hacts with
      | performs hperform =>
        obtain ⟨hshared, rfl⟩ := Prod.mk.inj (Option.some.inj hperform)
        rw [← hshared]
        cases hany : w.shared.isValidBuildId id with
        | false => exact ⟨nofun, nofun⟩
        | true =>
          refine ⟨nofun, fun _ => ?_⟩
          obtain ⟨entry, hmem, hid⟩ := List.any_eq_true.mp hany
          exact ⟨entry, hmem, of_decide_eq_true hid⟩
    case h_2 finished =>
      obtain hm | hm := hallows <;> cases hm
      cases hacts with
      | performs hperform =>
        obtain ⟨hshared, rfl⟩ := Prod.mk.inj (Option.some.inj hperform)
        have hvalid := (h.fetched u _ hu hold).2 rfl
        rw [isBuildFinished_of_settled hs h.settled hvalid]
        exact ⟨nofun, nofun⟩
    case h_3 context => cases context <;> exact ⟨nofun, nofun⟩
    case h_4 => exact ⟨nofun, nofun⟩
    case h_5 => exact hstay hold

theorem Recorded.initial : Recorded service World.initial where
  claims := .initial
  straight _ _ _ h := nomatch h
  marked _ _ _ h := nomatch h
  told _ _ _ _ h := nomatch h
  closed _ _ h := nomatch h

theorem Recorded.of_over (h : Recorded service w) (hs : Orderly service w) {t id : ℕ}
    (hclaimed : Claimed w t id) (hover : Over w t) : Settled service w id := by
  have hclaimed := hclaimed.claimedBy hs
  obtain ⟨m, hstage, hclaims⟩ := claimedBy_eq_some.mp hclaimed
  have hrefused : m ≠ .refused := by
    rintro rfl
    cases hclaims
  obtain ⟨status, hmem, hterminal⟩ | hnone := hover
  · exact (h.told t id m status hstage hrefused hmem hterminal).2.2
  · exact h.closed t id hclaimed hnone

theorem Recorded.of_success (h : Recorded service w) (hs : Orderly service w) {t id : ℕ}
    (hclaimed : Claimed w t id) {status : BuildStatus} (hmem : status ∈ w.shared.streams t) :
    status.status ≠ .success := by
  intro hsuccess
  obtain ⟨m, hstage, hclaims⟩ := claimedBy_eq_some.mp (hclaimed.claimedBy hs)
  have hrefused : m ≠ .refused := by
    rintro rfl
    cases hclaims
  have hterminal : status.terminal = true := by rw [BuildStatus.terminal, hsuccess]; rfl
  obtain ⟨-, hfailed, -⟩ := h.told t id m status hstage hrefused hmem hterminal
  cases hsuccess.symm.trans hfailed

theorem recorded_of_path {steps : List Step}
    (hg : Transition.Guarded (step service) (FinishesFirst service) World.initial steps)
    (hp : Transition.path (step service) World.initial steps = some w) : Recorded service w :=
  invariant_of_path (Recorded service) (fun _ _ _ hs h hguard hm => h.of_moves hs hguard hm)
    Orderly.initial .initial hg hp

-- A client that has been told how a build ended, or has seen the end of its stream, is not turned
-- away by `get_artifact` as if the build were still going on.
theorem outcome_recorded {steps : List Step}
    (hg : Transition.Guarded (step service) (FinishesFirst service) World.initial steps)
    (hp : Transition.path (step service) World.initial steps = some w) :
    (claimedIds w.history).Nodup ∧
      ∀ t id, Claimed w t id →
        (Over w t → ∀ entry ∈ w.shared.buildStatuses, entry.buildId = id →
          entry.lifecycle = .finished) ∧
        ((∃ status ∈ w.shared.streams t, status.status = .success) →
          ∃ context, w.shared.context id = some context ∧ context.artifactPath.isSome = true) ∧
        (Over w t → ∀ rest w',
          Transition.Guarded (step service) (FinishesFirst service) w rest →
          Transition.path (step service) w rest = some w' → ∀ u e, w.started ≤ u →
            (u, Event.begins (Call.getArtifact id)) ∈ w'.history →
            (u, Event.ends (.error e)) ∈ w'.history → e.code ≠ .failedPrecondition) := by
  have horderly := orderly_of_path Orderly.initial hp
  have hrecorded := recorded_of_path hg hp
  refine ⟨hrecorded.claims.nodup, fun t id hclaimed => ⟨fun hover => ?_, ?_, fun hover => ?_⟩⟩
  · exact (hrecorded.of_over horderly hclaimed hover).finished
  · rintro ⟨status, hmem, hsuccess⟩
    exact absurd hsuccess (hrecorded.of_success horderly hclaimed hmem)
  · intro rest w' hg' hp' u e hu hbegins hends
    have hfetches : Fetches service id w.started w := by
      refine ⟨hrecorded, hrecorded.of_over horderly hclaimed hover, fun v m hv hstage => ?_⟩
      exact absurd (horderly.follows.stage_lt hstage) (Nat.not_lt.mpr hv)
    have horderly' := orderly_of_path horderly hp'
    have hfetches' := invariant_of_path (Fetches service id w.started)
      (fun _ _ _ hs h hguard hm => h.of_moves hs hguard hm) horderly hfetches hg' hp'
    obtain ⟨-, m, hstage, hpost⟩ := horderly'.follows.ended u _ hends
    obtain ⟨m', hstage', hhas⟩ := horderly'.recalls u _ hbegins
    obtain rfl := Option.some.inj (hstage.symm.trans hstage')
    cases m with
    | fetch id' m =>
      obtain rfl : id' = id := hhas
      obtain ⟨rfl, hcode⟩ | ⟨rfl, -⟩ := hpost
      · rw [hcode]
        decide
      · exact absurd rfl (hfetches'.fetched u _ hu hstage).1
    | _ => exact hhas.elim

end Steps

section Sample

theorem outcome_recorded_failing : ∃ w,
    Transition.path (step sampleService) World.initial (preparing 0 "a10" ++ failing 1 1) = some w ∧
      claimedBy sampleService w 1 = some 1 ∧ (claimedIds w.history).Nodup ∧
      ∀ t id, Claimed w t id → Over w t → ∀ entry ∈ w.shared.buildStatuses, entry.buildId = id →
        entry.lifecycle = .finished := by
  obtain ⟨w, hp, hclaimed⟩ := Transition.exists_path (step sampleService) World.initial
    (preparing 0 "a10" ++ failing 1 1) (fun w => claimedBy sampleService w 1 = some 1)
    (by decide +kernel)
  obtain ⟨hnodup, h⟩ := outcome_recorded (by decide +kernel) hp
  exact ⟨w, hp, hclaimed, hnodup, fun t id hc hover => (h t id hc).1 hover⟩

-- `make` succeeds, and the success is on the stream of the build.
def succeeding (t id : ℕ) : List Step :=
  making t id ++ [.acts t (.process (.writes (eureka.imagePath))),
    .acts t (.process (.exits (.ok true)))] ++ goes t 4 (machine true)

def refusedWith (w : World) (t : ℕ) (code : Code) : Bool :=
  w.history.any fun
    | (u, .ends (.error e)) => u == t && e.code == code
    | _ => false

-- The client fetches its artifact when it is told of the success, before the build is marked.
theorem fetched_too_early : ∃ w,
    Transition.path (step sampleService) World.initial (preparing 0 "a10" ++ succeeding 1 1 ++
      .begins (.getArtifact 1) :: goes 2 2 (machine true) ++ [.ends 2]) = some w ∧
      claimedBy sampleService w 1 = some 1 ∧
      (∃ status ∈ w.shared.streams 1, status.status = .success) ∧
      (∃ entry ∈ w.shared.buildStatuses, entry.buildId = 1 ∧ entry.lifecycle = .running) ∧
      (∀ context ∈ w.shared.contexts, context.artifactPath = none) ∧
      refusedWith w 2 .failedPrecondition = true :=
  Transition.exists_path (step sampleService) World.initial _ _ (by decide +kernel)

end Sample

end Glider.KernelBuild

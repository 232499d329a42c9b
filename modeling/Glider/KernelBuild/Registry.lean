import Glider.KernelBuild.Effects

namespace Glider.KernelBuild

open Glider.Lib Glider.Lib.Threads State
open Glider.RomBuild (Path)

abbrev stageOf (service : BuildService) (w : World) (t : ℕ) : Option Stage :=
  (discipline service).stage w t

abbrev Moves (service : BuildService) (w : World) (i : Step) (w' : World) : Prop :=
  (discipline service).Moves (system service) w i w'

-- What is left of a stage when only the id of a prepared build matters.
def Stage.registration : Stage → Option PrepareStage
  | .prepare (.issued spec id) => some (.issued spec id)
  | .prepare (.known spec id) => some (.known spec id)
  | .prepare (.listed spec id) => some (.listed spec id)
  | _ => none

def PrepareStage.id : PrepareStage → Option ℕ
  | .issued _ id | .known _ id | .listed _ id => some id
  | _ => none

-- What of the service matters for the ids: how far the calls of `prepare_build` are that have one,
-- the contexts, the statuses, and the ids that have been given out, newest first.
@[ext]
structure Ledger where
  stages : ℕ → Option PrepareStage
  lastId : ℕ
  contexts : List (ℕ × Path)
  statuses : List ℕ
  issued : List ℕ

namespace Ledger

def Has (l : Ledger) (spec : CommandSpec) (id : ℕ) : Prop :=
  ∃ t, l.stages t = some (.known spec id) ∨ l.stages t = some (.listed spec id)

-- Every id belongs to one call of `prepare_build`, which has put its context into the list when it
-- lists the status.
structure Sound (l : Ledger) : Prop where
  owner_le : ∀ t p id, l.stages t = some p → p.id = some id → id ≤ l.lastId
  unique : ∀ t u p q id, l.stages t = some p → l.stages u = some q → p.id = some id →
    q.id = some id → t = u
  context_known : ∀ key ∈ l.contexts, ∃ spec, key.2 = spec.dir ∧ l.Has spec key.1
  known_context : ∀ spec id, l.Has spec id → (id, spec.dir) ∈ l.contexts
  entry_listed : ∀ id ∈ l.statuses, ∃ t spec, l.stages t = some (.listed spec id)
  contexts_nodup : (l.contexts.map (·.1)).Nodup
  statuses_nodup : l.statuses.Nodup
  issued_le : ∀ id ∈ l.issued, id ≤ l.lastId
  issued_nodup : l.issued.Nodup

def issue (l : Ledger) (t : ℕ) (spec : CommandSpec) : Ledger :=
  { l with
    stages := Function.update l.stages t (some (.issued spec (l.lastId + 1)))
    lastId := l.lastId + 1
    issued := (l.lastId + 1) :: l.issued }

def addContext (l : Ledger) (t : ℕ) (spec : CommandSpec) (id : ℕ) : Ledger :=
  { l with
    stages := Function.update l.stages t (some (.known spec id))
    contexts := l.contexts ++ [(id, spec.dir)] }

def addStatus (l : Ledger) (t : ℕ) (spec : CommandSpec) (id : ℕ) : Ledger :=
  { l with
    stages := Function.update l.stages t (some (.listed spec id))
    statuses := l.statuses ++ [id] }

namespace Sound

variable {l : Ledger} {t : ℕ} {spec : CommandSpec} {id : ℕ}

theorem drop (h : l.Sound) {statuses : List ℕ} (hsub : statuses.Sublist l.statuses) :
    Sound { l with statuses := statuses } :=
  { h with
    entry_listed := fun id hid => h.entry_listed id (hsub.subset hid)
    statuses_nodup := h.statuses_nodup.sublist hsub }

theorem update_eq_some {f : ℕ → Option PrepareStage} {u : ℕ} {p q : PrepareStage} :
    Function.update f t (some p) u = some q ↔ u = t ∧ p = q ∨ u ≠ t ∧ f u = some q := by
  by_cases h : u = t
  · simp [h]
  · simp [h]

-- A thread that comes from one stage to the next is still the one that has the id.
theorem has_update {f : ℕ → Option PrepareStage} {p q : PrepareStage} {u : ℕ}
    (ht : f t ≠ some q) (hu : f u = some q) : Function.update f t (some p) u = some q := by
  have hne : u ≠ t := by
    rintro rfl
    exact ht hu
  rw [Function.update_of_ne hne, hu]

theorem issue (h : l.Sound) (ht : l.stages t = none) (spec : CommandSpec) :
    (l.issue t spec).Sound where
  owner_le u p id hp hid := by
    obtain ⟨-, rfl⟩ | ⟨-, hp⟩ := update_eq_some.mp hp
    · cases hid
      exact le_rfl
    · exact Nat.le_succ_of_le (h.owner_le u p id hp hid)
  unique u v p q id hp hq hpid hqid := by
    obtain ⟨rfl, rfl⟩ | ⟨-, hu⟩ := update_eq_some.mp hp
    · obtain ⟨rfl, -⟩ | ⟨-, hv⟩ := update_eq_some.mp hq
      · rfl
      · cases hpid
        exact absurd (h.owner_le v q _ hv hqid) (Nat.not_succ_le_self _)
    · obtain ⟨rfl, rfl⟩ | ⟨-, hv⟩ := update_eq_some.mp hq
      · cases hqid
        exact absurd (h.owner_le u p _ hu hpid) (Nat.not_succ_le_self _)
      · exact h.unique u v p q id hu hv hpid hqid
  context_known key hkey := by
    obtain ⟨spec', hdir, u, hu⟩ := h.context_known key hkey
    refine ⟨spec', hdir, u, ?_⟩
    exact hu.imp (has_update (by rw [ht]; nofun)) (has_update (by rw [ht]; nofun))
  known_context spec' id hhas := by
    obtain ⟨u, hu⟩ := hhas
    refine h.known_context spec' id ⟨u, ?_⟩
    refine hu.imp ?_ ?_ <;> intro hu <;> obtain ⟨-, hp⟩ | ⟨-, hu⟩ := update_eq_some.mp hu
    · cases hp
    · exact hu
    · cases hp
    · exact hu
  entry_listed id hid := by
    obtain ⟨u, spec', hu⟩ := h.entry_listed id hid
    exact ⟨u, spec', has_update (by rw [ht]; nofun) hu⟩
  contexts_nodup := h.contexts_nodup
  statuses_nodup := h.statuses_nodup
  issued_le id hid := by
    obtain rfl | hid := List.mem_cons.mp hid
    · exact le_rfl
    · exact Nat.le_succ_of_le (h.issued_le id hid)
  issued_nodup := by
    refine List.nodup_cons.mpr ⟨fun hmem => ?_, h.issued_nodup⟩
    exact absurd (h.issued_le _ hmem) (Nat.not_succ_le_self _)

-- What holds of the ids when a thread goes on with its own id.
theorem owners (h : l.Sound) {p p' : PrepareStage} (ht : l.stages t = some p)
    (hp : p.id = some id) (hp' : p'.id = some id) :
    (∀ u q i, Function.update l.stages t (some p') u = some q → q.id = some i → i ≤ l.lastId) ∧
      ∀ u v q r i, Function.update l.stages t (some p') u = some q →
        Function.update l.stages t (some p') v = some r → q.id = some i → r.id = some i →
          u = v := by
  have hback {u : ℕ} {q : PrepareStage} {i : ℕ} (hi : q.id = some i)
      (hu : Function.update l.stages t (some p') u = some q) :
      ∃ q', l.stages u = some q' ∧ q'.id = some i := by
    obtain ⟨rfl, rfl⟩ | ⟨-, hu⟩ := update_eq_some.mp hu
    · exact ⟨p, ht, hp.trans (hp'.symm.trans hi)⟩
    · exact ⟨q, hu, hi⟩
  constructor
  · intro u q i hq hi
    obtain ⟨q', hq', hi'⟩ := hback hi hq
    exact h.owner_le u q' i hq' hi'
  · intro u v q r i hq hr hi hi'
    obtain ⟨q', hq', hqi⟩ := hback hi hq
    obtain ⟨r', hr', hri⟩ := hback hi' hr
    exact h.unique u v q' r' i hq' hr' hqi hri

theorem addContext (h : l.Sound) (ht : l.stages t = some (.issued spec id)) :
    (l.addContext t spec id).Sound where
  owner_le := (h.owners ht rfl rfl).1
  unique := (h.owners ht rfl rfl).2
  context_known key hkey := by
    obtain hkey | hkey := List.mem_append.mp hkey
    · obtain ⟨spec', hdir, u, hu⟩ := h.context_known key hkey
      refine ⟨spec', hdir, u, ?_⟩
      exact hu.imp (has_update (by rw [ht]; nofun)) (has_update (by rw [ht]; nofun))
    · obtain rfl := List.mem_singleton.mp hkey
      exact ⟨spec, rfl, t, .inl (Function.update_self ..)⟩
  known_context spec' id' hhas := by
    obtain ⟨u, hu⟩ := hhas
    refine List.mem_append.mpr ?_
    obtain hu | hu := hu <;> obtain ⟨-, hp⟩ | ⟨-, hu⟩ := update_eq_some.mp hu
    · cases hp
      exact .inr (List.mem_singleton_self _)
    · exact .inl (h.known_context spec' id' ⟨u, .inl hu⟩)
    · cases hp
    · exact .inl (h.known_context spec' id' ⟨u, .inr hu⟩)
  entry_listed id' hid := by
    obtain ⟨u, spec', hu⟩ := h.entry_listed id' hid
    exact ⟨u, spec', has_update (by rw [ht]; nofun) hu⟩
  contexts_nodup := by
    rw [Ledger.addContext, List.map_append, List.map_singleton]
    refine List.nodup_append'.mpr ⟨h.contexts_nodup, List.nodup_singleton _, ?_⟩
    rw [List.disjoint_singleton]
    intro hmem
    obtain ⟨key, hkey, hid⟩ := List.mem_map.mp hmem
    -- The call that has put in the other context would have the same id.
    obtain ⟨spec', -, u, hu⟩ := h.context_known key hkey
    rw [hid] at hu
    obtain hu | hu := hu
    · obtain rfl := h.unique u t _ _ id hu ht rfl rfl
      cases ht.symm.trans hu
    · obtain rfl := h.unique u t _ _ id hu ht rfl rfl
      cases ht.symm.trans hu
  statuses_nodup := h.statuses_nodup
  issued_le := h.issued_le
  issued_nodup := h.issued_nodup

theorem addStatus (h : l.Sound) (ht : l.stages t = some (.known spec id)) :
    (l.addStatus t spec id).Sound where
  owner_le := (h.owners ht rfl rfl).1
  unique := (h.owners ht rfl rfl).2
  context_known key hkey := by
    obtain ⟨spec', hdir, u, hu⟩ := h.context_known key hkey
    refine ⟨spec', hdir, ?_⟩
    by_cases hut : u = t
    · subst hut
      have hspec : PrepareStage.known spec id = .known spec' key.1 := by
        obtain hu | hu := hu
        · exact Option.some.inj (ht.symm.trans hu)
        · cases ht.symm.trans hu
      cases hspec
      exact ⟨u, .inr (Function.update_self ..)⟩
    · refine ⟨u, ?_⟩
      have hsame : (l.addStatus t spec id).stages u = l.stages u := Function.update_of_ne hut ..
      rw [hsame]
      exact hu
  known_context spec' id' hhas := by
    obtain ⟨u, hu⟩ := hhas
    obtain hu | hu := hu <;> obtain ⟨-, hp⟩ | ⟨-, hu⟩ := update_eq_some.mp hu
    · cases hp
    · exact h.known_context spec' id' ⟨u, .inl hu⟩
    · cases hp
      exact h.known_context spec id ⟨t, .inl ht⟩
    · exact h.known_context spec' id' ⟨u, .inr hu⟩
  entry_listed id' hid := by
    obtain hid | hid := List.mem_append.mp hid
    · obtain ⟨u, spec', hu⟩ := h.entry_listed id' hid
      exact ⟨u, spec', has_update (by rw [ht]; nofun) hu⟩
    · obtain rfl := List.mem_singleton.mp hid
      exact ⟨t, spec, Function.update_self ..⟩
  contexts_nodup := h.contexts_nodup
  statuses_nodup := by
    refine List.nodup_append'.mpr ⟨h.statuses_nodup, List.nodup_singleton _, ?_⟩
    rw [List.disjoint_singleton]
    intro hmem
    obtain ⟨u, spec', hu⟩ := h.entry_listed id hmem
    obtain rfl := h.unique u t _ _ id hu ht rfl rfl
    cases ht.symm.trans hu
  issued_le := h.issued_le
  issued_nodup := h.issued_nodup

end Sound

end Ledger

def issuedIds (history : List (ℕ × Event Call Op Op.Answer Status)) : List ℕ :=
  history.filterMap fun
    | (_, .answers .incAndGetBuildId id) => some id
    | _ => none

-- The builds that have been marked as finished, by their own task or by `cancel_build`.
def finishedIds (history : List (ℕ × Event Call Op Op.Answer Status)) : List ℕ :=
  history.filterMap fun
    | (_, .answers (.markBuildFinished id _) _) => some id
    | (_, .answers (.setFinished id) _) => some id
    | _ => none

def ledger (service : BuildService) (w : World) : Ledger where
  stages := (discipline service).view Stage.registration w
  lastId := w.shared.lastId
  contexts := w.shared.contexts.map fun context => (context.id, context.workDir)
  statuses := w.shared.buildStatuses.map (·.buildId)
  issued := issuedIds w.history

section Stages

theorem registration_eq_some {m : Stage} {p : PrepareStage} :
    m.registration = some p ↔ m = .prepare p ∧ p.id.isSome = true := by
  constructor
  · intro h
    unfold Stage.registration at h
    split at h <;> cases h <;> exact ⟨rfl, rfl⟩
  · rintro ⟨rfl, hid⟩
    cases p <;> first | rfl | cases hid

theorem stages_eq_some {service : BuildService} {w : World} {t : ℕ} {p : PrepareStage} :
    (ledger service w).stages t = some p ↔
      stageOf service w t = some (.prepare p) ∧ p.id.isSome = true := by
  refine Option.bind_eq_some_iff.trans ?_
  simp only [registration_eq_some]
  constructor
  · rintro ⟨m, hstage, rfl, hid⟩
    exact ⟨hstage, hid⟩
  · rintro ⟨hstage, hid⟩
    exact ⟨_, hstage, rfl, hid⟩

theorem registration_start (call : Call) : call.start.registration = none := by
  cases call <;> rfl

theorem registration_next {m : Stage} {op : Op} (answer : op.Answer)
    (hissue : op ≠ .incAndGetBuildId) (hcontext : ∀ context, op ≠ .pushContext context)
    (hstatus : ∀ entry, op ≠ .pushStatus entry) :
    (next m op answer).registration = m.registration := by
  cases m with
  | prepare stage =>
    simp only [next]
    unfold nextPrepare
    split
    · rfl
    · exact absurd rfl hissue
    · exact absurd rfl (hcontext _)
    · exact absurd rfl (hstatus _)
    · rfl
  | _ => rfl

theorem issuedIds_answers (t : ℕ) {op : Op} (answer : op.Answer)
    (history : List (ℕ × Event Call Op Op.Answer Status)) (hop : op ≠ .incAndGetBuildId) :
    issuedIds ((t, .answers op answer) :: history) = issuedIds history := by
  refine List.filterMap_cons_none ?_
  cases op with
  | incAndGetBuildId => exact absurd rfl hop
  | _ => rfl

end Stages

-- The stages that a call can be in.
def Call.Has : Call → Stage → Prop
  | .prepareBuild _, .prepare _ => True
  | .doBuild id, .build id' _ => id' = id
  | .cancelBuild id, .cancel id' _ => id' = id
  | .getArtifact id, .fetch id' _ => id' = id
  | .ctrlC, .interrupt _ => True
  | _, _ => False

theorem Call.has_start (call : Call) : call.Has call.start := by
  cases call <;> trivial

theorem Call.has_next {call : Call} {m : Stage} {op : Op} {answer : op.Answer} (h : call.Has m) :
    call.Has (next m op answer) := by
  cases call <;> cases m <;> exact h

theorem next_listed {spec : CommandSpec} {id : ℕ} (op : Op) (answer : op.Answer) :
    nextPrepare (.listed spec id) op answer = .listed spec id := by
  cases op <;> rfl

def BuildStage.claims : BuildStage → Bool
  | .asked | .valid | .refused | .found _ => false
  | _ => true

-- The build that a call of `do_build` has made its own.
def Stage.claimed : Stage → Option ℕ
  | .build id stage => if stage.claims then some id else none
  | _ => none

section Claiming

variable {service : BuildService} {m : Stage} {op : Op}

theorem BuildGoes.claims_eq {stage stage' : BuildStage} {answer : op.Answer}
    (h : BuildGoes stage op answer stage') (hop : ∀ id, op ≠ .claimPreparedBuild id) :
    stage'.claims = stage.claims := by
  cases h with
  | claims | unclaimed => exact absurd rfl (hop _)
  | logs hm => obtain rfl | rfl := hm <;> rfl
  | marks hm => obtain rfl | rfl | ⟨context, rfl⟩ := hm <;> rfl
  | announces hm => obtain ⟨context, rfl, -⟩ | ⟨context, rfl⟩ := hm <;> rfl
  | _ => rfl

theorem claimed_next (answer : op.Answer) (hop : ∀ id, op ≠ .claimPreparedBuild id) :
    (next m op answer).claimed = m.claimed := by
  cases m with
  | build id stage =>
    have hclaims := (goes_nextBuild stage op answer).claims_eq hop
    simp only [next, Stage.claimed, hclaims]
  | _ => rfl

theorem claimed_claim {id : ℕ} (hallows : Allows service m (.claimPreparedBuild id))
    (answer : Except Status Unit) : m.claimed = none ∧
      (next m (.claimPreparedBuild id) answer).claimed = answer.toOption.map fun _ => id := by
  obtain ⟨context, rfl⟩ := hallows
  cases answer with
  | error e | ok _ => exact ⟨rfl, rfl⟩

-- What an event of a call tells of its stage.
def Tells : Event Call Op Op.Answer Status → Stage → Prop
  | .begins call, m => call.Has m
  | .answers (.claimPreparedBuild id) (.ok _), m => m.claimed = some id
  | _, _ => True

theorem claimed_stays {id : ℕ} (hallows : Allows service m op) (answer : op.Answer)
    (h : m.claimed = some id) : (next m op answer).claimed = some id := by
  by_cases hop : ∃ id', op = .claimPreparedBuild id'
  · obtain ⟨id', rfl⟩ := hop
    cases (claimed_claim hallows answer).1.symm.trans h
  · rw [not_exists] at hop
    rw [claimed_next answer hop, h]

theorem lasts (service : BuildService) : Discipline.Lasts (discipline service) Tells where
  begins := Call.has_start
  answers m op answer hallows := by
    unfold Tells
    split
    · next h => cases h
    · next id _ h =>
      cases h
      obtain ⟨context, rfl⟩ := hallows
      rfl
    · trivial
  ends _ _ _ := trivial
  hangsUp _ := trivial
  goes event m op answer hallows h := by
    unfold Tells at h ⊢
    split
    · exact Call.has_next h
    · exact claimed_stays hallows answer h
    · trivial

end Claiming

section Steps

variable {service : BuildService} {w : World} {t : ℕ} {m : Stage}
  {p : Option (Build Unit)} {shared : State}

theorem ledger_answers_of_ne {op : Op} {answer : op.Answer} (h : stageOf service w t = some m)
    (hissue : op ≠ .incAndGetBuildId) (hcontext : ∀ context, op ≠ .pushContext context)
    (hstatus : ∀ entry, op ≠ .pushStatus entry) (hlast : shared.lastId = w.shared.lastId)
    (hcontexts : shared.contexts = onContexts op w.shared.contexts) :
    ledger service (w.record t (.answers op answer) p shared) =
      { ledger service w with statuses := shared.buildStatuses.map (·.buildId) } := by
  refine Ledger.ext ?_ hlast ?_ rfl (issuedIds_answers t answer _ hissue)
  · exact Discipline.view_eq_of_answers h (registration_next answer hissue hcontext hstatus) ..
  · exact (congrArg (List.map _) hcontexts).trans (keys_onContexts hcontext _)

-- The ledger after each operation that is answered.
theorem sound_answers (hsound : (ledger service w).Sound) {op : Op} {i : Choice}
    {answer : op.Answer} (hstage : stageOf service w t = some m) (hallows : Allows service m op)
    (hacts : Acts service w.shared t op i shared (some answer)) (p : Option (Build Unit)) :
    (ledger service (w.record t (.answers op answer) p shared)).Sound := by
  have hat : (ledger service w).stages t = m.registration :=
    congrArg (·.bind Stage.registration) hstage
  have hcontexts := contexts_of_acts hacts
  have hstatuses := buildStatuses_of_acts hacts
  by_cases hissue : op = .incAndGetBuildId
  · subst hissue
    obtain ⟨spec, rfl⟩ := hallows
    cases hacts with
    | performs h =>
      obtain ⟨rfl, rfl⟩ := perform_incAndGetBuildId h
      have heq : ledger service (w.record t (.answers .incAndGetBuildId (w.shared.lastId + 1)) p
          { w.shared with lastId := w.shared.lastId + 1 }) = (ledger service w).issue t spec :=
        Ledger.ext (Discipline.view_answers hstage ..) rfl rfl rfl rfl
      rw [heq]
      exact hsound.issue hat spec
  have hlast := lastId_of_acts hacts hissue
  by_cases hcontext : ∃ context, op = .pushContext context
  · obtain ⟨context, rfl⟩ := hcontext
    obtain ⟨-, -, spec, rfl, hdir⟩ := hallows
    have heq : ledger service (w.record t (.answers (.pushContext context) answer) p shared) =
        (ledger service w).addContext t spec context.id := by
      refine Ledger.ext (Discipline.view_answers hstage ..) hlast ?_ (congrArg (List.map _) hstatuses)
        (issuedIds_answers t answer _ hissue)
      refine (congrArg (List.map _) hcontexts).trans ?_
      rw [onContexts, List.map_append, List.map_singleton, hdir]
      rfl
    rw [heq]
    exact hsound.addContext hat
  by_cases hstatus : ∃ entry, op = .pushStatus entry
  · obtain ⟨entry, rfl⟩ := hstatus
    obtain ⟨-, spec, rfl⟩ := hallows
    have heq : ledger service (w.record t (.answers (.pushStatus entry) answer) p shared) =
        (ledger service w).addStatus t spec entry.buildId := by
      refine Ledger.ext (Discipline.view_answers hstage ..) hlast (congrArg (List.map _) hcontexts) ?_
        (issuedIds_answers t answer _ hissue)
      refine (congrArg (List.map _) hstatuses).trans ?_
      rw [onStatuses, List.map_append, List.map_singleton]
      rfl
    rw [heq]
    exact hsound.addStatus hat
  rw [not_exists] at hcontext hstatus
  rw [ledger_answers_of_ne hstage hissue hcontext hstatus hlast hcontexts, hstatuses]
  exact hsound.drop (ids_onStatuses hstatus _)

-- A step that leaves the lists alone, and the calls that have an id.
theorem Ledger.Sound.keep {w' : World} (hsound : (ledger service w).Sound)
    (hlast : w'.shared.lastId = w.shared.lastId) (hcontexts : w'.shared.contexts = w.shared.contexts)
    (hstatuses : w'.shared.buildStatuses = w.shared.buildStatuses)
    (hstages : (ledger service w').stages = (ledger service w).stages)
    (hissued : issuedIds w'.history = issuedIds w.history) : (ledger service w').Sound := by
  have heq : ledger service w' = ledger service w :=
    Ledger.ext hstages hlast (congrArg (List.map _) hcontexts)
      (congrArg (List.map _) hstatuses) hissued
  rw [heq]
  exact hsound

theorem sound_of_moves {w' : World} {i : Step} (hs : (discipline service).Follows w)
    (hsound : (ledger service w).Sound) (h : Moves service w i w') :
    (ledger service w').Sound := by
  cases h with
  | answers hstage hallows hact hrunning =>
    exact sound_answers hsound hstage hallows (acts_of_act hact) _
  | waits hstage hallows hact hrunning =>
    have houtside := outside_of_waits (acts_of_act hact)
    exact hsound.keep houtside.lastId houtside.contexts houtside.buildStatuses rfl rfl
  | ends hstage hpost => exact hsound.keep rfl rfl rfl (Discipline.view_ends ..) rfl
  | hangsUp hstage hhangs hrunning =>
    obtain ⟨-, rfl⟩ := hangsUp_eq_some hhangs
    exact hsound.keep rfl rfl rfl (Discipline.view_hangsUp ..) rfl
  | begins hbegins =>
    obtain ⟨spawned, interrupted, rfl⟩ := begins_eq_some hbegins
    exact hsound.keep rfl rfl rfl (Discipline.view_begun hs (registration_start _) ..) rfl

theorem sound_initial : (ledger service World.initial).Sound where
  owner_le _ _ _ h := nomatch h
  unique _ _ _ _ _ h := nomatch h
  context_known _ h := nomatch h
  known_context _ _ := fun ⟨_, h⟩ => h.elim nofun nofun
  entry_listed _ h := nomatch h
  contexts_nodup := List.nodup_nil
  statuses_nodup := List.nodup_nil
  issued_le _ h := nomatch h
  issued_nodup := List.nodup_nil

-- What holds in every state of the service.
structure Orderly (service : BuildService) (w : World) : Prop where
  follows : (discipline service).Follows w
  sound : (ledger service w).Sound
  recalls : Discipline.Recalls (discipline service) Tells w
  silent : ∀ t, w.started ≤ t → w.shared.streams t = []

theorem Orderly.initial : Orderly service World.initial :=
  ⟨Discipline.Follows.initial _, sound_initial, fun _ _ h => (nomatch h), fun _ _ => rfl⟩

theorem Orderly.contexts_nodup (h : Orderly service w) :
    (w.shared.contexts.map (·.id)).Nodup := by
  have hnodup := h.sound.contexts_nodup
  simp only [ledger, List.map_map] at hnodup
  exact hnodup

-- Where a context comes from.
inductive ContextCame (service : BuildService) (w w' : World) (c' : BuildContext) : Prop where
  | stayed (h : c' ∈ w.shared.contexts)
  | pushed {t : ℕ} {spec : CommandSpec}
      (hstage : stageOf service w t = some (.prepare (.issued spec c'.id)))
      (hartifact : c'.artifactPath = none) (hkill : c'.killSignal = none)
  | stored {t kill : ℕ} {c context : BuildContext} (hc : c ∈ w.shared.contexts)
      (hstage : stageOf service w t = some (.build c.id (.channelled context kill)))
      (hnext : stageOf service w' t = some (.build c.id (.stored context kill)))
      (h : c' = store kill c)
  | attached {t : ℕ} {c : BuildContext} {m : BuildStage} {path : Path} (hc : c ∈ w.shared.contexts)
      (hstage : stageOf service w t = some (.build c.id m))
      (hallows : Allows service (.build c.id m) (.addArtifactPath c.id path))
      (hnext : stageOf service w' t =
        some (.build c.id (nextBuild m (.addArtifactPath c.id path) ())))
      (h : c' = attach path c)

theorem context_of_moves {w' : World} {i : Step} (hs : Orderly service w)
    (hm : Moves service w i w') {c' : BuildContext} (hc : c' ∈ w'.shared.contexts) :
    ContextCame service w w' c' := by
  cases hm with
  | answers hstage hallows hact hrunning =>
    rename_i t c op next shared answer m
    have hc : c' ∈ onContexts op w.shared.contexts := contexts_of_acts (acts_of_act hact) ▸ hc
    obtain rfl | ⟨c, hmem, haltered⟩ := altered_of_mem hs.contexts_nodup hc
    · obtain ⟨hartifact, hkill, spec, rfl, -⟩ := hallows
      exact .pushed hstage hartifact hkill
    · cases haltered with
      | same h => exact .stayed (h ▸ hmem)
      | stored kill hop h =>
        subst hop
        obtain ⟨context, rfl⟩ := hallows
        exact .stored hmem hstage (Discipline.stage_answers hstage ..) h
      | attached path hop h =>
        subst hop
        obtain ⟨m, rfl⟩ : ∃ stage, m = .build c.id stage := by
          obtain rfl | ⟨context, rfl | rfl, -⟩ := hallows <;> exact ⟨_, rfl⟩
        exact .attached hmem hstage hallows (Discipline.stage_answers hstage ..) h
  | waits hstage hallows hact hrunning =>
    exact .stayed ((outside_of_waits (acts_of_act hact)).contexts ▸ hc)
  | ends hstage hpost => exact .stayed hc
  | hangsUp hstage hhangs hrunning =>
    obtain ⟨-, rfl⟩ := hangsUp_eq_some hhangs
    exact .stayed hc
  | begins hbegins =>
    obtain ⟨spawned, interrupted, rfl⟩ := begins_eq_some hbegins
    exact .stayed hc

-- Where a status on a stream comes from.
theorem mem_streams_of_moves {w' : World} {i : Step} (hm : Moves service w i w') {u : ℕ}
    {status : BuildStatus} (hmem : status ∈ w'.shared.streams u) :
    status ∈ w.shared.streams u ∨ ∃ m op c, i = .acts u c ∧ stageOf service w u = some m ∧
      Allows service m op ∧ w.asks u = some op ∧ Puts w.shared u op c status := by
  cases hm with
  | answers hstage hallows hact hrunning =>
    refine (mem_streams_of_acts (acts_of_act hact) hmem).imp_right ?_
    rintro ⟨rfl, hputs⟩
    exact ⟨_, _, _, rfl, hstage, hallows, asks_of_running hrunning, hputs⟩
  | waits hstage hallows hact hrunning =>
    refine (mem_streams_of_acts (acts_of_act hact) hmem).imp_right ?_
    rintro ⟨rfl, hputs⟩
    obtain ⟨next, hrunning⟩ := hrunning
    exact ⟨_, _, _, rfl, hstage, hallows, asks_of_running hrunning, hputs⟩
  | ends hstage hpost => exact .inl hmem
  | hangsUp hstage hhangs hrunning =>
    obtain ⟨-, rfl⟩ := hangsUp_eq_some hhangs
    exact .inl hmem
  | begins hbegins =>
    obtain ⟨spawned, interrupted, rfl⟩ := begins_eq_some hbegins
    exact .inl hmem

-- Where a stage of one kind of call comes from.
inductive CameTo {α : Type} (service : BuildService) (w : World) (i : Step) (w' : World) (t : ℕ)
    (kind : α → Stage) (start : α) (goes : α → (op : Op) → op.Answer → α → Prop) : α → Prop where
  | began {call : Call} (hi : i = .begins call) (ht : t = w.started) :
      CameTo service w i w' t kind start goes start
  | stayed {a : α} (h : stageOf service w t = some (kind a)) :
      CameTo service w i w' t kind start goes a
  | went {a a' : α} {op : Op} {answer : op.Answer} {c : Choice} (hi : i = .acts t c)
      (h : stageOf service w t = some (kind a)) (hallows : Allows service (kind a) op)
      (hacts : Acts service w.shared t op c w'.shared (some answer))
      (hasks : w.asks t = some op) (hgoes : goes a op answer a')
      (hhistory : w'.history = (t, .answers op answer) :: w.history) :
      CameTo service w i w' t kind start goes a'

section Came

variable {w' : World} {i : Step} {t id : ℕ}

-- A kind of stage that only its own kind leads to, or a call that begins with `start`.
theorem came_of_kind {α : Type} {kind : α → Stage} {start : α}
    {goes : α → (op : Op) → op.Answer → α → Prop} (hm : Moves service w i w') {a : α}
    (h : stageOf service w' t = some (kind a))
    (hstart : ∀ call : Call, call.start = kind a → a = start)
    (hnext : ∀ (m : Stage) (op : Op) (answer : op.Answer), next m op answer = kind a →
      ∃ b, m = kind b ∧ goes b op answer a) :
    CameTo service w i w' t kind start goes a := by
  generalize hm' : kind a = m' at h
  cases Discipline.came_of_moves hm h with
  | began hi ht =>
    obtain rfl := hstart _ hm'.symm
    exact .began hi ht
  | stayed hold => exact .stayed (hm' ▸ hold)
  | went hi hold hallows hact hasks hhistory =>
    obtain ⟨b, rfl, hgoes⟩ := hnext _ _ _ hm'.symm
    exact .went hi hold hallows (acts_of_act hact) hasks hgoes hhistory

theorem came_prepare (hm : Moves service w i w') {p : PrepareStage}
    (h : stageOf service w' t = some (.prepare p)) :
    CameTo service w i w' t .prepare .preparing (fun p op a p' => p' = nextPrepare p op a) p := by
  refine came_of_kind hm h (fun call hcall => ?_) fun m op answer hnext => ?_
  · cases call <;> cases hcall
    rfl
  · cases m <;> cases hnext
    exact ⟨_, rfl, rfl⟩

theorem came_build (hm : Moves service w i w') {m : BuildStage}
    (h : stageOf service w' t = some (.build id m)) :
    CameTo service w i w' t (.build id) .asked BuildGoes m := by
  refine came_of_kind hm h (fun call hcall => ?_) fun m op answer hnext => ?_
  · cases call <;> cases hcall
    rfl
  · cases m <;> cases hnext
    exact ⟨_, rfl, goes_nextBuild ..⟩

theorem came_fetch (hm : Moves service w i w') {m : FetchStage}
    (h : stageOf service w' t = some (.fetch id m)) :
    CameTo service w i w' t (.fetch id) .asked (fun m op a m' => m' = nextFetch m op a) m := by
  refine came_of_kind hm h (fun call hcall => ?_) fun m op answer hnext => ?_
  · cases call <;> cases hcall
    rfl
  · cases m <;> cases hnext
    exact ⟨_, rfl, rfl⟩

theorem came_interrupt (hm : Moves service w i w') {m : InterruptStage}
    (h : stageOf service w' t = some (.interrupt m)) :
    CameTo service w i w' t .interrupt .waiting (fun m op a m' => m' = nextInterrupt m op a) m := by
  refine came_of_kind hm h (fun call hcall => ?_) fun m op answer hnext => ?_
  · cases call <;> cases hcall
    rfl
  · cases m <;> cases hnext
    exact ⟨_, rfl, rfl⟩

end Came

theorem started_le_of_moves {w' : World} {i : Step} (hm : Moves service w i w') :
    w.started ≤ w'.started := by
  cases hm with
  | begins hbegins => exact Nat.le_succ _
  | _ => exact le_rfl

theorem Orderly.of_step {w' : World} {i : Step} (h : Orderly service w)
    (hstep : step service w i = some w') : Orderly service w' := by
  have hm := Discipline.moves_of_step h.follows hstep
  refine ⟨h.follows.of_step (governs service) hstep, sound_of_moves h.follows h.sound hm,
    h.recalls.of_moves (lasts service) h.follows hm, fun t ht => ?_⟩
  refine List.eq_nil_iff_forall_not_mem.mpr fun status hmem => ?_
  have ht := (started_le_of_moves hm).trans ht
  obtain hold | ⟨m, op, c, -, hstage, -⟩ := mem_streams_of_moves hm hmem
  · rw [h.silent t ht] at hold
    cases hold
  · exact absurd (h.follows.stage_lt hstage) (Nat.not_lt.mpr ht)

theorem orderly_of_path {w' : World} {steps : List Step} (h : Orderly service w)
    (hp : Transition.path (step service) w steps = some w') : Orderly service w' :=
  Transition.path_invariant_of_step (Orderly service) (fun _ _ _ hw hstep => hw.of_step hstep) h hp

-- What every guarded step keeps holds at the end of every guarded run.
theorem invariant_of_path (good : World → Prop) {guard : World → Step → Prop} {w' : World}
    {steps : List Step}
    (hstep : ∀ w i w', Orderly service w → good w → guard w i → Moves service w i w' → good w')
    (h : Orderly service w) (hgood : good w)
    (hg : Transition.Guarded (step service) guard w steps)
    (hp : Transition.path (step service) w steps = some w') : good w' := by
  have hboth : Orderly service w' ∧ good w' := by
    refine Transition.path_invariant (fun w => Orderly service w ∧ good w) ?_ ⟨h, hgood⟩ hg hp
    rintro u i u' ⟨hu, hgood⟩ hguard hmove
    exact ⟨hu.of_step hmove,
      hstep u i u' hu hgood hguard (Discipline.moves_of_step hu.follows hmove)⟩
  exact hboth.2

end Steps

end Glider.KernelBuild

import Glider.KernelBuild.Signals

namespace Glider.KernelBuild

open Glider.Lib Glider.Lib.Threads State

-- A call of `prepare_build` has put the success on its stream.
def Reported (w : World) (id : ℕ) : Prop :=
  ∃ t req output, (t, Event.begins (Call.prepareBuild req)) ∈ w.history ∧
    ⟨.success, output, some id⟩ ∈ w.shared.streams t

-- The entries that are too many are of finished builds.
def PrunesFinished (w : World) : Step → Prop
  | .acts t _ => w.asks t = some .pruneKernelStatuses →
      ∀ entry ∈ w.shared.buildStatuses.take (w.shared.buildStatuses.length - maxBuildHistory),
        entry.lifecycle = .finished
  | _ => True

instance : ∀ w i, Decidable (PrunesFinished w i)
  | w, .acts t _ => inferInstanceAs (Decidable (w.asks t = some .pruneKernelStatuses →
      ∀ entry ∈ w.shared.buildStatuses.take (w.shared.buildStatuses.length - maxBuildHistory),
        entry.lifecycle = .finished))
  | _, .begins _ | _, .ends _ | _, .hangsUp _ => .isTrue trivial

structure Kept (service : BuildService) (w : World) : Prop where
  listed : ∀ t spec id, stageOf service w t = some (.prepare (.listed spec id)) →
    id ∈ finishedIds w.history ∨ ∃ entry ∈ w.shared.buildStatuses, entry.buildId = id
  finished : ∀ entry ∈ w.shared.buildStatuses, entry.lifecycle = .finished →
    entry.buildId ∈ finishedIds w.history

section Steps

variable {service : BuildService} {w w' : World}

theorem finishedIds_cons {id : ℕ} {event : ℕ × Event Call Op Op.Answer Status}
    {history : List (ℕ × Event Call Op Op.Answer Status)} (h : id ∈ finishedIds history) :
    id ∈ finishedIds (event :: history) := by
  rw [finishedIds, List.filterMap_cons]
  split
  · exact h
  · exact List.mem_cons_of_mem _ h

-- What makes an entry finished is in the history.
theorem Changed.finishes {op : Op} {e e' : PerBuildIdStatus} (h : Changed op e e')
    (hfinished : e'.lifecycle = .finished) (t : ℕ) (answer : op.Answer)
    (history : List (ℕ × Event Call Op Op.Answer Status)) :
    e.lifecycle = .finished ∨ e'.buildId ∈ finishedIds ((t, .answers op answer) :: history) := by
  cases h with
  | same h =>
    subst h
    exact .inl hfinished
  | claimed hop hprepared h =>
    subst h
    cases hfinished
  | marked success hop h | finished hop h =>
    subst hop h
    exact .inr (List.mem_cons_self ..)

theorem listed_of_next {m : Stage} {op : Op} {answer : op.Answer} {spec : CommandSpec} {id : ℕ}
    (hpush : ∀ entry, op ≠ .pushStatus entry)
    (h : next m op answer = .prepare (.listed spec id)) : m = .prepare (.listed spec id) := by
  cases m with
  | prepare stage =>
    simp only [next, Stage.prepare.injEq] at h ⊢
    unfold nextPrepare at h
    split at h
    case h_4 => exact absurd rfl (hpush _)
    case h_5 => exact h
    all_goals cases h
  | _ => cases h

section Answers

variable {t : ℕ} {op : Op} {i : Choice} {answer : op.Answer} {m : Stage} {shared : State}
  {p : Option (Build Unit)}

theorem listed_of_answers (hstage : stageOf service w t = some m)
    (hpush : ∀ entry, op ≠ .pushStatus entry) {u : ℕ} {spec : CommandSpec} {id : ℕ}
    (h : stageOf service (w.record t (.answers op answer) p shared) u =
      some (.prepare (.listed spec id))) :
    stageOf service w u = some (.prepare (.listed spec id)) := by
  by_cases hu : u = t
  · subst hu
    rw [stageOf, Discipline.stage_answers hstage, Option.some.injEq] at h
    rw [hstage, listed_of_next hpush h]
  · rw [stageOf, Discipline.stage_record_of_ne hu] at h
    exact h

theorem Kept.push (h : Kept service w) {entry : PerBuildIdStatus} {a : Unit}
    {spec : CommandSpec} (hstage : stageOf service w t = some (.prepare (.known spec entry.buildId)))
    (hprepared : entry.lifecycle = .prepared)
    (hstatuses : shared.buildStatuses = w.shared.buildStatuses ++ [entry]) :
    Kept service (w.record t (.answers (.pushStatus entry) a) p shared) where
  listed u spec' id hlisted := by
    have hmem : entry ∈ shared.buildStatuses := by
      rw [hstatuses]
      exact List.mem_append_right _ (List.mem_singleton_self _)
    by_cases hu : u = t
    · subst hu
      rw [stageOf, Discipline.stage_answers hstage] at hlisted
      cases hlisted
      exact .inr ⟨entry, hmem, rfl⟩
    · rw [stageOf, Discipline.stage_record_of_ne hu] at hlisted
      refine (h.listed u spec' id hlisted).imp finishedIds_cons ?_
      rintro ⟨e, he, hid⟩
      exact ⟨e, hstatuses ▸ List.mem_append_left _ he, hid⟩
  finished e he hfinished := by
    have he : e ∈ w.shared.buildStatuses ++ [entry] := hstatuses ▸ he
    obtain he | he := List.mem_append.mp he
    · exact finishedIds_cons (h.finished e he hfinished)
    · obtain rfl := List.mem_singleton.mp he
      rw [hprepared] at hfinished
      cases hfinished

theorem Kept.answers (h : Kept service w) (hsound : (ledger service w).Sound)
    (hstage : stageOf service w t = some m) (hallows : Allows service m op)
    (hacts : Acts service w.shared t op i shared (some answer))
    (hprune : op = .pruneKernelStatuses →
      ∀ entry ∈ w.shared.buildStatuses.take (w.shared.buildStatuses.length - maxBuildHistory),
        entry.lifecycle = .finished) :
    Kept service (w.record t (.answers op answer) p shared) := by
  have hstatuses := buildStatuses_of_acts hacts
  by_cases hpush : ∃ entry, op = .pushStatus entry
  · obtain ⟨entry, rfl⟩ := hpush
    obtain ⟨hprepared, spec, rfl⟩ := hallows
    exact h.push hstage hprepared hstatuses
  rw [not_exists] at hpush
  constructor
  · intro u spec id hlisted
    obtain hfinished | ⟨e, he, hid⟩ := h.listed u spec id (listed_of_answers hstage hpush hlisted)
    · exact .inl (finishedIds_cons hfinished)
    · by_cases hop : op = .pruneKernelStatuses
      · subst hop
        obtain hmem | hdropped := mem_pruned_or he
        · exact .inr ⟨e, hstatuses ▸ hmem, hid⟩
        · have hfinished := h.finished e he (hprune rfl e hdropped)
          rw [hid] at hfinished
          exact .inl (finishedIds_cons hfinished)
      · obtain ⟨e', he', hchanged⟩ := changed_to_mem hsound.statuses_nodup hpush hop he
        exact .inr ⟨e', hstatuses ▸ he', hchanged.buildId.trans hid⟩
  · intro e' he' hfinished
    have he' : e' ∈ onStatuses op w.shared.buildStatuses := hstatuses ▸ he'
    obtain ⟨e, he, hchanged⟩ := changed_of_mem hsound.statuses_nodup hpush he'
    obtain hfinished | hin := hchanged.finishes hfinished t answer w.history
    · rw [hchanged.buildId]
      exact finishedIds_cons (h.finished e he hfinished)
    · exact hin

end Answers

theorem Kept.keep (h : Kept service w) (hstatuses : w'.shared.buildStatuses = w.shared.buildStatuses)
    (hstages : ∀ u spec id, stageOf service w' u = some (.prepare (.listed spec id)) →
      stageOf service w u = some (.prepare (.listed spec id)))
    (hfinished : finishedIds w'.history = finishedIds w.history) : Kept service w' := by
  constructor
  · intro u spec id hlisted
    rw [hfinished, hstatuses]
    exact h.listed u spec id (hstages u spec id hlisted)
  · rw [hfinished, hstatuses]
    exact h.finished

-- One step of the service, when a prune drops only what is finished.
theorem Kept.of_moves {i : Step} (h : Kept service w) (hsound : (ledger service w).Sound)
    (hguard : PrunesFinished w i) (hm : Moves service w i w') : Kept service w' := by
  cases hm with
  | answers hstage hallows hact hrunning =>
    refine h.answers hsound hstage hallows (acts_of_act hact) ?_
    rintro rfl
    exact hguard (asks_of_running hrunning)
  | waits hstage hallows hact hrunning =>
    exact h.keep (outside_of_waits (acts_of_act hact)).buildStatuses (fun _ _ _ => id) rfl
  | ends hstage hpost =>
    exact h.keep rfl (fun u _ _ hu => (Discipline.stage_ends ..).symm.trans hu) rfl
  | hangsUp hstage hhangs hrunning =>
    obtain ⟨-, rfl⟩ := hangsUp_eq_some hhangs
    exact h.keep rfl (fun u _ _ hu => (Discipline.stage_hangsUp ..).symm.trans hu) rfl
  | begins hbegins =>
    rename_i call shared
    obtain ⟨spawned, interrupted, rfl⟩ := begins_eq_some hbegins
    refine h.keep rfl (fun u spec id hu => ?_) rfl
    by_cases hstarted : u = w.started
    · subst hstarted
      rw [stageOf, Discipline.stage_begun] at hu
      cases call <;> cases hu
    · rw [stageOf, Discipline.stage_begun_of_ne hstarted] at hu
      exact hu

theorem Kept.initial : Kept service World.initial :=
  ⟨fun _ _ _ h => (nomatch h), fun _ h => (nomatch h)⟩

end Steps

section Streams

variable {service : BuildService} {w w' : World}

-- The success of a `prepare_build` is put on its stream when the build is listed.
def Spoken (service : BuildService) (w : World) : Prop :=
  ∀ t p status, stageOf service w t = some (.prepare p) → status ∈ w.shared.streams t →
    status.status = .success → ∃ spec id, p = .listed spec id ∧ status.buildId = some id

theorem Puts.of_allows {s : State} {t : ℕ} {op : Op} {i : Choice} {status : BuildStatus}
    {p : PrepareStage} (h : Puts s t op i status) (hallows : Allows service (.prepare p) op)
    (hsuccess : status.status = .success) :
    ∃ spec id, p = .listed spec id ∧ status.buildId = some id := by
  cases h with
  | reports henv =>
    cases p with
    | listed spec id => exact ⟨spec, id, rfl, hallows.2⟩
    | _ => exact absurd hsuccess hallows.1
  | prints | cancelled => cases hsuccess

theorem Spoken.of_moves {i : Step} (h : Spoken service w) (hs : Orderly service w)
    (hm : Moves service w i w') : Spoken service w' := by
  intro t p status hstage hmem hsuccess
  -- The stage that the thread comes from.
  have hlisted {p' : PrepareStage} (hold : stageOf service w t = some (.prepare p')) :
      ∃ spec id, p' = .listed spec id ∧ status.buildId = some id := by
    obtain hmem | ⟨m, op, c, -, hstage', hallows, -, hputs⟩ := mem_streams_of_moves hm hmem
    · exact h t p' status hold hmem hsuccess
    · obtain rfl := Option.some.inj (hold.symm.trans hstage')
      exact hputs.of_allows hallows hsuccess
  cases came_prepare hm hstage with
  | began hi ht =>
    subst ht
    obtain hmem | ⟨m, op, c, -, hstage', -⟩ := mem_streams_of_moves hm hmem
    · rw [hs.silent _ le_rfl] at hmem
      cases hmem
    · exact absurd (hs.follows.stage_lt hstage') (Nat.lt_irrefl _)
  | stayed hold => exact hlisted hold
  | went hi hold hallows hacts hasks hgoes hhistory =>
    rename_i p' op answer c
    obtain ⟨spec, id, rfl, hid⟩ := hlisted hold
    exact ⟨spec, id, hgoes.trans (next_listed op answer), hid⟩

theorem Spoken.initial : Spoken service World.initial := fun _ _ _ h => (nomatch h)

end Streams

section Registry

variable {service : BuildService} {w : World} {steps : List Step}

-- What the registry has of a build, and what its calls are told.
structure Remembered (s : State) (id : ℕ) : Prop where
  entry : (s.buildStatuses.filter (·.buildId = id)).length = 1
  context : (s.contexts.filter (·.id = id)).length = 1
  valid : s.isValidBuildId id = true
  found : (s.context id).isSome = true
  claimable : s.claimPreparedBuild id ≠ .error (noBuildFound id)

theorem remembered_of_mem (hnodup : (w.shared.buildStatuses.map (·.buildId)).Nodup)
    (hcontexts : (w.shared.contexts.map (·.id)).Nodup) {id : ℕ}
    (hentry : ∃ entry ∈ w.shared.buildStatuses, entry.buildId = id)
    (hcontext : ∃ context ∈ w.shared.contexts, context.id = id) : Remembered w.shared id where
  entry := length_filter_key hnodup hentry
  context := length_filter_key hcontexts hcontext
  valid := by
    obtain ⟨entry, hmem, hid⟩ := hentry
    exact List.any_eq_true.mpr ⟨entry, hmem, decide_eq_true hid⟩
  found := by
    obtain ⟨context, hmem, hid⟩ := hcontext
    exact List.find?_isSome.mpr ⟨context, hmem, decide_eq_true hid⟩
  claimable := by
    obtain ⟨entry, hmem, hid⟩ := hentry
    have hstatus : w.shared.status id = some entry := (find?_key_eq_some hnodup).mpr ⟨hmem, hid⟩
    unfold State.claimPreparedBuild
    rw [hstatus]
    dsimp only
    split
    · intro heq
      simp only [noBuildFound, notFound, Except.error.injEq, Status.mk.injEq] at heq
      cases heq.1
    · nofun

-- As long as a prune drops only what is finished, an unfinished build stays in the registry.
theorem unfinished_remembered
    (hg : Transition.Guarded (step service) PrunesFinished World.initial steps)
    (hp : Transition.path (step service) World.initial steps = some w) :
    (issuedIds w.history).Nodup ∧
      ∀ id, Reported w id → id ∉ finishedIds w.history → Remembered w.shared id := by
  have horderly := orderly_of_path Orderly.initial hp
  have hgood : Kept service w ∧ Spoken service w := by
    refine invariant_of_path (fun w => Kept service w ∧ Spoken service w) ?_ Orderly.initial
      ⟨Kept.initial, Spoken.initial⟩ hg hp
    rintro u i u' hu ⟨hkept, hspoken⟩ hguard hm
    exact ⟨hkept.of_moves hu.sound hguard hm, hspoken.of_moves hu hm⟩
  refine ⟨horderly.sound.issued_nodup, ?_⟩
  rintro id ⟨t, req, output, hbegins, hmem⟩ hunfinished
  obtain ⟨m, hstage, hhas⟩ := horderly.recalls t _ hbegins
  cases m with
  | prepare p =>
    obtain ⟨spec, id', rfl, hid⟩ := hgood.2 t p _ hstage hmem rfl
    obtain rfl : id = id' := Option.some.inj hid
    have hlisted : (ledger service w).stages t = some (.listed spec id) :=
      stages_eq_some.mpr ⟨hstage, rfl⟩
    have hentry := (hgood.1.listed t spec id hstage).resolve_left hunfinished
    have hkey := horderly.sound.known_context spec id ⟨t, .inr hlisted⟩
    obtain ⟨context, hcontext, hkey⟩ := List.mem_map.mp hkey
    exact remembered_of_mem horderly.sound.statuses_nodup horderly.contexts_nodup hentry
      ⟨context, hcontext, (Prod.mk.inj hkey).1⟩
  | _ => exact hhas.elim

-- The registry after as many builds have been prepared, one after the other. Those of `done` are
-- finished.
structure Filled (done : List ℕ) (n : ℕ) (w : World) : Prop where
  lastId : w.shared.lastId = n
  ids : w.shared.buildStatuses.map (·.buildId) = (List.range' 1 n).drop (n - maxBuildHistory)
  marked : ∀ entry ∈ w.shared.buildStatuses, entry.buildId ∈ done → entry.lifecycle = .finished
  unlocked : w.shared.contextsLocked = false
  processes : ∀ t, w.started ≤ t → w.shared.processes t = none
  reported : ∀ id, 1 ≤ id → id ≤ n → id ∉ done → Reported w id
  finished : finishedIds w.history = done
  issued : ∀ id ∈ done, id ≤ n

theorem drop_pruned {n : ℕ} {ids : List ℕ}
    (h : ids = (List.range' 1 n).drop (n - maxBuildHistory)) :
    (ids ++ [n + 1]).drop ((ids ++ [n + 1]).length - maxBuildHistory) =
      (List.range' 1 (n + 1)).drop (n + 1 - maxBuildHistory) := by
  have hle : n - maxBuildHistory ≤ (List.range' 1 n).length := by
    rw [List.length_range']
    exact Nat.sub_le ..
  have happend : ids ++ [n + 1] = (List.range' 1 (n + 1)).drop (n - maxBuildHistory) := by
    rw [h, List.range'_1_concat, Nat.add_comm 1 n, List.drop_append_of_le_length hle]
  have hcount : n - maxBuildHistory + (n + 1 - (n - maxBuildHistory) - maxBuildHistory) =
      n + 1 - maxBuildHistory := by
    omega
  rw [happend, List.length_drop, List.length_range', List.drop_drop, hcount]

-- One more prepare, from its begin to its end.
theorem Filled.next {done : List ℕ} {n : ℕ} {w' : World} {req : BuildPrepareRequest}
    {event : Event Call Op Op.Answer Status} (hw : Filled done n w)
    (hstarted : w'.started = w.started + 1)
    (hregisters : Registers w.started
      (w.shared.spawn w.started, (w.started, .begins (.prepareBuild req)) :: w.history)
      (w'.shared, w'.history))
    (hevent : finishedIds [(w.started, event)] = []) :
    Filled done (n + 1) (w'.record w.started event none w'.shared) where
  lastId := hregisters.lastId.trans (congrArg (· + 1) hw.lastId)
  ids := by
    have hids : w'.shared.buildStatuses.map (·.buildId) =
        (pruned w.shared.listed).map (·.buildId) := congrArg (List.map _) hregisters.buildStatuses
    have hlast : w.shared.lastId = n := hw.lastId
    unfold pruned State.listed at hids
    rw [List.map_drop, List.map_append, List.map_singleton, hlast] at hids
    refine hids.trans ?_
    rw [← drop_pruned hw.ids]
    simp only [List.length_append, List.length_map, List.length_singleton]
  marked entry hmem hdone := by
    have hmem : entry ∈ pruned w.shared.listed :=
      (congrArg (entry ∈ ·) hregisters.buildStatuses).mp hmem
    have hlisted : entry ∈ w.shared.listed := (pruned_sublist _).mem hmem
    obtain hold | hnew := List.mem_append.mp hlisted
    · exact hw.marked entry hold hdone
    · obtain rfl := List.mem_singleton.mp hnew
      rw [hw.lastId] at hdone
      exact absurd (hw.issued _ hdone) (Nat.not_succ_le_self n)
  unlocked := hregisters.contextsLocked
  processes t ht := by
    have ht : w.started + 1 ≤ t := hstarted ▸ ht
    exact (hregisters.processes t (by omega)).trans (hw.processes t (by omega))
  reported id hpos hle hdone := by
    by_cases hid : id = n + 1
    · subst hid
      obtain ⟨output, houtput⟩ := hregisters.success
      have hlast : (w.shared.spawn w.started).lastId = n := hw.lastId
      rw [hlast] at houtput
      exact ⟨w.started, req, output,
        List.mem_cons_of_mem _ (hregisters.history (List.mem_cons_self ..)), houtput⟩
    · obtain ⟨t, req', output, hbegins, hmem⟩ := hw.reported id hpos (by omega) hdone
      exact ⟨t, req', output, List.mem_cons_of_mem _
        (hregisters.history (List.mem_cons_of_mem _ hbegins)), hregisters.streams t hmem⟩
  finished := by
    have hold : finishedIds w'.history = done := hregisters.finished.trans hw.finished
    have hcons : finishedIds ((w.started, event) :: w'.history) =
        finishedIds [(w.started, event)] ++ finishedIds w'.history := by
      rw [finishedIds, finishedIds, finishedIds, ← List.filterMap_append, List.singleton_append]
    exact hcons.trans (by rw [hevent, hold, List.nil_append])
  issued id hid := (hw.issued id hid).trans (Nat.le_succ n)

section Prepares

variable {fits : List PerBuildIdStatus → Prop} {done : List ℕ} {req : BuildPrepareRequest}
  {config : KernelConfig} {toolchain : Toolchain} {env env' : Environment}

-- One call more, which begins, runs on its own, and ends.
theorem Filled.exists_next (h : Smooth service req config toolchain env)
    (henv : env'.connected = true) {n : ℕ} (hn : n + 1 < 2 ^ 31) (hw : Filled done n w)
    (hfits : fits w.shared.listed) :
    ∃ steps w', Transition.path (step service) w steps = some w' ∧
      Transition.Guarded (step service) (Met (AtPrune fits)) w steps ∧
      Filled done (n + 1) w' := by
  let w₁ : World := w.begun (.prepareBuild req) (service.program (.prepareBuild req))
    (w.shared.spawn w.started)
  have hbegins : step service w (.begins (.prepareBuild req)) = some w₁ := rfl
  obtain ⟨s, hruns, hregisters⟩ := completes_prepareBuild (t := w.started) h henv
    (w₁.shared, w₁.history) (hw.processes _ le_rfl) hw.unlocked (hw.lastId ▸ hn) hfits
  obtain ⟨steps, w₂, hpath, hmet, hstarted, hshared, hhistory, hrunning⟩ :=
    hruns.exists_path rfl (Function.update_self ..)
  have hends : step service w₂ (.ends w.started) =
      some (w₂.record w.started (.ends (.ok ())) none w₂.shared) := by
    simp only [step, Threads.step, hrunning]
    rfl
  refine ⟨.begins (.prepareBuild req) :: (steps ++ [.ends w.started]), _,
    Transition.path_cons_eq_some.mpr ⟨w₁, hbegins, Transition.path_append_eq_some.mpr ⟨w₂, hpath,
      Transition.path_cons_eq_some.mpr ⟨_, hends, rfl⟩⟩⟩, ?_, ?_⟩
  · refine (Transition.guarded_cons hbegins).mpr ⟨trivial,
      (Transition.guarded_append hpath).mpr ⟨hmet, ?_⟩⟩
    exact (Transition.guarded_cons hends).mpr ⟨trivial, trivial⟩
  · obtain rfl : (w₂.shared, w₂.history) = s := Prod.ext hshared hhistory
    exact hw.next hstarted hregisters rfl

theorem Filled.exists_more (h : Smooth service req config toolchain env)
    (henv : env'.connected = true) {n : ℕ} (hw : Filled done n w) {k : ℕ} (hle : n ≤ k)
    (hk : k < 2 ^ 31) (hfits : ∀ m w', m < k → Filled done m w' → fits w'.shared.listed) :
    ∃ steps w', Transition.path (step service) w steps = some w' ∧
      Transition.Guarded (step service) (Met (AtPrune fits)) w steps ∧ Filled done k w' := by
  induction k, hle using Nat.le_induction with
  | base => exact ⟨[], w, rfl, trivial, hw⟩
  | succ k hle ih =>
    obtain ⟨steps, w₁, hpath, hmet, hw₁⟩ :=
      ih (Nat.lt_of_succ_lt hk) fun m w' hm => hfits m w' (Nat.lt_succ_of_lt hm)
    obtain ⟨steps', w₂, hpath', hmet', hw₂⟩ :=
      hw₁.exists_next h henv hk (hfits k w₁ (Nat.lt_succ_self k) hw₁)
    exact ⟨steps ++ steps', w₂, Transition.path_append_eq_some.mpr ⟨w₁, hpath, hpath'⟩,
      (Transition.guarded_append hpath).mpr ⟨hmet, hmet'⟩, hw₂⟩

end Prepares

theorem Filled.initial : Filled [] 0 World.initial where
  lastId := rfl
  ids := rfl
  marked := fun _ h => (nomatch h)
  unlocked := rfl
  processes := fun _ _ => rfl
  reported := fun _ _ _ _ => by omega
  finished := rfl
  issued := fun _ h => (nomatch h)

theorem Filled.not_listed {done : List ℕ} (hw : Filled done (maxBuildHistory + 1) w) :
    ∀ entry ∈ w.shared.buildStatuses, entry.buildId ≠ 1 := by
  intro entry hmem hid
  have hin : 1 ∈ w.shared.buildStatuses.map (·.buildId) := hid ▸ List.mem_map_of_mem hmem
  rw [hw.ids, Nat.add_sub_cancel_left, List.drop_range', List.mem_range'_1] at hin
  exact absurd hin.1 (by decide)

-- A prune drops only what is finished.
def DropsFinished (statuses : List PerBuildIdStatus) : Prop :=
  ∀ entry ∈ statuses.take (statuses.length - maxBuildHistory), entry.lifecycle = .finished

-- Only the first entry can be too many before the last of the prepares, and it is finished.
theorem Filled.drops_finished {m : ℕ} (hw : Filled [1] m w) (hm : m ≤ maxBuildHistory) :
    DropsFinished w.shared.listed := by
  have hids : w.shared.buildStatuses.map (·.buildId) = List.range' 1 m := by
    rw [hw.ids, Nat.sub_eq_zero_of_le hm, List.drop_zero]
  have hlength : w.shared.buildStatuses.length = m := by
    simpa using congrArg List.length hids
  intro entry hmem
  rw [State.listed, List.length_append, hlength, List.length_singleton] at hmem
  obtain hlt | rfl := Nat.lt_or_eq_of_le hm
  · rw [Nat.sub_eq_zero_of_le hlt] at hmem
    cases hmem
  · rw [Nat.add_sub_cancel_left, List.take_append_of_le_length (hlength ▸ by decide)] at hmem
    have hid : entry.buildId ∈ (List.range' 1 maxBuildHistory).take 1 := by
      rw [← hids, ← List.map_take]
      exact List.mem_map_of_mem hmem
    exact hw.marked entry (List.mem_of_mem_take hmem) hid

-- A thread that has not begun has no command.
theorem idle_of_path (hp : Transition.path (step service) World.initial steps = some w) :
    ∀ t, w.started ≤ t → w.shared.processes t = none := by
  have hboth : Orderly service w ∧ ∀ t, w.started ≤ t → w.shared.processes t = none := by
    refine Transition.path_invariant_of_step (fun w => Orderly service w ∧
      ∀ t, w.started ≤ t → w.shared.processes t = none) ?_ ⟨.initial, fun _ _ => rfl⟩ hp
    rintro u i u' ⟨hu, hidle⟩ hstep
    refine ⟨hu.of_step hstep, fun t ht => ?_⟩
    have hm := Discipline.moves_of_step hu.follows hstep
    have hprocess := hidle t ((started_le_of_moves hm).trans ht)
    cases hm with
    | answers hstage _ hact | waits hstage _ hact =>
      have hlt := hu.follows.stage_lt hstage
      exact (processes_of_acts (acts_of_act hact) (hlt.trans_le ht).ne').trans hprocess
    | begins hbegins =>
      obtain ⟨spawned, interrupted, rfl⟩ := begins_eq_some hbegins
      exact hprocess
    | ends => exact hprocess
    | hangsUp _ hhangs =>
      obtain ⟨-, rfl⟩ := hangsUp_eq_some hhangs
      exact hprocess
  exact hboth.2

-- One build has failed before the others are prepared.
theorem filled_failing :
    ∃ w, Transition.path (step sampleService) World.initial (preparing 0 "a10" ++ failing 1 1) =
      some w ∧ Filled [1] 1 w := by
  obtain ⟨w, hpath, hlast, hstatuses, hunlocked, hfinished⟩ :=
    Transition.exists_path (step sampleService) World.initial (preparing 0 "a10" ++ failing 1 1)
      (fun w => w.shared.lastId = 1 ∧ w.shared.buildStatuses = [⟨1, .finished, false⟩] ∧
        w.shared.contextsLocked = false ∧ finishedIds w.history = [1]) (by decide +kernel)
  refine ⟨w, hpath, hlast, congrArg _ hstatuses, ?_, hunlocked, idle_of_path hpath, ?_,
    hfinished, ?_⟩
  · intro entry hmem _
    rw [hstatuses, List.mem_singleton] at hmem
    rw [hmem]
  · intro id hpos hle hdone
    exact absurd (List.mem_singleton.mpr (Nat.le_antisymm hle hpos)) hdone
  · exact fun id hid => (List.mem_singleton.mp hid).le

theorem unfinished_remembered_dropping : ∃ steps w,
    Transition.path (step sampleService) World.initial steps = some w ∧
      w.shared.isValidBuildId 1 = false ∧
      ∀ id, 2 ≤ id → id ≤ maxBuildHistory + 1 → Remembered w.shared id := by
  obtain ⟨w, hpath, hw⟩ := filled_failing
  have hfits (m : ℕ) (u : World) (hm : m < maxBuildHistory + 1) (hu : Filled [1] m u) :
      DropsFinished u.shared.listed := hu.drops_finished (Nat.le_of_lt_succ hm)
  obtain ⟨steps, w', hpath', hmet, hw'⟩ := hw.exists_more smooth_machine
    (rfl : (machine true).connected = true) (by decide) (by decide) hfits
  have hguard : Transition.Guarded (step sampleService) PrunesFinished w steps := by
    refine hmet.mono fun u i hmet => ?_
    cases i with
    | acts t i => exact hmet .pruneKernelStatuses
    | _ => trivial
  have hrun := Transition.path_append_eq_some.mpr ⟨w, hpath, hpath'⟩
  refine ⟨_, w', hrun, ?_, fun id htwo hle => ?_⟩
  · simpa [State.isValidBuildId] using hw'.not_listed
  · have hdone : id ∉ [1] := fun h => by
      obtain rfl := List.mem_singleton.mp h
      omega
    have hsteps := (Transition.guarded_append hpath).mpr ⟨by decide +kernel, hguard⟩
    exact (unfinished_remembered hsteps hrun).2 id (hw'.reported id (by omega) hle hdone)
      (hw'.finished ▸ hdone)

-- One prepare too many, and the registry has lost a build that is still prepared.
theorem prepared_forgotten : ∃ steps w,
    Transition.path (step sampleService) World.initial steps = some w ∧ Reported w 1 ∧
      1 ∉ finishedIds w.history ∧ w.shared.isValidBuildId 1 = false ∧
      w.shared.claimPreparedBuild 1 = .error (noBuildFound 1) := by
  have hmore : ∃ steps w, Transition.path (step sampleService) World.initial steps = some w ∧
      Transition.Guarded (step sampleService) (Met (AtPrune fun _ => True)) World.initial steps ∧
      Filled [] (maxBuildHistory + 1) w :=
    Filled.initial.exists_more smooth_machine (rfl : (machine true).connected = true)
      (Nat.zero_le _) (by decide) fun _ _ _ _ => trivial
  obtain ⟨steps, w, hpath, -, hw⟩ := hmore
  refine ⟨steps, w, hpath, hw.reported 1 le_rfl (by decide) List.not_mem_nil, ?_, ?_, ?_⟩
  · rw [hw.finished]
    exact List.not_mem_nil
  · simpa [State.isValidBuildId] using hw.not_listed
  · have hstatus : w.shared.status 1 = none := find?_key_eq_none.mpr hw.not_listed
    rw [State.claimPreparedBuild, hstatus]

end Registry

end Glider.KernelBuild

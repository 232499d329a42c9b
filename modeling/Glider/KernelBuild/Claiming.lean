import Glider.KernelBuild.Registry

namespace Glider.KernelBuild

open Glider.Lib Glider.Lib.Threads State

abbrev claimedBy (service : BuildService) (w : World) : ℕ → Option ℕ :=
  (discipline service).view Stage.claimed w

-- The builds that calls of `do_build` have made their own, newest first.
def claimedIds (history : List (ℕ × Event Call Op Op.Answer Status)) : List ℕ :=
  history.filterMap fun
    | (_, .answers (.claimPreparedBuild id) (.ok _)) => some id
    | _ => none

-- Call `t` of `do_build` has claimed the build.
def Claimed (w : World) (t id : ℕ) : Prop :=
  (t, Event.answers (.claimPreparedBuild id) (Except.ok ())) ∈ w.history

section Turns

variable {service : BuildService} {w w' : World} {i : Step}

theorem claimedIds_cons_of_ne (t : ℕ) {op : Op} (hop : ∀ id, op ≠ .claimPreparedBuild id)
    (answer : op.Answer) (history : List (ℕ × Event Call Op Op.Answer Status)) :
    claimedIds ((t, .answers op answer) :: history) = claimedIds history := by
  refine List.filterMap_cons_none ?_
  cases op with
  | claimPreparedBuild id => exact absurd rfl (hop id)
  | _ => rfl

theorem claimed_eq_some {m : Stage} {id : ℕ} :
    m.claimed = some id ↔ ∃ stage, m = .build id stage ∧ stage.claims = true := by
  cases m with
  | build id' stage =>
    simp only [Stage.claimed, Option.ite_none_right_eq_some, Option.some.injEq,
      Stage.build.injEq]
    constructor
    · rintro ⟨hclaims, rfl⟩
      exact ⟨stage, ⟨rfl, rfl⟩, hclaims⟩
    · rintro ⟨_, ⟨rfl, rfl⟩, hclaims⟩
      exact ⟨hclaims, rfl⟩
  | _ => simp [Stage.claimed]

theorem claimedBy_eq_some {t id : ℕ} : claimedBy service w t = some id ↔
    ∃ stage, stageOf service w t = some (.build id stage) ∧ stage.claims = true := by
  refine Option.bind_eq_some_iff.trans ?_
  simp only [claimed_eq_some]
  constructor
  · rintro ⟨_, hstage, stage, rfl, hclaims⟩
    exact ⟨stage, hstage, hclaims⟩
  · rintro ⟨stage, hstage, hclaims⟩
    exact ⟨_, hstage, stage, rfl, hclaims⟩

theorem BuildGoes.claims_of {m m' : BuildStage} {op : Op} {answer : op.Answer}
    (h : BuildGoes m op answer m') (hclaims : m.claims = true) : m'.claims = true := by
  by_cases hop : ∃ id, op = .claimPreparedBuild id
  · obtain ⟨id, rfl⟩ := hop
    cases h with
    | stays => exact hclaims
    | _ => cases hclaims
  · rw [not_exists] at hop
    exact (h.claims_eq hop).trans hclaims

theorem Claimed.claimedBy {t id : ℕ} (h : Claimed w t id) (hs : Orderly service w) :
    claimedBy service w t = some id := by
  obtain ⟨m, hstage, htells⟩ := hs.recalls t _ h
  exact Option.bind_eq_some_iff.mpr ⟨m, hstage, htells⟩

-- Where an entry comes from when nothing is claimed.
inductive Entered (service : BuildService) (w : World) (e' : PerBuildIdStatus) : Prop where
  | aged {e : PerBuildIdStatus} (he : e ∈ w.shared.buildStatuses) (hid : e'.buildId = e.buildId)
      (h : e'.lifecycle = e.lifecycle ∨ e'.lifecycle = .finished)
  | pushed {t : ℕ} {spec : CommandSpec} (hprepared : e'.lifecycle = .prepared)
      (h : stageOf service w t = some (.prepare (.known spec e'.buildId)))

-- What a step does to the claims and to the entries.
inductive Turns (service : BuildService) (w : World) (i : Step) (w' : World) : Prop where
  | claims {t : ℕ} {c : Choice} {entry : PerBuildIdStatus} (hi : i = .acts t c)
      (hasks : w.asks t = some (.claimPreparedBuild entry.buildId))
      (hfree : claimedBy service w t = none)
      (hclaimed : claimedBy service w' =
        Function.update (claimedBy service w) t (some entry.buildId))
      (hentry : entry ∈ w.shared.buildStatuses) (hprepared : entry.lifecycle = .prepared)
      (hstatuses : w'.shared.buildStatuses = w.shared.buildStatuses.map fun e =>
        if e.buildId = entry.buildId then State.run e else e)
      (hids : claimedIds w'.history = entry.buildId :: claimedIds w.history)
  | keeps (hclaimed : claimedBy service w' = claimedBy service w)
      (hentered : ∀ e' ∈ w'.shared.buildStatuses, Entered service w e')
      (hids : claimedIds w'.history = claimedIds w.history)

theorem entered_of_same (h : w'.shared.buildStatuses = w.shared.buildStatuses) :
    ∀ e' ∈ w'.shared.buildStatuses, Entered service w e' := by
  rw [h]
  exact fun e' he => .aged he rfl (.inl rfl)

theorem Changed.entered {op : Op} {e e' : PerBuildIdStatus} (h : Changed op e e')
    (hop : ∀ id, op ≠ .claimPreparedBuild id) (he : e ∈ w.shared.buildStatuses) :
    Entered service w e' := by
  refine .aged he h.buildId ?_
  cases h with
  | same h => exact .inl (h ▸ rfl)
  | claimed hclaim => exact absurd hclaim (hop _)
  | marked success hop h | finished hop h => exact .inr (h ▸ rfl)

section Answers

variable {t : ℕ} {m : Stage} {shared : State} {p : Option (Build Unit)}

theorem turns_of_claim (hnodup : (w.shared.buildStatuses.map (·.buildId)).Nodup) {id : ℕ}
    {env : Environment} {answer : Except Status Unit} (hstage : stageOf service w t = some m)
    (hallows : Allows service m (.claimPreparedBuild id))
    (hasks : w.asks t = some (.claimPreparedBuild id))
    (h : perform service w.shared t env (.claimPreparedBuild id) = some (shared, answer)) :
    Turns service w (.acts t (.goes env))
      (w.record t (.answers (.claimPreparedBuild id) answer) p shared) := by
  simp only [perform] at h
  split at h
  case h_1 u hok =>
    cases h
    obtain ⟨entry, hentry, hprepared⟩ := claimPreparedBuild_eq_ok hok
    obtain ⟨hmem, rfl⟩ := (find?_key_eq_some hnodup).mp hentry
    refine .claims (t := t) rfl hasks ?_ ?_ hmem hprepared (changeFirst_eq_map hnodup) rfl
    · exact (congrArg (·.bind Stage.claimed) hstage).trans
        (claimed_claim hallows (.ok ())).1
    · refine (Discipline.view_answers hstage ..).trans (congrArg _ ?_)
      exact (claimed_claim hallows (.ok ())).2
  case h_2 e herror =>
    cases h
    refine .keeps (Discipline.view_eq_of_answers hstage ?_ ..) (entered_of_same rfl) rfl
    obtain ⟨hfree, hnext⟩ := claimed_claim hallows (.error e)
    exact hnext.trans hfree.symm

theorem turns_of_answers (hnodup : (w.shared.buildStatuses.map (·.buildId)).Nodup) {op : Op}
    {c : Choice} {answer : op.Answer} (hstage : stageOf service w t = some m)
    (hallows : Allows service m op) (hasks : w.asks t = some op)
    (hacts : Acts service w.shared t op c shared (some answer)) :
    Turns service w (.acts t c) (w.record t (.answers op answer) p shared) := by
  by_cases hclaim : ∃ id, op = .claimPreparedBuild id
  · obtain ⟨id, rfl⟩ := hclaim
    cases hacts with
    | performs h => exact turns_of_claim hnodup hstage hallows hasks h
  rw [not_exists] at hclaim
  refine .keeps (Discipline.view_eq_of_answers hstage (claimed_next answer hclaim) ..) ?_
    (claimedIds_cons_of_ne t hclaim answer _)
  have hstatuses := buildStatuses_of_acts hacts
  intro e' he'
  have he' : e' ∈ onStatuses op w.shared.buildStatuses := hstatuses ▸ he'
  by_cases hpush : ∃ entry, op = .pushStatus entry
  · obtain ⟨entry, rfl⟩ := hpush
    obtain ⟨hprepared, spec, rfl⟩ := hallows
    obtain he' | he' := List.mem_append.mp he'
    · exact .aged he' rfl (.inl rfl)
    · obtain rfl := List.mem_singleton.mp he'
      exact .pushed hprepared hstage
  · rw [not_exists] at hpush
    obtain ⟨e, he, hchanged⟩ := changed_of_mem hnodup hpush he'
    exact hchanged.entered hclaim he

end Answers

theorem claimed_start (call : Call) : call.start.claimed = none := by
  cases call <;> rfl

theorem turns_of_moves (hs : Orderly service w) (hm : Moves service w i w') :
    Turns service w i w' := by
  cases hm with
  | answers hstage hallows hact hrunning =>
    exact turns_of_answers hs.sound.statuses_nodup hstage hallows (asks_of_running hrunning)
      (acts_of_act hact)
  | waits hstage hallows hact hrunning =>
    have houtside := outside_of_waits (acts_of_act hact)
    exact .keeps rfl (entered_of_same houtside.buildStatuses) rfl
  | ends hstage hpost => exact .keeps (Discipline.view_ends ..) (entered_of_same rfl) rfl
  | hangsUp hstage hhangs hrunning =>
    obtain ⟨-, rfl⟩ := hangsUp_eq_some hhangs
    exact .keeps (Discipline.view_hangsUp ..) (entered_of_same rfl) rfl
  | begins hbegins =>
    obtain ⟨spawned, interrupted, rfl⟩ := begins_eq_some hbegins
    exact .keeps (Discipline.view_begun hs.follows (claimed_start _) ..) (entered_of_same rfl) rfl

end Turns

def dropped (s : State) : List PerBuildIdStatus :=
  s.buildStatuses.take (s.buildStatuses.length - maxBuildHistory)

def Listed (service : BuildService) (w : World) (id : ℕ) : Prop :=
  ∃ t spec, stageOf service w t = some (.prepare (.listed spec id))

-- Each build has one owner at most, and it is the owner that takes it from prepared to running.
structure Claims (service : BuildService) (w : World) : Prop where
  unique : ∀ t u id, claimedBy service w t = some id → claimedBy service w u = some id → t = u
  listed : ∀ t id, claimedBy service w t = some id → Listed service w id
  started : ∀ t id, claimedBy service w t = some id → ∀ entry ∈ w.shared.buildStatuses,
    entry.buildId = id → entry.lifecycle ≠ .prepared
  running : ∀ entry ∈ w.shared.buildStatuses, entry.lifecycle = .running →
    ∃ t, claimedBy service w t = some entry.buildId
  owner : ∀ id ∈ claimedIds w.history, ∃ t, claimedBy service w t = some id
  nodup : (claimedIds w.history).Nodup

section Claims

variable {service : BuildService} {w w' : World} {i : Step}

theorem Listed.of_moves {id : ℕ} (h : Listed service w id) (hs : Orderly service w)
    (hm : Moves service w i w') : Listed service w' id := by
  obtain ⟨t, spec, hstage⟩ := h
  obtain hsame | ⟨op, answer, -, hnext⟩ := Discipline.stage_of_moves hs.follows hm hstage
  · exact ⟨t, spec, hsame⟩
  · exact ⟨t, spec, hnext.trans (congrArg (some ∘ Stage.prepare) (next_listed op answer))⟩

-- A build that is listed is not put into the list again.
theorem Entered.of_listed {e' : PerBuildIdStatus} (h : Entered service w e')
    (hs : Orderly service w) (hlisted : Listed service w e'.buildId) :
    ∃ e ∈ w.shared.buildStatuses, e'.buildId = e.buildId ∧
      (e'.lifecycle = e.lifecycle ∨ e'.lifecycle = .finished) := by
  cases h with
  | aged he hid h => exact ⟨_, he, hid, h⟩
  | pushed hprepared hknown =>
    obtain ⟨u, spec, hstage⟩ := hlisted
    have ht := stages_eq_some.mpr ⟨hknown, rfl⟩
    have hu := stages_eq_some.mpr ⟨hstage, rfl⟩
    obtain rfl := hs.sound.unique _ _ _ _ _ ht hu rfl rfl
    cases ht.symm.trans hu

theorem claimed_update {t u : ℕ} {id id' : ℕ}
    (h : Function.update (claimedBy service w) t (some id) u = some id') :
    u = t ∧ id = id' ∨ u ≠ t ∧ claimedBy service w u = some id' := by
  by_cases hu : u = t
  · subst hu
    rw [Function.update_self] at h
    exact .inl ⟨rfl, Option.some.inj h⟩
  · rw [Function.update_of_ne hu] at h
    exact .inr ⟨hu, h⟩

theorem Claims.of_moves (h : Claims service w) (hs : Orderly service w)
    (hm : Moves service w i w') : Claims service w' := by
  cases turns_of_moves hs hm with
  | keeps hclaimed hentered hids =>
    refine ⟨?_, ?_, ?_, ?_, ?_, ?_⟩
    · rw [hclaimed]
      exact h.unique
    · rw [hclaimed]
      exact fun t id ht => (h.listed t id ht).of_moves hs hm
    · rw [hclaimed]
      rintro t id ht e' he' rfl hprepared
      obtain ⟨e, he, hid, hage⟩ := (hentered e' he').of_listed hs (h.listed t _ ht)
      obtain hage | hage := hage
      · exact h.started t _ ht e he hid.symm (hage.symm.trans hprepared)
      · cases hage.symm.trans hprepared
    · rw [hclaimed]
      intro e' he' hrunning
      cases hentered e' he' with
      | aged he hid hage =>
        rw [hid]
        obtain hage | hage := hage
        · exact h.running _ he (hage.symm.trans hrunning)
        · cases hage.symm.trans hrunning
      | pushed hprepared hknown => cases hprepared.symm.trans hrunning
    · rw [hclaimed, hids]
      exact h.owner
    · rw [hids]
      exact h.nodup
  | claims hi hasks hfree hclaimed hentry hprepared hstatuses hids =>
    rename_i t c entry
    -- Whoever had claimed the build would have taken it from prepared to running.
    have hnew : ∀ u, claimedBy service w u ≠ some entry.buildId :=
      fun u hu => h.started u _ hu entry hentry rfl hprepared
    have hlisted : Listed service w entry.buildId := by
      obtain ⟨u, spec, hu⟩ := hs.sound.entry_listed _ (List.mem_map_of_mem hentry)
      exact ⟨u, spec, (stages_eq_some.mp hu).1⟩
    refine ⟨?_, ?_, ?_, ?_, ?_, ?_⟩
    · rw [hclaimed]
      intro u v id hu hv
      obtain ⟨hut, rfl⟩ | ⟨-, hold⟩ := claimed_update hu
      · obtain ⟨hvt, -⟩ | ⟨-, hold⟩ := claimed_update hv
        · exact hut.trans hvt.symm
        · exact absurd hold (hnew v)
      · obtain ⟨-, rfl⟩ | ⟨-, hold'⟩ := claimed_update hv
        · exact absurd hold (hnew u)
        · exact h.unique u v id hold hold'
    · rw [hclaimed]
      intro u id hu
      obtain ⟨-, rfl⟩ | ⟨-, hu⟩ := claimed_update hu
      · exact hlisted.of_moves hs hm
      · exact (h.listed u id hu).of_moves hs hm
    · rw [hclaimed, hstatuses]
      rintro u id hu e' he' rfl hlife
      obtain ⟨e, he, rfl⟩ := List.mem_map.mp he'
      by_cases hid : e.buildId = entry.buildId
      · rw [if_pos hid] at hlife
        cases hlife
      · rw [if_neg hid] at hu hlife
        obtain ⟨-, heq⟩ | ⟨-, hu⟩ := claimed_update hu
        · exact hid heq.symm
        · exact h.started u _ hu e he rfl hlife
    · rw [hclaimed, hstatuses]
      intro e' he' hrunning
      obtain ⟨e, he, rfl⟩ := List.mem_map.mp he'
      by_cases hid : e.buildId = entry.buildId
      · refine ⟨t, ?_⟩
        rw [if_pos hid, Function.update_self]
        exact congrArg some hid.symm
      · rw [if_neg hid] at hrunning ⊢
        obtain ⟨u, hu⟩ := h.running e he hrunning
        refine ⟨u, ?_⟩
        rw [Function.update_of_ne, hu]
        rintro rfl
        cases hfree.symm.trans hu
    · rw [hclaimed, hids]
      intro id hid
      obtain rfl | hid := List.mem_cons.mp hid
      · exact ⟨t, Function.update_self ..⟩
      · obtain ⟨u, hu⟩ := h.owner id hid
        refine ⟨u, ?_⟩
        rw [Function.update_of_ne, hu]
        rintro rfl
        cases hfree.symm.trans hu
    · rw [hids, List.nodup_cons]
      refine ⟨fun hmem => ?_, h.nodup⟩
      obtain ⟨u, hu⟩ := h.owner _ hmem
      exact hnew u hu

theorem Claims.initial : Claims service World.initial where
  unique _ _ _ h := nomatch h
  listed _ _ h := nomatch h
  started _ _ h := nomatch h
  running _ h := nomatch h
  owner _ h := nomatch h
  nodup := List.nodup_nil

theorem finished_of_change {l : List PerBuildIdStatus} {id : ℕ}
    {change : PerBuildIdStatus → PerBuildIdStatus} (hnodup : (l.map (·.buildId)).Nodup)
    (hchange : ∀ e, (change e).lifecycle = .finished) :
    ∀ e ∈ changeStatus id change l, e.buildId = id → e.lifecycle = .finished := by
  rw [changeStatus, changeFirst_eq_map hnodup]
  intro e' he' hid
  obtain ⟨e, he, rfl⟩ := List.mem_map.mp he'
  by_cases heq : e.buildId = id
  · rw [if_pos heq]
    exact hchange e
  · rw [if_neg heq] at hid
    exact absurd hid heq

-- Nothing is left to be done of a build.
structure Settled (service : BuildService) (w : World) (id : ℕ) : Prop where
  listed : Listed service w id
  finished : ∀ entry ∈ w.shared.buildStatuses, entry.buildId = id → entry.lifecycle = .finished

theorem Settled.of_moves {id : ℕ} (h : Settled service w id) (hs : Orderly service w)
    (hm : Moves service w i w') : Settled service w' id := by
  refine ⟨h.listed.of_moves hs hm, ?_⟩
  cases turns_of_moves hs hm with
  | keeps hclaimed hentered hids =>
    rintro e' he' rfl
    obtain ⟨e, he, hid, hage⟩ := (hentered e' he').of_listed hs h.listed
    obtain hage | hage := hage
    · exact hage.trans (h.finished e he hid.symm)
    · exact hage
  | claims hi hasks hfree hclaimed hentry hprepared hstatuses hids =>
    rename_i t c entry
    rw [hstatuses]
    rintro e' he' rfl
    obtain ⟨e, he, rfl⟩ := List.mem_map.mp he'
    by_cases hid : e.buildId = entry.buildId
    · rw [if_pos hid] at h
      cases (h.finished entry hentry hid.symm).symm.trans hprepared
    · rw [if_neg hid] at h ⊢
      exact h.finished e he rfl

-- An entry is there until a prune drops it.
theorem entry_of_moves {id : ℕ} (hs : Orderly service w) (hm : Moves service w i w')
    (hkeep : ∀ t c, i = .acts t c → w.asks t = some .pruneKernelStatuses →
      ∀ entry ∈ dropped w.shared, entry.buildId ≠ id)
    (h : ∃ entry ∈ w.shared.buildStatuses, entry.buildId = id) :
    ∃ entry ∈ w'.shared.buildStatuses, entry.buildId = id := by
  obtain ⟨e, he, hid⟩ := h
  cases hm with
  | answers hstage hallows hact hrunning =>
    rename_i t c op next shared answer m
    have hstatuses : shared.buildStatuses = onStatuses op w.shared.buildStatuses :=
      buildStatuses_of_acts (acts_of_act hact)
    by_cases hpush : ∃ entry, op = .pushStatus entry
    · obtain ⟨entry, rfl⟩ := hpush
      exact ⟨e, hstatuses ▸ List.mem_append_left _ he, hid⟩
    rw [not_exists] at hpush
    by_cases hop : op = .pruneKernelStatuses
    · subst hop
      obtain hmem | hdropped := mem_pruned_or he
      · exact ⟨e, hstatuses ▸ hmem, hid⟩
      · exact absurd hid (hkeep t c rfl (asks_of_running hrunning) e hdropped)
    · obtain ⟨e', he', hchanged⟩ := changed_to_mem hs.sound.statuses_nodup hpush hop he
      exact ⟨e', hstatuses ▸ he', hchanged.buildId.trans hid⟩
  | waits hstage hallows hact hrunning =>
    exact ⟨e, (outside_of_waits (acts_of_act hact)).buildStatuses ▸ he, hid⟩
  | ends hstage hpost => exact ⟨e, he, hid⟩
  | hangsUp hstage hhangs hrunning =>
    obtain ⟨-, rfl⟩ := hangsUp_eq_some hhangs
    exact ⟨e, he, hid⟩
  | begins hbegins =>
    obtain ⟨spawned, interrupted, rfl⟩ := begins_eq_some hbegins
    exact ⟨e, he, hid⟩

end Claims

end Glider.KernelBuild

import Glider.KernelBuild.Signals

namespace Glider.KernelBuild

open Glider.Lib Glider.Lib.Threads State

-- The kill channel that Ctrl-C is about to send to.
def Stage.sending : Stage → Option ℕ
  | .interrupt (.looked (some (_, kill))) => some kill
  | _ => none

-- Ctrl-C has looked for the active build, and has not requested the shutdown yet.
def Stage.interrupts : Stage → Bool
  | .interrupt (.looked _) | .interrupt (.told _ _) => true
  | _ => false

def interrupting (service : BuildService) (w : World) : Bool :=
  (List.range w.started).any fun u => (stageOf service w u).any Stage.interrupts

def sentTo (service : BuildService) (w : World) (kill : ℕ) : Bool :=
  (List.range w.started).any fun u => (stageOf service w u).bind Stage.sending == some kill

def reaches (service : BuildService) (w : World) (t : ℕ) : Op → Choice → Bool
  | .lockContexts, _ => w.shared.buildStatuses.all fun e => e.lifecycle != .running ||
      w.shared.active.any fun (id, kill) => id == e.buildId && (w.shared.channels kill).isSome
  | .claimPreparedBuild id, _ =>
    !(w.shared.claimPreparedBuild id).toOption.isSome || !interrupting service w
  | .runProcess _, .process (.exits _) => !sentTo service w t
  | _, _ => true

-- Ctrl-C finds every running build in the first context that has a sender, and nothing comes
-- between its look and the message.
def ReachesRunning (service : BuildService) (w : World) : Step → Prop
  | .acts t i => ∀ op ∈ w.asks t, reaches service w t op i = true
  | .hangsUp t => sentTo service w t = false
  | _ => True

instance (service : BuildService) : ∀ w i, Decidable (ReachesRunning service w i)
  | w, .acts t i => inferInstanceAs (Decidable (∀ op ∈ w.asks t, reaches service w t op i = true))
  | w, .hangsUp t => inferInstanceAs (Decidable (sentTo service w t = false))
  | _, .begins _ | _, .ends _ => .isTrue trivial

def Running (w : World) (id : ℕ) : Prop :=
  ∃ entry ∈ w.shared.buildStatuses, entry.buildId = id ∧ entry.lifecycle = .running

-- What Ctrl-C knows of the running builds: there is one at most, and it has been told.
structure Reached (service : BuildService) (w : World) : Prop where
  signals : Signals service w
  looked : ∀ t active, stageOf service w t = some (.interrupt (.looked active)) →
    ∀ id, Running w id → ∃ kill, active = some (id, kill) ∧
      claimedBy service w kill = some id ∧ (w.shared.channels kill).isSome = true
  told : ∀ t active delivered, stageOf service w t = some (.interrupt (.told active delivered)) →
    ∀ id, Running w id → ∃ kill, claimedBy service w kill = some id ∧
      (t, Event.answers (.sendKill kill) true) ∈ w.history

section Steps

variable {service : BuildService} {w w' : World} {i : Step}

theorem claimedBy_of_moves (hs : Orderly service w) (hm : Moves service w i w') {t id : ℕ}
    (h : claimedBy service w t = some id) : claimedBy service w' t = some id := by
  cases turns_of_moves hs hm with
  | keeps hclaimed hentered hids => rw [hclaimed, h]
  | claims hi hasks hfree hclaimed hentry hprepared hstatuses hids =>
    rw [hclaimed, Function.update_of_ne, h]
    rintro rfl
    cases hfree.symm.trans h

-- A build is running when it was, or when it is claimed.
theorem running_of_moves (hs : Orderly service w) (hm : Moves service w i w') {id : ℕ}
    (h : Running w' id) : Running w id ∨ ∃ t c, i = .acts t c ∧
      w.asks t = some (.claimPreparedBuild id) ∧
      (w.shared.claimPreparedBuild id).toOption.isSome = true := by
  obtain ⟨e', he', rfl, hrunning⟩ := h
  cases turns_of_moves hs hm with
  | keeps hclaimed hentered hids =>
    cases hentered e' he' with
    | aged he hid hage =>
      obtain hage | hage := hage
      · exact .inl ⟨_, he, hid.symm, hage.symm.trans hrunning⟩
      · cases hage.symm.trans hrunning
    | pushed hprepared hstage => cases hprepared.symm.trans hrunning
  | claims hi hasks hfree hclaimed hentry hprepared hstatuses hids =>
    rename_i t c entry
    rw [hstatuses] at he'
    obtain ⟨e, he, rfl⟩ := List.mem_map.mp he'
    by_cases hid : e.buildId = entry.buildId
    · rw [if_pos hid]
      refine .inr ⟨t, c, hi, hid ▸ hasks, ?_⟩
      have hstatus : w.shared.status e.buildId = some entry :=
        (find?_key_eq_some hs.sound.statuses_nodup).mpr ⟨hentry, hid.symm⟩
      simp only [State.run, State.claimPreparedBuild, hstatus, hprepared]
      rfl
    · rw [if_neg hid] at hrunning ⊢
      exact .inl ⟨e, he, rfl, hrunning⟩

theorem channels_of_moves (hm : Moves service w i w') {kill : ℕ}
    (h : (w.shared.channels kill).isSome = true) : (w'.shared.channels kill).isSome = true ∨
      (∃ spec result, i = .acts kill (.process (.exits result)) ∧
        w.asks kill = some (.runProcess spec)) ∨ i = .hangsUp kill := by
  cases hm with
  | answers hstage hallows hact hrunning =>
    refine (channels_of_acts (acts_of_act hact) h).imp_right ?_
    rintro ⟨rfl, spec, result, rfl, rfl⟩
    exact .inl ⟨spec, result, rfl, asks_of_running hrunning⟩
  | waits hstage hallows hact hrunning =>
    refine (channels_of_acts (acts_of_act hact) h).imp_right ?_
    rintro ⟨rfl, spec, result, rfl, rfl⟩
    obtain ⟨next, hrunning⟩ := hrunning
    exact .inl ⟨spec, result, rfl, asks_of_running hrunning⟩
  | ends hstage hpost => exact .inl h
  | hangsUp hstage hhangs hrunning =>
    rename_i t m shared
    obtain ⟨-, rfl⟩ := hangsUp_eq_some hhangs
    by_cases ht : kill = t
    · exact .inr (.inr (ht ▸ rfl))
    · refine .inl ?_
      have hsame : (w.shared.setChannel t none).channels kill = w.shared.channels kill :=
        Function.update_of_ne ht ..
      exact hsame ▸ h
  | begins hbegins =>
    obtain ⟨spawned, interrupted, rfl⟩ := begins_eq_some hbegins
    exact .inl h

theorem interrupting_of_stage (hs : Orderly service w) {t : ℕ} {m : Stage}
    (hstage : stageOf service w t = some m) (h : m.interrupts = true) :
    interrupting service w = true :=
  List.any_eq_true.mpr ⟨t, List.mem_range.mpr (hs.follows.stage_lt hstage), by rw [hstage]; exact h⟩

theorem sentTo_of_stage (hs : Orderly service w) {t id kill : ℕ}
    (hstage : stageOf service w t = some (.interrupt (.looked (some (id, kill))))) :
    sentTo service w kill = true :=
  List.any_eq_true.mpr ⟨t, List.mem_range.mpr (hs.follows.stage_lt hstage),
    by rw [hstage]; exact beq_self_eq_true _⟩

-- No build begins to run while Ctrl-C is at work.
theorem running_before (hs : Orderly service w) (hguard : ReachesRunning service w i)
    (hm : Moves service w i w') {t id : ℕ} {m : Stage} (hstage : stageOf service w t = some m)
    (hinterrupts : m.interrupts = true) (h : Running w' id) : Running w id := by
  obtain hold | ⟨u, c, rfl, hasks, hclaims⟩ := running_of_moves hs hm h
  · exact hold
  · have hreaches := hguard _ hasks
    simp only [reaches, hclaims, interrupting_of_stage hs hstage hinterrupts] at hreaches
    cases hreaches

theorem Reached.of_looked (h : Reached service w) (hs : Orderly service w)
    (hguard : ReachesRunning service w i) (hm : Moves service w i w') {t : ℕ}
    {active : Option (ℕ × ℕ)} (hstage : stageOf service w t = some (.interrupt (.looked active)))
    {id : ℕ} (hrunning : Running w' id) : ∃ kill, active = some (id, kill) ∧
      claimedBy service w' kill = some id ∧ (w'.shared.channels kill).isSome = true := by
  obtain ⟨kill, rfl, hclaimed, hlive⟩ :=
    h.looked t active hstage id (running_before hs hguard hm hstage rfl hrunning)
  refine ⟨kill, rfl, claimedBy_of_moves hs hm hclaimed, ?_⟩
  have hsent := sentTo_of_stage hs hstage
  obtain hlive | ⟨spec, result, rfl, hasks⟩ | rfl := channels_of_moves hm hlive
  · exact hlive
  · have hreaches := hguard _ hasks
    simp only [reaches, hsent] at hreaches
    cases hreaches
  · cases hsent.symm.trans hguard

-- The look of Ctrl-C.
theorem Signals.of_look (h : Signals service w) {t : ℕ} {c : Choice} {active : Option (ℕ × ℕ)}
    (hreaches : reaches service w t .lockContexts c = true)
    (hacts : Acts service w.shared t .lockContexts c w'.shared (some active)) {id : ℕ}
    (hrunning : Running w' id) : ∃ kill, active = some (id, kill) ∧
      claimedBy service w kill = some id ∧ (w'.shared.channels kill).isSome = true := by
  cases hacts with
  | performs hperform =>
    obtain ⟨-, heq⟩ := Option.ite_none_left_eq_some.mp hperform
    obtain ⟨hshared, rfl⟩ := Prod.mk.inj (Option.some.inj heq)
    obtain ⟨entry, hentry, rfl, hlife⟩ := hrunning
    rw [← hshared] at hentry ⊢
    have hentry' := List.all_eq_true.mp hreaches entry hentry
    simp only [hlife, bne_self_eq_false, Bool.false_or, Option.any_eq_true, Bool.and_eq_true,
      beq_iff_eq] at hentry'
    obtain ⟨⟨id, kill⟩, hactive, rfl, hlive⟩ := hentry'
    refine ⟨kill, hactive, ?_, hlive⟩
    obtain ⟨context, hmem, hsignal⟩ := List.exists_of_findSome?_eq_some hactive
    obtain ⟨k, hkill, heq⟩ := Option.map_eq_some_iff.mp hsignal
    obtain ⟨hid, rfl⟩ := Prod.mk.inj heq
    obtain ⟨m, hstage, harmed⟩ := h.sender context hmem k hkill
    rw [← hid]
    exact claimedBy_eq_some.mpr ⟨m, hstage, BuildStage.claims_of_armed harmed⟩

theorem Reached.of_moves (h : Reached service w) (hs : Orderly service w)
    (hguard : ReachesRunning service w i) (hm : Moves service w i w') : Reached service w' := by
  refine ⟨h.signals.of_moves hs hm, fun t active hstage id hrunning => ?_,
    fun t active delivered hstage id hrunning => ?_⟩
  · cases came_interrupt hm hstage with
    | stayed hold => exact h.of_looked hs hguard hm hold hrunning
    | went hi hold hallows hacts hasks hgoes hhistory =>
      subst hi
      unfold nextInterrupt at hgoes
      split at hgoes
      case h_1 =>
        cases hgoes
        obtain ⟨kill, hactive, hclaimed, hlive⟩ :=
          h.signals.of_look (hguard _ hasks) hacts hrunning
        exact ⟨kill, hactive, claimedBy_of_moves hs hm hclaimed, hlive⟩
      case h_5 => exact h.of_looked hs hguard hm (hgoes ▸ hold) hrunning
      all_goals cases hgoes
  · have hbefore (hold : stageOf service w t = some (.interrupt (.told active delivered))) :
        ∃ kill, claimedBy service w' kill = some id ∧
          (t, Event.answers (.sendKill kill) true) ∈ w'.history := by
      obtain ⟨kill, hclaimed, hsent⟩ :=
        h.told t active delivered hold id (running_before hs hguard hm hold rfl hrunning)
      exact ⟨kill, claimedBy_of_moves hs hm hclaimed,
        Discipline.history_subset_of_moves hm hsent⟩
    cases came_interrupt hm hstage with
    | stayed hold => exact hbefore hold
    | went hi hold hallows hacts hasks hgoes hhistory =>
      subst hi
      unfold nextInterrupt at hgoes
      split at hgoes
      case h_2 active' kill delivered' =>
        cases hgoes
        obtain ⟨id', heq⟩ | ⟨id', heq⟩ := hallows <;> cases heq
        have hbefore := running_before hs hguard hm hold rfl hrunning
        obtain ⟨kill', heq, hclaimed, hlive⟩ := h.looked t _ hold id hbefore
        cases heq
        refine ⟨kill, claimedBy_of_moves hs hm hclaimed, ?_⟩
        cases hacts with
        | performs hperform =>
          obtain ⟨hnone, -⟩ | ⟨-, -, rfl⟩ := perform_sendKill hperform
          · rw [hnone] at hlive
            cases hlive
          · rw [hhistory]
            exact List.mem_cons_self ..
      case h_5 => exact hbefore (hgoes ▸ hold)
      all_goals cases hgoes

theorem Reached.initial : Reached service World.initial where
  signals := .initial
  looked _ _ h := nomatch h
  told _ _ _ h := nomatch h

-- Whenever Ctrl-C is about to request the shutdown, the call that runs a build has been told.
theorem running_told {steps : List Step}
    (hg : Transition.Guarded (step service) (ReachesRunning service) World.initial steps)
    (hp : Transition.path (step service) World.initial steps = some w) {t : ℕ}
    (hasks : w.asks t = some .requestShutdown) :
    ∀ entry ∈ w.shared.buildStatuses, entry.lifecycle = .running →
      ∃ kill, claimedBy service w kill = some entry.buildId ∧
        (t, Event.answers (.sendKill kill) true) ∈ w.history := by
  have horderly := orderly_of_path Orderly.initial hp
  have hreached := invariant_of_path (Reached service)
    (fun _ _ _ hs h hguard hm => h.of_moves hs hguard hm) Orderly.initial .initial hg hp
  intro entry hentry hlife
  have hrunning : Running w entry.buildId := ⟨entry, hentry, rfl, hlife⟩
  obtain ⟨m, hstage, rfl | ⟨active, delivered, rfl⟩⟩ :=
    Discipline.allows_of_asks horderly.follows hasks
  · obtain ⟨kill, heq, -⟩ := hreached.looked t none hstage _ hrunning
    cases heq
  · exact hreached.told t active delivered hstage _ hrunning

end Steps

section Sample

theorem running_told_alone : ∃ w,
    Transition.path (step sampleService) World.initial (preparing 0 "a10" ++ making 1 1 ++
      .begins .ctrlC :: goes 2 2 (machine true)) = some w ∧
      ∀ entry ∈ w.shared.buildStatuses, entry.lifecycle = .running →
        ∃ kill, claimedBy sampleService w kill = some entry.buildId ∧
          (2, Event.answers (.sendKill kill) true) ∈ w.history := by
  obtain ⟨w, hp, hasks⟩ := Transition.exists_path (step sampleService) World.initial
    (preparing 0 "a10" ++ making 1 1 ++ .begins .ctrlC :: goes 2 2 (machine true))
    (fun w => w.asks 2 = some .requestShutdown) (by decide +kernel)
  exact ⟨w, hp, running_told (by decide +kernel) hp hasks⟩

-- The first build is finished and has left its sender behind: the second one is not told.
theorem running_missed : ∃ w,
    Transition.path (step sampleService) World.initial (preparing 0 "a10" ++ failing 1 1 ++
      preparing 2 "a20" ++ making 3 2 ++ .begins .ctrlC :: goes 4 2 (machine true)) = some w ∧
      w.asks 4 = some .requestShutdown ∧
      (∃ entry ∈ w.shared.buildStatuses, entry.buildId = 2 ∧ entry.lifecycle = .running) ∧
      claimedBy sampleService w 3 = some 2 ∧ w.shared.channels 3 = some false ∧
      (w.shared.processes 3).map (·.phase) = some .running :=
  Transition.exists_path (step sampleService) World.initial _ _ (by decide +kernel)

end Sample

end Glider.KernelBuild

import Glider.KernelBuild.Claiming
import Glider.KernelBuild.Preparing

namespace Glider.KernelBuild

open Glider.Lib Glider.Lib.Threads State
open Glider.RomBuild (Path)

-- What of a context is the same from its begin on.
def BuildContext.base (context : BuildContext) : BuildContext :=
  { context with artifactPath := none, killSignal := none }

namespace BuildStage

def context : BuildStage → Option BuildContext
  | .found context | .claimed context | .channelled context _ | .stored context _
  | .making context _ | .failing context | .made context | .copied context
  | .zipped context _ => some context
  | _ => none

def kill : BuildStage → Option ℕ
  | .channelled _ kill | .stored _ kill | .making _ kill => some kill
  | _ => none

-- The sender of the kill channel is in the context of the build.
def armed : BuildStage → Bool
  | .claimed _ | .channelled _ _ => false
  | m => m.claims

theorem claims_of_armed {m : BuildStage} (h : m.armed = true) : m.claims = true := by
  cases m <;> first | rfl | cases h

end BuildStage

-- The kill channel of a build belongs to the call that has claimed it.
structure Signals (service : BuildService) (w : World) : Prop where
  claims : Claims service w
  own : ∀ t id m kill, stageOf service w t = some (.build id m) → m.kill = some kill → kill = t
  sender : ∀ c ∈ w.shared.contexts, ∀ kill, c.killSignal = some kill →
    ∃ m, stageOf service w kill = some (.build c.id m) ∧ m.armed = true
  armed : ∀ t id m, stageOf service w t = some (.build id m) → m.armed = true →
    ∀ c ∈ w.shared.contexts, c.id = id → c.killSignal = some t
  context : ∀ t id m c, stageOf service w t = some (.build id m) → m.context = some c →
    c.id = id ∧ ∃ c' ∈ w.shared.contexts, c'.base = c.base

section Steps

variable {service : BuildService} {w w' : World} {i : Step}

theorem BuildGoes.armed {m m' : BuildStage} {op : Op} {answer : op.Answer}
    (h : BuildGoes m op answer m') (harmed : m.armed = true) : m'.armed = true := by
  cases h with
  | stays => exact harmed
  | spawns | makes | fails | breaks | logs | marks | copies | miscopies | zips | miszips
  | announces | attaches => rfl
  | _ => cases harmed

theorem armed_of_moves (hs : Orderly service w) (hm : Moves service w i w') {t id : ℕ}
    {m : BuildStage} (hstage : stageOf service w t = some (.build id m)) (h : m.armed = true) :
    ∃ m', stageOf service w' t = some (.build id m') ∧ m'.armed = true := by
  obtain hsame | ⟨op, answer, -, hnext⟩ := Discipline.stage_of_moves hs.follows hm hstage
  · exact ⟨m, hsame, h⟩
  · exact ⟨_, hnext, (goes_nextBuild m op answer).armed h⟩

-- A context is never taken away, and keeps its base.
theorem base_of_moves (hs : Orderly service w) (hm : Moves service w i w') {c : BuildContext}
    (hc : c ∈ w.shared.contexts) : ∃ c' ∈ w'.shared.contexts, c'.base = c.base := by
  cases hm with
  | answers hstage hallows hact hrunning =>
    rename_i t choice op next shared answer m
    have hcontexts : shared.contexts = onContexts op w.shared.contexts :=
      contexts_of_acts (acts_of_act hact)
    obtain ⟨c', hc', haltered⟩ := altered_to_mem op hs.contexts_nodup hc
    refine ⟨c', hcontexts ▸ hc', ?_⟩
    cases haltered with
    | same h => rw [h]
    | stored kill hop h | attached path hop h => rw [h]; rfl
  | waits hstage hallows hact hrunning =>
    exact ⟨c, (outside_of_waits (acts_of_act hact)).contexts ▸ hc, rfl⟩
  | ends hstage hpost => exact ⟨c, hc, rfl⟩
  | hangsUp hstage hhangs hrunning =>
    obtain ⟨-, rfl⟩ := hangsUp_eq_some hhangs
    exact ⟨c, hc, rfl⟩
  | begins hbegins =>
    obtain ⟨spawned, interrupted, rfl⟩ := begins_eq_some hbegins
    exact ⟨c, hc, rfl⟩

theorem Signals.own_of_moves (h : Signals service w) (hm : Moves service w i w') {t id : ℕ}
    {m : BuildStage} {kill : ℕ} (hstage : stageOf service w' t = some (.build id m))
    (hkill : m.kill = some kill) : kill = t := by
  cases came_build hm hstage with
  | began hi ht => cases hkill
  | stayed hold => exact h.own t id m kill hold hkill
  | went hi hold hallows hacts hasks hgoes hhistory =>
    cases hgoes with
    | stays => exact h.own t id m kill hold hkill
    | channels =>
      cases hkill
      cases hacts with
      | performs hperform => exact (Prod.mk.inj (Option.some.inj hperform)).2.symm
    | stores | spawns => exact h.own t id _ kill hold hkill
    | _ => cases hkill

theorem Signals.sender_of_moves (h : Signals service w) (hs : Orderly service w)
    (hm : Moves service w i w') {c : BuildContext} {kill : ℕ} (hc : c ∈ w'.shared.contexts)
    (hkill : c.killSignal = some kill) :
    ∃ m, stageOf service w' kill = some (.build c.id m) ∧ m.armed = true := by
  have hbefore {c₀ : BuildContext} (hc₀ : c₀ ∈ w.shared.contexts) (hid : c.id = c₀.id)
      (hsignal : c₀.killSignal = some kill) :
      ∃ m, stageOf service w' kill = some (.build c.id m) ∧ m.armed = true := by
    obtain ⟨m, hstage, harmed⟩ := h.sender c₀ hc₀ kill hsignal
    rw [hid]
    exact armed_of_moves hs hm hstage harmed
  cases context_of_moves hs hm hc with
  | stayed hold => exact hbefore hold rfl hkill
  | pushed hstage hartifact hnone => cases hnone.symm.trans hkill
  | stored hold hstage hnext heq =>
    subst heq
    cases hkill
    obtain rfl := h.own _ _ _ _ hstage rfl
    exact ⟨_, hnext, rfl⟩
  | attached hold hstage hallows hnext heq =>
    subst heq
    exact hbefore hold rfl hkill

-- A build that is listed is not registered again.
theorem not_issued_of_listed (hs : Orderly service w) {id t : ℕ} {spec : CommandSpec}
    (hlisted : Listed service w id)
    (hstage : stageOf service w t = some (.prepare (.issued spec id))) : False := by
  obtain ⟨u, spec', hu⟩ := hlisted
  have ht := stages_eq_some.mpr ⟨hstage, rfl⟩
  have hu := stages_eq_some.mpr ⟨hu, rfl⟩
  obtain rfl := hs.sound.unique _ _ _ _ _ ht hu rfl rfl
  cases ht.symm.trans hu

theorem Signals.armed_of_moves (h : Signals service w) (hs : Orderly service w)
    (hm : Moves service w i w') {t id : ℕ} {m : BuildStage}
    (hstage : stageOf service w' t = some (.build id m)) (harmed : m.armed = true)
    {c : BuildContext} (hc : c ∈ w'.shared.contexts) (hid : c.id = id) :
    c.killSignal = some t := by
  -- A build whose sender was there before.
  have hbefore {m : BuildStage} (hold : stageOf service w t = some (.build id m))
      (harmed : m.armed = true) : c.killSignal = some t := by
    have hclaimed := claimedBy_eq_some.mpr ⟨m, hold, BuildStage.claims_of_armed harmed⟩
    subst hid
    cases context_of_moves hs hm hc with
    | stayed hc => exact h.armed t _ m hold harmed c hc rfl
    | pushed hissued hartifact hnone =>
      exact (not_issued_of_listed hs (h.claims.listed t _ hclaimed) hissued).elim
    | stored hc hstored hnext heq =>
      subst heq
      have hclaimed' := claimedBy_eq_some.mpr ⟨_, hstored, rfl⟩
      obtain rfl := h.claims.unique _ _ _ hclaimed hclaimed'
      cases (Option.some.inj (hold.symm.trans hstored))
      cases harmed
    | attached hc₀ hattached hallows hnext heq =>
      subst heq
      have hsignal := h.armed t _ m hold harmed _ hc₀ rfl
      exact hsignal
  cases came_build hm hstage with
  | began hi ht => cases harmed
  | stayed hold => exact hbefore hold harmed
  | went hi hold hallows hacts hasks hgoes hhistory =>
    cases hgoes with
    | stores =>
      obtain ⟨context, heq⟩ := hallows
      cases heq
      obtain rfl := h.own t id _ _ hold rfl
      rw [contexts_of_acts hacts, onContexts, changeContext,
        changeFirst_eq_map hs.contexts_nodup] at hc
      obtain ⟨c₀, hc₀, rfl⟩ := List.mem_map.mp hc
      by_cases hid₀ : c₀.id = id
      · rw [if_pos hid₀]
        rfl
      · rw [if_neg hid₀] at hid
        exact absurd hid hid₀
    | stays => exact hbefore hold harmed
    | spawns | makes | fails | breaks | copies | miscopies | zips | miszips | attaches =>
      exact hbefore hold rfl
    | logs hm =>
      obtain rfl | rfl := hm
      · exact hbefore hold rfl
      · exact hbefore hold rfl
    | marks hm =>
      obtain rfl | rfl | ⟨context, rfl⟩ := hm
      · exact hbefore hold rfl
      · exact hbefore hold rfl
      · exact hbefore hold rfl
    | announces hm =>
      obtain ⟨context, rfl, -⟩ | ⟨context, rfl⟩ := hm
      · exact hbefore hold rfl
      · exact hbefore hold rfl
    | _ => cases harmed

theorem Signals.context_of_moves (h : Signals service w) (hs : Orderly service w)
    (hm : Moves service w i w') {t id : ℕ} {m : BuildStage} {c : BuildContext}
    (hstage : stageOf service w' t = some (.build id m)) (hc : m.context = some c) :
    c.id = id ∧ ∃ c' ∈ w'.shared.contexts, c'.base = c.base := by
  have hbefore {m : BuildStage} (hold : stageOf service w t = some (.build id m))
      (hc : m.context = some c) : c.id = id ∧ ∃ c' ∈ w'.shared.contexts, c'.base = c.base := by
    obtain ⟨hid, c₀, hc₀, hbase⟩ := h.context t id m c hold hc
    obtain ⟨c', hc', hbase'⟩ := base_of_moves hs hm hc₀
    exact ⟨hid, c', hc', hbase'.trans hbase⟩
  cases came_build hm hstage with
  | began hi ht => cases hc
  | stayed hold => exact hbefore hold hc
  | went hi hold hallows hacts hasks hgoes hhistory =>
    cases hgoes with
    | finds =>
      cases hc
      obtain heq | heq := hallows <;> cases heq
      cases hacts with
      | performs hperform =>
        obtain ⟨-, hfound⟩ := perform_findContext hperform
        obtain ⟨hmem, hid⟩ := mem_of_context hfound.symm
        obtain ⟨c', hc', hbase⟩ := base_of_moves hs hm hmem
        exact ⟨hid, c', hc', hbase⟩
    | stays => exact hbefore hold hc
    | claims | channels | stores | spawns | makes | fails | copies | zips => exact hbefore hold hc
    | _ => cases hc

theorem Signals.of_moves (h : Signals service w) (hs : Orderly service w)
    (hm : Moves service w i w') : Signals service w' where
  claims := h.claims.of_moves hs hm
  own _ _ _ _ hstage hkill := h.own_of_moves hm hstage hkill
  sender _ hc _ hkill := h.sender_of_moves hs hm hc hkill
  armed _ _ _ hstage harmed _ hc hid := h.armed_of_moves hs hm hstage harmed hc hid
  context _ _ _ _ hstage hc := h.context_of_moves hs hm hstage hc

theorem Signals.initial : Signals service World.initial where
  claims := .initial
  own _ _ _ _ h := nomatch h
  sender _ h := nomatch h
  armed _ _ _ h := nomatch h
  context _ _ _ _ h := nomatch h

theorem signals_of_path {steps : List Step} (hw : Orderly service w) (h : Signals service w)
    (hp : Transition.path (step service) w steps = some w') : Signals service w' := by
  have hboth : Orderly service w' ∧ Signals service w' :=
    Transition.path_invariant_of_step (fun w => Orderly service w ∧ Signals service w)
      (fun _ _ _ ⟨hs, h⟩ hstep => ⟨hs.of_step hstep,
        h.of_moves hs (Discipline.moves_of_step hs.follows hstep)⟩) ⟨hw, h⟩ hp
  exact hboth.2

end Steps

-- A command that was told to stop, or is over.
def State.halted (s : State) (t : ℕ) : Prop :=
  ∃ process, s.processes t = some process ∧ process.phase ≠ .running

section Acts

variable {service : BuildService} {s s' : State} {t : ℕ} {op : Op} {i : Choice}

theorem processes_of_makeWrites {process : Process} {path : RomBuild.Path}
    (h : s.makeWrites service t process path = some s') : s'.processes = s.processes := by
  unfold State.makeWrites at h
  split at h
  case h_1 =>
    cases h
    rfl
  case h_2 =>
    obtain ⟨-, rfl⟩ := Transition.enabled_eq_some h
    rfl

theorem processes_print (spec : CommandSpec) (stderr : Bool) (line : String) (admitted : Bool) :
    (s.print t spec stderr line admitted).processes = s.processes := by
  cases admitted <;> rfl

theorem processes_of_moves {spec : CommandSpec} {i : ProcessStep}
    {answer : Option (Except Status Bool)} (h : ProcessMoves service s t spec i s' answer) {u : ℕ}
    (hu : u ≠ t) : s'.processes u = s.processes u := by
  have hset {f : ℕ → Option Process} {process : Process} :
      Function.update f t (some process) u = f u := Function.update_of_ne hu ..
  cases h with
  | starts => exact hset
  | fails => rfl
  | prints => exact congrFun (processes_print ..) u
  | writes hprocess hphase hwrites => exact congrFun (processes_of_makeWrites hwrites) u
  | receives => exact hset
  | stopped =>
    split
    · exact hset
    · exact hset
  | exits | quits => exact hset

theorem processes_of_acts {answer : Option op.Answer} (h : Acts service s t op i s' answer) {u : ℕ}
    (hu : u ≠ t) : s'.processes u = s.processes u := by
  cases h with
  | performs h => exact congrFun (performed h).processes u
  | reads h => cases h <;> rfl
  | runs h => exact processes_of_moves h hu

theorem halted_of_processMoves {spec : CommandSpec} {i : ProcessStep}
    {answer : Option (Except Status Bool)} (h : ProcessMoves service s t spec i s' answer)
    (hhalted : s.halted t) : s'.halted t := by
  have hset (process : Process) : Function.update s.processes t (some process) t = some process :=
    Function.update_self ..
  obtain ⟨process, hprocess, hphase⟩ := hhalted
  cases h with
  | starts hnone => cases hnone.symm.trans hprocess
  | fails => exact ⟨process, hprocess, hphase⟩
  | prints => exact ⟨process, (congrFun (processes_print ..) t).trans hprocess, hphase⟩
  | writes _ _ hwrites =>
    exact ⟨process, (congrFun (processes_of_makeWrites hwrites) t).trans hprocess, hphase⟩
  | receives hprocess' hrunning =>
    cases hprocess.symm.trans hprocess'
    exact absurd hrunning hphase
  | stopped =>
    split
    · exact ⟨_, hset _, fun h => by cases h⟩
    · exact ⟨_, hset _, fun h => by cases h⟩
  | exits => exact ⟨_, hset _, fun h => by cases h⟩
  | quits => exact ⟨_, hset _, fun h => by cases h⟩

-- Whoever acts, a command that was halted does not run again.
theorem halted_of_acts {answer : Option op.Answer} (h : Acts service s t op i s' answer) {u : ℕ}
    (hhalted : s.halted u) : s'.halted u := by
  cases h with
  | performs h =>
    unfold State.halted
    rw [(performed h).processes]
    exact hhalted
  | reads h => cases h <;> exact hhalted
  | runs h =>
    obtain rfl | hu := eq_or_ne u t
    · exact halted_of_processMoves h hhalted
    · unfold State.halted
      rw [processes_of_moves h hu]
      exact hhalted

-- A command that ends with success was running, and has not been told to stop.
theorem not_halted_of_success {spec : CommandSpec}
    (h : Acts service s t (.runProcess spec) i s' (some (.ok true))) : ¬s.halted t := by
  rintro ⟨process, hprocess, hphase⟩
  cases h with
  | performs h => cases h
  | runs h =>
    cases h with
    | exits hprocess' hrunning =>
      cases hprocess.symm.trans hprocess'
      exact hphase hrunning

end Acts

namespace BuildStage

-- `make` is on its way to a failure, or has come to it.
def falls : BuildStage → Bool
  | .making _ _ | .broken | .failing _ | .logged | .marked false => true
  | _ => false

-- The success of the build is on its stream.
def succeeded : BuildStage → Bool
  | .announced _ | .attached | .marked true => true
  | _ => false

theorem claims_of_falls {m : BuildStage} (h : m.falls = true) : m.claims = true := by
  cases m <;> first | rfl | cases h

theorem not_succeeded_of_falls {m : BuildStage} (h : m.falls = true) : m.succeeded = false := by
  cases m with
  | marked success =>
    cases success with
    | true => cases h
    | false => rfl
  | _ => first | rfl | cases h

end BuildStage

-- A build is recorded once, and what the record says of it is how the call has ended.
def Marked : Event Call Op Op.Answer Status → Stage → Prop
  | .answers (.markBuildFinished id success) _, m => m = .build id (.marked success)
  | _, _ => True

-- What is recorded, and what the client is told, is what the call has come to.
structure Truthful (service : BuildService) (w : World) : Prop where
  marked : Discipline.Recalls (discipline service) Marked w
  told : ∀ t id m, stageOf service w t = some (.build id m) → ∀ status ∈ w.shared.streams t,
    status.status = .success → m.succeeded = true

-- The command of the build was told to stop before it has ended.
structure Killed (service : BuildService) (t id : ℕ) (w : World) : Prop where
  claims : Claims service w
  truthful : Truthful service w
  stage : ∃ m, stageOf service w t = some (.build id m) ∧ m.falls = true
  halted : w.shared.halted t

section Steps

variable {service : BuildService} {w w' : World} {i : Step} {t id : ℕ} {m m' : BuildStage} {op : Op}
  {answer : op.Answer}

theorem BuildGoes.succeeded (h : BuildGoes m op answer m')
    (hallows : Allows service (.build id m) op) (hm : m.succeeded = true) : m'.succeeded = true := by
  cases h with
  | stays => exact hm
  | attaches => rfl
  | marks hstage =>
    obtain ⟨rfl, -⟩ | ⟨rfl, hm'⟩ := hallows
    · rfl
    · obtain hm' | ⟨context, hm'⟩ := hm' <;> cases hm' <;> cases hm
  | logs hstage => obtain rfl | rfl := hstage <;> cases hm
  | announces => rfl
  | _ => cases hm

theorem BuildGoes.falls (h : BuildGoes m op answer m') (hallows : Allows service (.build id m) op)
    (hfails : ∀ context, m' ≠ .made context) (hm : m.falls = true) : m'.falls = true := by
  cases h with
  | stays => exact hm
  | makes => exact absurd rfl (hfails _)
  | fails | breaks | logs => rfl
  | marks hstage =>
    obtain ⟨rfl, hm'⟩ | ⟨rfl, -⟩ := hallows
    · cases hm'
      cases hm
    · rfl
  | announces hstage => obtain ⟨context, rfl, -⟩ | ⟨context, rfl⟩ := hstage <;> cases hm
  | _ => cases hm

theorem marked_lasts (service : BuildService) :
    Discipline.Lasts (discipline service) Marked where
  begins _ := trivial
  answers m op answer hallows := by
    unfold Marked
    split
    · next id success _ h =>
      cases h
      obtain ⟨rfl, rfl⟩ | ⟨rfl, rfl | ⟨context, rfl⟩⟩ := hallows <;> rfl
    · trivial
  ends _ _ _ := trivial
  hangsUp _ := trivial
  goes event m op answer hallows h := by
    unfold Marked at h ⊢
    split
    · subst h
      cases op <;> rfl
    · trivial

theorem Truthful.initial : Truthful service World.initial where
  marked _ _ h := nomatch h
  told _ _ _ h := nomatch h

-- A success is told by a build that has its artifact.
theorem succeeded_of_report {status : BuildStatus} {u : Unit}
    (hallows : Allows service (.build id m) (.report status)) (hsuccess : status.status = .success) :
    (nextBuild m (.report status) u).succeeded = true := by
  obtain ⟨progress, output, buildId⟩ := status
  cases hsuccess
  obtain ⟨context, rfl⟩ | ⟨context, archive, rfl⟩ := hallows.2.1 rfl
  · rfl
  · rfl

theorem Truthful.told_of_moves (h : Truthful service w) (hs : Orderly service w)
    (hm : Moves service w i w') (hstage : stageOf service w' t = some (.build id m))
    {status : BuildStatus} (hmem : status ∈ w'.shared.streams t)
    (hsuccess : status.status = .success) : m.succeeded = true := by
  obtain hold | ⟨m₁, op, c, rfl, hstage₁, hallows, hasks, hputs⟩ := mem_streams_of_moves hm hmem
  · cases came_build hm hstage with
    | began hi ht =>
      rw [hs.silent t ht.ge] at hold
      cases hold
    | stayed hstayed => exact h.told t id m hstayed status hold hsuccess
    | went hi hwent hallows hacts hasks hgoes hhistory =>
      exact hgoes.succeeded hallows (h.told t id _ hwent status hold hsuccess)
  · cases hputs with
    | prints | cancelled => cases hsuccess
    | reports =>
      cases hm with
      | waits _ _ hact =>
        have hacts : Acts service w.shared t _ (.goes _) _ none := acts_of_act hact
        cases hacts
      | answers hstage₂ _ _ hrunning =>
        obtain rfl := Option.some.inj ((asks_of_running hrunning).symm.trans hasks)
        obtain rfl := Option.some.inj (hstage₁.symm.trans hstage₂)
        have hnext := (Discipline.stage_answers hstage₂ ..).symm.trans hstage
        cases m₁ with
        | build id₁ stage =>
          cases hnext
          exact succeeded_of_report hallows hsuccess
        | _ => cases hnext

theorem Truthful.of_moves (h : Truthful service w) (hs : Orderly service w)
    (hm : Moves service w i w') : Truthful service w' where
  marked := h.marked.of_moves (marked_lasts service) hs.follows hm
  told _ _ _ hstage _ hmem hsuccess := h.told_of_moves hs hm hstage hmem hsuccess

theorem Killed.of_moves (h : Killed service t id w) (hs : Orderly service w)
    (hm : Moves service w i w') : Killed service t id w' where
  claims := h.claims.of_moves hs hm
  truthful := h.truthful.of_moves hs hm
  halted := by
    cases hm with
    | answers _ _ hact | waits _ _ hact => exact halted_of_acts (acts_of_act hact) h.halted
    | ends => exact h.halted
    | hangsUp _ hhangs =>
      obtain ⟨-, rfl⟩ := hangsUp_eq_some hhangs
      exact h.halted
    | begins hbegins =>
      obtain ⟨spawned, interrupted, rfl⟩ := begins_eq_some hbegins
      exact h.halted
  stage := by
    obtain ⟨m, hstage, hfalls⟩ := h.stage
    obtain ⟨m', hnext⟩ : ∃ m', stageOf service w' t = some (.build id m') := by
      obtain hsame | ⟨op, answer, -, hnext⟩ := Discipline.stage_of_moves hs.follows hm hstage
      · exact ⟨m, hsame⟩
      · exact ⟨_, hnext⟩
    refine ⟨m', hnext, ?_⟩
    cases came_build hm hnext with
    | began _ ht => exact absurd (hs.follows.stage_lt hstage) (ht ▸ Nat.lt_irrefl _)
    | stayed hold =>
      cases Option.some.inj (hstage.symm.trans hold)
      exact hfalls
    | went hi hold hallows hacts hasks hgoes hhistory =>
      cases Option.some.inj (hstage.symm.trans hold)
      refine hgoes.falls hallows ?_ hfalls
      rintro context rfl
      cases hgoes with
      | stays => cases hfalls
      | makes => exact not_halted_of_success hacts h.halted

theorem truthful_of_path {steps : List Step}
    (hp : Transition.path (step service) World.initial steps = some w) :
    Claims service w ∧ Truthful service w := by
  have hboth := Transition.path_invariant_of_step
    (fun w => Orderly service w ∧ Claims service w ∧ Truthful service w)
    (fun _ _ _ ⟨hs, hclaims, h⟩ hstep =>
      have hm := Discipline.moves_of_step hs.follows hstep
      ⟨hs.of_step hstep, hclaims.of_moves hs hm, h.of_moves hs hm⟩)
    ⟨.initial, .initial, .initial⟩ hp
  exact hboth.2

theorem Killed.of_path {steps : List Step} (hs : Orderly service w) (h : Killed service t id w)
    (hp : Transition.path (step service) w steps = some w') : Killed service t id w' :=
  (Transition.path_invariant_of_step (fun w => Orderly service w ∧ Killed service t id w)
    (fun _ _ _ ⟨hs, h⟩ hstep => ⟨hs.of_step hstep,
      h.of_moves hs (Discipline.moves_of_step hs.follows hstep)⟩) ⟨hs, h⟩ hp).2

theorem Killed.not_marked (h : Killed service t id w) {u : ℕ} :
    (u, Event.answers (.markBuildFinished id true) ()) ∉ w.history := by
  intro hmem
  obtain ⟨m, hstage, hfalls⟩ := h.stage
  obtain ⟨m', hmarked, heq⟩ := h.truthful.marked u _ hmem
  obtain rfl : m' = .build id (.marked true) := heq
  obtain rfl := h.claims.unique t u id
    (claimedBy_eq_some.mpr ⟨m, hstage, BuildStage.claims_of_falls hfalls⟩)
    (claimedBy_eq_some.mpr ⟨_, hmarked, rfl⟩)
  cases Option.some.inj (hstage.symm.trans hmarked)
  cases hfalls

theorem Killed.not_told (h : Killed service t id w) {status : BuildStatus}
    (hmem : status ∈ w.shared.streams t) : status.status ≠ .success := by
  intro hsuccess
  obtain ⟨m, hstage, hfalls⟩ := h.stage
  have htold := h.truthful.told t id m hstage status hmem hsuccess
  rw [BuildStage.not_succeeded_of_falls hfalls] at htold
  cases htold

-- In every run the sender that a context keeps is the one of the call that has claimed the build.
theorem signals_of_run {steps : List Step}
    (hp : Transition.path (step service) World.initial steps = some w) : Signals service w :=
  signals_of_path .initial .initial hp

-- Once `make` has been told to stop, the build stays with its call, its client is never told of a
-- success, and nobody records one.
theorem killed_build_fails {steps rest : List Step} {context : BuildContext} {kill : ℕ}
    {process : Process} (hp : Transition.path (step service) World.initial steps = some w)
    (hstage : stageOf service w t = some (.build id (.making context kill)))
    (hprocess : w.shared.processes t = some process) (hphase : process.phase = .stopping)
    (hrest : Transition.path (step service) w rest = some w') :
    claimedBy service w' t = some id ∧ (∀ status ∈ w'.shared.streams t, status.status ≠ .success) ∧
      ∀ u, (u, Event.answers (.markBuildFinished id true) ()) ∉ w'.history := by
  obtain ⟨hclaims, htruthful⟩ := truthful_of_path hp
  have hkilled : Killed service t id w :=
    ⟨hclaims, htruthful, ⟨_, hstage, rfl⟩, process, hprocess, by rw [hphase]; exact nofun⟩
  have hkilled := hkilled.of_path (orderly_of_path .initial hp) hrest
  obtain ⟨m, hstage, hfalls⟩ := hkilled.stage
  exact ⟨claimedBy_eq_some.mpr ⟨m, hstage, BuildStage.claims_of_falls hfalls⟩,
    fun _ => hkilled.not_told, fun _ => hkilled.not_marked⟩

end Steps

section Sample

theorem signals_of_run_making : ∃ w,
    Transition.path (step sampleService) World.initial (preparing 0 "a10" ++ making 1 1) = some w ∧
      (∃ context ∈ w.shared.contexts, context.killSignal = some 1) ∧ Signals sampleService w := by
  obtain ⟨w, hp, hstored⟩ := Transition.exists_path (step sampleService) World.initial
    (preparing 0 "a10" ++ making 1 1)
    (fun w => ∃ context ∈ w.shared.contexts, context.killSignal = some 1) (by decide +kernel)
  exact ⟨w, hp, hstored, signals_of_run hp⟩

-- `cancel_build` as far as its kill message, which the command then takes.
def stopping : List Step :=
  preparing 0 "a10" ++ making 1 1 ++ .begins (.cancelBuild 1) :: goes 2 4 (machine true) ++
    [.acts 1 (.process .receives)]

def isMaking : Stage → Bool
  | .build 1 (.making _ _) => true
  | _ => false

theorem killed_build_fails_stopping : ∃ w w',
    Transition.path (step sampleService) World.initial stopping = some w ∧
      Transition.path (step sampleService) w ([.acts 1 (.process (.stopped true)),
        .acts 1 (.process (.exits (.ok false)))] ++ goes 1 3 (machine true)) = some w' ∧
      claimedBy sampleService w' 1 = some 1 ∧
      (∀ status ∈ w'.shared.streams 1, status.status ≠ .success) ∧
      ∀ u, (u, Event.answers (.markBuildFinished 1 true) ()) ∉ w'.history := by
  obtain ⟨w, hp, hmaking, hphase, hrest⟩ := Transition.exists_path (step sampleService)
    World.initial stopping
    (fun w => (stageOf sampleService w 1).any isMaking = true ∧
      (w.shared.processes 1).map (·.phase) = some .stopping ∧
      (Transition.path (step sampleService) w ([.acts 1 (.process (.stopped true)),
        .acts 1 (.process (.exits (.ok false)))] ++ goes 1 3 (machine true))).isSome = true)
    (by decide +kernel)
  obtain ⟨w', hrest⟩ := Option.isSome_iff_exists.mp hrest
  obtain ⟨process, hprocess, hphase⟩ := Option.map_eq_some_iff.mp hphase
  obtain ⟨m, hstage, hm⟩ := (Option.any_eq_true ..).mp hmaking
  obtain ⟨context, kill, rfl⟩ : ∃ context kill, m = .build 1 (.making context kill) := by
    unfold isMaking at hm
    split at hm
    · exact ⟨_, _, rfl⟩
    · cases hm
  exact ⟨w, w', hp, hrest, killed_build_fails hp hstage hprocess hphase hrest⟩

end Sample

end Glider.KernelBuild

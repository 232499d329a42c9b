import Glider.KernelBuild.Conduct

namespace Glider.KernelBuild

open Glider.Lib State
open Glider.RomBuild (Path)

def claim (entry : PerBuildIdStatus) : PerBuildIdStatus :=
  if entry.lifecycle = .prepared then State.run entry else entry

-- What an operation does to the contexts and to the statuses.
def onContexts : Op → List BuildContext → List BuildContext
  | .pushContext context, contexts => contexts ++ [context]
  | .storeKillSignal id kill, contexts => changeContext id (store kill) contexts
  | .addArtifactPath id path, contexts => changeContext id (attach path) contexts
  | _, contexts => contexts

def onStatuses : Op → List PerBuildIdStatus → List PerBuildIdStatus
  | .pushStatus entry, statuses => statuses ++ [entry]
  | .pruneKernelStatuses, statuses => pruned statuses
  | .claimPreparedBuild id, statuses => changeStatus id claim statuses
  | .markBuildFinished id success, statuses => changeStatus id (markFinished success) statuses
  | .setFinished id, statuses => changeStatus id finish statuses
  | _, statuses => statuses

-- What a step of a running command can be.
inductive ProcessMoves (service : BuildService) (s : State) (t : ℕ) (spec : CommandSpec) :
    ProcessStep → State → Option (Except Status Bool) → Prop where
  | starts (h : s.processes t = none) :
      ProcessMoves service s t spec .starts (s.startProcess t spec) none
  | fails {e : Status} (h : s.processes t = none) :
      ProcessMoves service s t spec (.exits (.error e)) (s.setChannel t none) (some (.error e))
  | prints {process : Process} {stderr : Bool} {line : String} {admitted : Bool}
      (h : s.processes t = some process)
      (hphase : process.phase = .running ∨ process.phase = .stopping) :
      ProcessMoves service s t spec (.prints stderr line admitted)
        (s.print t process.spec stderr line admitted) none
  | writes {process : Process} {path : Path} {s' : State} (h : s.processes t = some process)
      (hphase : process.phase = .running ∨ process.phase = .stopping)
      (hwrites : s.makeWrites service t process path = some s') :
      ProcessMoves service s t spec (.writes path) s' none
  | receives {process : Process} (h : s.processes t = some process)
      (hphase : process.phase = .running) (hkill : process.spec.killRx = some t)
      (hpending : s.channels t = some true) :
      ProcessMoves service s t spec .receives
        ((s.setProcess t { process with phase := .stopping }).setChannel t (some false)) none
  | stopped {process : Process} {connected : Bool} (h : s.processes t = some process)
      (hphase : process.phase = .stopping) :
      ProcessMoves service s t spec (.stopped connected)
        (if connected then
          (s.setProcess t { process with phase := .stopped }).put t (cancelledStatus process.spec)
        else s.setProcess t { process with phase := .stopped }) none
  | exits {process : Process} {result : Except Status Bool} (h : s.processes t = some process)
      (hphase : process.phase = .running) :
      ProcessMoves service s t spec (.exits result) (s.endProcess t process) (some result)
  | quits {process : Process} (h : s.processes t = some process)
      (hphase : process.phase = .stopped) :
      ProcessMoves service s t spec (.exits (.ok false)) (s.endProcess t process)
        (some (.ok false))

-- What a turn of the loop of `get_artifact` can be.
inductive ReadMoves (s : State) (t : ℕ) (path : Path) : ReadStep → State → Option Unit → Prop where
  | sends {count : ℕ} {replaced : Bool} {bytes : Bytes}
      (h : (if replaced then s.opened t else s.files path) = some bytes) :
      ReadMoves s t path (.reads count replaced true)
        (s.send t (.data ((bytes.drop (s.sent t).length).take (min count bufferSize)))) none
  | ends {count : ℕ} {replaced connected : Bool} :
      ReadMoves s t path (.reads count replaced connected) s (some ())
  | fails {message : String} :
      ReadMoves s t path (.fails message)
        (s.send t (.error ⟨.internal, s!"Failed to read artifact file: {message}"⟩)) (some ())

inductive Acts (service : BuildService) (s : State) (t : ℕ) :
    (op : Op) → Choice → State → Option op.Answer → Prop where
  | performs {env : Environment} {op : Op} {s' : State} {a : op.Answer}
      (h : perform service s t env op = some (s', a)) :
      Acts service s t op (.goes env) s' (some a)
  | runs {spec : CommandSpec} {i : ProcessStep} {s' : State} {a : Option (Except Status Bool)}
      (h : ProcessMoves service s t spec i s' a) :
      Acts service s t (.runProcess spec) (.process i) s' a
  | reads {path : Path} {i : ReadStep} {s' : State} {a : Option Unit}
      (h : ReadMoves s t path i s' a) : Acts service s t (.streamFile path) (.reads i) s' a

section Keys

variable {op : Op}

theorem map_changeContext {β : Type} {f : BuildContext → β} {change : BuildContext → BuildContext}
    (hf : ∀ context, f (change context) = f context) (id : ℕ) (l : List BuildContext) :
    (changeContext id change l).map f = l.map f := map_changeFirst hf l

theorem map_changeStatus {β : Type} {f : PerBuildIdStatus → β}
    {change : PerBuildIdStatus → PerBuildIdStatus} (hf : ∀ entry, f (change entry) = f entry)
    (id : ℕ) (l : List PerBuildIdStatus) : (changeStatus id change l).map f = l.map f :=
  map_changeFirst hf l

theorem keys_onContexts (hop : ∀ context, op ≠ .pushContext context) (l : List BuildContext) :
    (onContexts op l).map (fun c => (c.id, c.workDir)) = l.map fun c => (c.id, c.workDir) := by
  cases op with
  | pushContext context => exact absurd rfl (hop context)
  | storeKillSignal id kill =>
    have hstore (c : BuildContext) :
        ((store kill c).id, (store kill c).workDir) = (c.id, c.workDir) := rfl
    exact map_changeContext hstore id l
  | addArtifactPath id path =>
    have hattach (c : BuildContext) :
        ((attach path c).id, (attach path c).workDir) = (c.id, c.workDir) := rfl
    exact map_changeContext hattach id l
  | _ => rfl

theorem claim_buildId (entry : PerBuildIdStatus) : (claim entry).buildId = entry.buildId := by
  rw [claim]
  split
  · rfl
  · rfl

theorem pruned_sublist (l : List PerBuildIdStatus) : (pruned l).Sublist l := by
  unfold pruned
  exact List.drop_sublist (l.length - maxBuildHistory) l

theorem ids_onStatuses (hop : ∀ entry, op ≠ .pushStatus entry) (l : List PerBuildIdStatus) :
    ((onStatuses op l).map (·.buildId)).Sublist (l.map (·.buildId)) := by
  have hkept {id : ℕ} {change : PerBuildIdStatus → PerBuildIdStatus}
      (hchange : ∀ entry, (change entry).buildId = entry.buildId) :
      ((changeStatus id change l).map (·.buildId)).Sublist (l.map (·.buildId)) := by
    rw [map_changeStatus hchange]
  have hmark (success : Bool) (entry : PerBuildIdStatus) :
      (markFinished success entry).buildId = entry.buildId := rfl
  have hfinish (entry : PerBuildIdStatus) : (finish entry).buildId = entry.buildId := rfl
  cases op with
  | pushStatus entry => exact absurd rfl (hop entry)
  | pruneKernelStatuses => exact (pruned_sublist l).map _
  | claimPreparedBuild id => exact hkept claim_buildId
  | markBuildFinished id success => exact hkept (hmark success)
  | setFinished id => exact hkept hfinish
  | _ => exact .refl _

end Keys

-- What an operation does to one entry.
inductive Changed (op : Op) (e e' : PerBuildIdStatus) : Prop where
  | same (h : e' = e)
  | claimed (hop : op = .claimPreparedBuild e.buildId) (hprepared : e.lifecycle = .prepared)
      (h : e' = State.run e)
  | marked (success : Bool) (hop : op = .markBuildFinished e.buildId success)
      (h : e' = markFinished success e)
  | finished (hop : op = .setFinished e.buildId) (h : e' = finish e)

section Entries

variable {op : Op} {l : List PerBuildIdStatus} {e e' : PerBuildIdStatus}

theorem Changed.buildId (h : Changed op e e') : e'.buildId = e.buildId := by
  cases h with
  | same h => rw [h]
  | claimed hop hprepared h | marked success hop h | finished hop h => rw [h]; rfl

-- One change of the entry with an id, as an operation on it.
theorem changed_of_change {id : ℕ} {change : PerBuildIdStatus → PerBuildIdStatus}
    (hchange : ∀ entry, entry.buildId = id → Changed op entry (change entry))
    (e : PerBuildIdStatus) : Changed op e (if e.buildId = id then change e else e) := by
  split
  case isTrue hid => exact hchange e hid
  case isFalse => exact .same rfl

theorem changed_claim (e : PerBuildIdStatus) :
    Changed (.claimPreparedBuild e.buildId) e (claim e) := by
  unfold claim
  split
  case isTrue hprepared => exact .claimed rfl hprepared rfl
  case isFalse => exact .same rfl

theorem onStatuses_eq_map (hnodup : (l.map (·.buildId)).Nodup)
    (hpush : ∀ entry, op ≠ .pushStatus entry) (hprune : op ≠ .pruneKernelStatuses) :
    ∃ f : PerBuildIdStatus → PerBuildIdStatus, onStatuses op l = l.map f ∧
      ∀ entry, Changed op entry (f entry) := by
  cases op with
  | pushStatus entry => exact absurd rfl (hpush entry)
  | pruneKernelStatuses => exact absurd rfl hprune
  | claimPreparedBuild id =>
    refine ⟨_, changeFirst_eq_map hnodup, changed_of_change ?_⟩
    rintro entry rfl
    exact changed_claim entry
  | markBuildFinished id success =>
    refine ⟨_, changeFirst_eq_map hnodup, changed_of_change ?_⟩
    rintro entry rfl
    exact .marked success rfl rfl
  | setFinished id =>
    refine ⟨_, changeFirst_eq_map hnodup, changed_of_change ?_⟩
    rintro entry rfl
    exact .finished rfl rfl
  | _ => exact ⟨id, (List.map_id l).symm, fun _ => .same rfl⟩

-- Where an entry comes from.
theorem changed_of_mem (hnodup : (l.map (·.buildId)).Nodup)
    (hpush : ∀ entry, op ≠ .pushStatus entry) (he : e' ∈ onStatuses op l) :
    ∃ e ∈ l, Changed op e e' := by
  by_cases hprune : op = .pruneKernelStatuses
  · subst hprune
    exact ⟨e', (pruned_sublist l).subset he, .same rfl⟩
  · obtain ⟨f, hf, hchanged⟩ := onStatuses_eq_map hnodup hpush hprune
    rw [hf] at he
    obtain ⟨e, hmem, rfl⟩ := List.mem_map.mp he
    exact ⟨e, hmem, hchanged e⟩

-- Where an entry goes.
theorem changed_to_mem (hnodup : (l.map (·.buildId)).Nodup)
    (hpush : ∀ entry, op ≠ .pushStatus entry) (hprune : op ≠ .pruneKernelStatuses) (he : e ∈ l) :
    ∃ e' ∈ onStatuses op l, Changed op e e' := by
  obtain ⟨f, hf, hchanged⟩ := onStatuses_eq_map hnodup hpush hprune
  rw [hf]
  exact ⟨f e, List.mem_map_of_mem he, hchanged e⟩

theorem mem_pruned_or (he : e ∈ l) :
    e ∈ pruned l ∨ e ∈ l.take (l.length - maxBuildHistory) := by
  unfold pruned
  rw [← List.take_append_drop (l.length - maxBuildHistory) l, List.mem_append] at he
  exact he.symm

end Entries

-- What an operation does to one context.
inductive Altered (op : Op) (c c' : BuildContext) : Prop where
  | same (h : c' = c)
  | stored (kill : ℕ) (hop : op = .storeKillSignal c.id kill) (h : c' = store kill c)
  | attached (path : Path) (hop : op = .addArtifactPath c.id path) (h : c' = attach path c)

section Contexts

variable {op : Op} {l : List BuildContext} {c c' : BuildContext}

theorem altered_of_change {id : ℕ} {change : BuildContext → BuildContext}
    (hchange : ∀ context, context.id = id → Altered op context (change context))
    (c : BuildContext) : Altered op c (if c.id = id then change c else c) := by
  split
  case isTrue hid => exact hchange c hid
  case isFalse => exact .same rfl

theorem onContexts_eq_map (hnodup : (l.map (·.id)).Nodup)
    (hpush : ∀ context, op ≠ .pushContext context) :
    ∃ f : BuildContext → BuildContext, onContexts op l = l.map f ∧
      ∀ context, Altered op context (f context) := by
  cases op with
  | pushContext context => exact absurd rfl (hpush context)
  | storeKillSignal id kill =>
    refine ⟨_, changeFirst_eq_map hnodup, altered_of_change ?_⟩
    rintro context rfl
    exact .stored kill rfl rfl
  | addArtifactPath id path =>
    refine ⟨_, changeFirst_eq_map hnodup, altered_of_change ?_⟩
    rintro context rfl
    exact .attached path rfl rfl
  | _ => exact ⟨id, (List.map_id l).symm, fun _ => .same rfl⟩

theorem altered_of_mem (hnodup : (l.map (·.id)).Nodup) (hc : c' ∈ onContexts op l) :
    op = .pushContext c' ∨ ∃ c ∈ l, Altered op c c' := by
  by_cases hpush : ∃ context, op = .pushContext context
  · obtain ⟨context, rfl⟩ := hpush
    obtain hc | hc := List.mem_append.mp hc
    · exact .inr ⟨c', hc, .same rfl⟩
    · exact .inl (congrArg Op.pushContext (List.mem_singleton.mp hc).symm)
  · rw [not_exists] at hpush
    obtain ⟨f, hf, haltered⟩ := onContexts_eq_map hnodup hpush
    rw [hf] at hc
    obtain ⟨c, hmem, rfl⟩ := List.mem_map.mp hc
    exact .inr ⟨c, hmem, haltered c⟩

theorem altered_to_mem (op : Op) (hnodup : (l.map (·.id)).Nodup) (hc : c ∈ l) :
    ∃ c' ∈ onContexts op l, Altered op c c' := by
  by_cases hpush : ∃ context, op = .pushContext context
  · obtain ⟨context, rfl⟩ := hpush
    exact ⟨c, List.mem_append_left _ hc, .same rfl⟩
  · rw [not_exists] at hpush
    obtain ⟨f, hf, haltered⟩ := onContexts_eq_map hnodup hpush
    rw [hf]
    exact ⟨f c, List.mem_map_of_mem hc, haltered c⟩

end Contexts

-- What a step of thread `t` puts on its stream.
inductive Puts (s : State) (t : ℕ) : Op → Choice → BuildStatus → Prop where
  | reports {env : Environment} {status : BuildStatus} (henv : env.connected = true) :
      Puts s t (.report status) (.goes env) status
  | prints {spec : CommandSpec} {process : Process} {stderr : Bool} {line : String}
      (h : s.processes t = some process) :
      Puts s t (.runProcess spec) (.process (.prints stderr line true))
        (outputStatus process.spec stderr line)
  | cancelled {spec : CommandSpec} {process : Process} (h : s.processes t = some process)
      (hphase : process.phase = .stopping) :
      Puts s t (.runProcess spec) (.process (.stopped true)) (cancelledStatus process.spec)

-- What an operation that goes at once does to the state.
structure Performed (s s' : State) (t : ℕ) (env : Environment) (op : Op) : Prop where
  contexts : s'.contexts = onContexts op s.contexts
  buildStatuses : s'.buildStatuses = onStatuses op s.buildStatuses
  processes : s'.processes = s.processes
  lastId : op ≠ .incAndGetBuildId → s'.lastId = s.lastId
  channels : s'.channels = s.channels ∨
    ∃ u channel, s'.channels = Function.update s.channels u (some channel)
  streams : s'.streams = s.streams ∨ ∃ status, op = .report status ∧ env.connected = true ∧
    s'.streams = Function.update s.streams t (s.streams t ++ [status])

section Acts

variable {service : BuildService} {s s' : State} {t : ℕ} {op : Op} {i : Choice}

theorem moves_of_processStep {spec : CommandSpec} {i : ProcessStep}
    {answer : Option (Except Status Bool)}
    (h : processStep service s t spec i = some (s', answer)) :
    ProcessMoves service s t spec i s' answer := by
  unfold processStep at h
  split at h
  case h_1 hnone =>
    split at h
    case h_1 =>
      cases h
      exact .starts hnone
    case h_2 =>
      cases h
      exact .fails hnone
    case h_3 => cases h
  case h_2 process hsome =>
    split at h
    case h_1 hphase =>
      cases h
      exact .prints hsome (.inl hphase)
    case h_2 hphase =>
      cases h
      exact .prints hsome (.inr hphase)
    case h_3 hphase =>
      obtain ⟨u, hwrites, heq⟩ := Option.map_eq_some_iff.mp h
      cases heq
      exact .writes hsome (.inl hphase) hwrites
    case h_4 hphase =>
      obtain ⟨u, hwrites, heq⟩ := Option.map_eq_some_iff.mp h
      cases heq
      exact .writes hsome (.inr hphase) hwrites
    case h_5 hphase =>
      obtain ⟨⟨hkill, hpending⟩, heq⟩ := Transition.enabled_eq_some h
      cases heq
      exact .receives hsome hphase hkill hpending
    case h_6 hphase =>
      cases h
      exact .stopped hsome hphase
    case h_7 hphase =>
      cases h
      exact .exits hsome hphase
    case h_8 hphase =>
      cases h
      exact .quits hsome hphase
    case h_9 => cases h

theorem moves_of_readStep {path : Path} {i : ReadStep} {answer : Option Unit}
    (h : readStep s t path i = some (s', answer)) : ReadMoves s t path i s' answer := by
  cases i with
  | fails message =>
    cases h
    exact .fails
  | reads count replaced connected =>
    obtain ⟨bytes, hbytes, hread⟩ := Option.bind_eq_some_iff.mp h
    split at hread
    case h_1 =>
      cases hread
      exact .ends
    case h_2 => cases hread
    case h_3 byte rest count hdrop =>
      split at hread
      case isFalse =>
        cases hread
        exact .ends
      case isTrue hconnected =>
        have htake : byte :: rest.take (min count (bufferSize - 1)) =
            (bytes.drop (s.sent t).length).take (min (count + 1) bufferSize) := by
          have hmin : min (count + 1) bufferSize = min count (bufferSize - 1) + 1 := by
            simp only [bufferSize]
            omega
          rw [hdrop, hmin, List.take_succ_cons]
        rw [htake] at hread
        cases hread
        rw [hconnected]
        exact .sends hbytes

theorem acts_of_act {answer : Option op.Answer}
    (h : act service s t op i = some (s', answer)) : Acts service s t op i s' answer := by
  cases i with
  | goes env =>
    obtain ⟨⟨u, a⟩, hperform, heq⟩ := Option.map_eq_some_iff.mp h
    cases heq
    exact .performs hperform
  | process i =>
    cases op with
    | runProcess spec => exact .runs (moves_of_processStep h)
    | _ => cases h
  | reads i =>
    cases op with
    | streamFile path => exact .reads (moves_of_readStep h)
    | _ => cases h

theorem claimPreparedBuild_eq_ok {id : ℕ} {u : Unit} (h : s.claimPreparedBuild id = .ok u) :
    ∃ entry, s.status id = some entry ∧ entry.lifecycle = .prepared := by
  unfold State.claimPreparedBuild at h
  split at h
  case h_1 => cases h
  case h_2 entry hentry =>
    split at h
    case isTrue => cases h
    case isFalse hprepared => exact ⟨entry, hentry, not_not.mp hprepared⟩

theorem claimPreparedBuild_eq_error {id : ℕ} {e : Status} (h : s.claimPreparedBuild id = .error e)
    {entry : PerBuildIdStatus} (hentry : s.status id = some entry) :
    entry.lifecycle ≠ .prepared := by
  unfold State.claimPreparedBuild at h
  rw [hentry] at h
  intro hprepared
  simp only [hprepared, ne_eq, not_true_eq_false, if_false] at h
  cases h

-- A claim that is refused changes nothing.
theorem buildStatuses_of_claim {id : ℕ} {env : Environment} {a : Except Status Unit}
    (h : perform service s t env (.claimPreparedBuild id) = some (s', a)) :
    s'.buildStatuses = changeStatus id claim s.buildStatuses := by
  simp only [perform] at h
  split at h
  case h_1 u hok =>
    cases h
    obtain ⟨entry, hentry, hprepared⟩ := claimPreparedBuild_eq_ok hok
    refine changeFirst_congr fun x hx => ?_
    obtain rfl : entry = x := Option.some.inj (hentry.symm.trans hx)
    exact (if_pos hprepared).symm
  case h_2 e herror =>
    cases h
    refine (changeFirst_id _).symm.trans (changeFirst_congr fun x hx => ?_)
    exact (if_neg (claimPreparedBuild_eq_error herror hx)).symm

theorem perform_incAndGetBuildId {env : Environment} {id : ℕ}
    (h : perform service s t env .incAndGetBuildId = some (s', id)) :
    id = s.lastId + 1 ∧ s' = { s with lastId := s.lastId + 1 } := by
  obtain ⟨-, heq⟩ := Transition.enabled_eq_some h
  cases heq
  exact ⟨rfl, rfl⟩

theorem perform_findContext {id : ℕ} {env : Environment} {a : Option BuildContext}
    (h : perform service s t env (.findContext id) = some (s', a)) : s' = s ∧ a = s.context id := by
  obtain ⟨-, heq⟩ := Option.ite_none_left_eq_some.mp h
  cases heq
  exact ⟨rfl, rfl⟩

-- A kill message that finds a receiver is put into the channel.
theorem perform_sendKill {kill : ℕ} {env : Environment} {a : Bool}
    (h : perform service s t env (.sendKill kill) = some (s', a)) :
    s.channels kill = none ∧ s' = s ∧ a = false ∨
      s.channels kill = some false ∧ s' = s.setChannel kill (some true) ∧ a = true := by
  simp only [perform] at h
  split at h
  case h_1 hnone =>
    cases h
    exact .inl ⟨hnone, rfl, rfl⟩
  case h_2 hfree =>
    cases h
    exact .inr ⟨hfree, rfl, rfl⟩
  case h_3 => cases h

theorem performed {env : Environment} {a : op.Answer}
    (h : perform service s t env op = some (s', a)) : Performed s s' t env op := by
  cases op with
  | runProcess | streamFile => cases h
  | report status =>
    obtain rfl := (Prod.mk.inj (Option.some.inj h)).1
    split
    · next henv => exact ⟨rfl, rfl, rfl, fun _ => rfl, .inl rfl, .inr ⟨status, rfl, henv, rfl⟩⟩
    · exact ⟨rfl, rfl, rfl, fun _ => rfl, .inl rfl, .inl rfl⟩
  | incAndGetBuildId =>
    obtain ⟨-, rfl⟩ := perform_incAndGetBuildId h
    exact ⟨rfl, rfl, rfl, fun hop => absurd rfl hop, .inl rfl, .inl rfl⟩
  | claimPreparedBuild =>
    have hstatuses := buildStatuses_of_claim h
    simp only [perform] at h
    split at h <;> cases h <;>
      exact ⟨rfl, hstatuses, rfl, fun _ => rfl, .inl rfl, .inl rfl⟩
  | newKillChannel =>
    cases h
    exact ⟨rfl, rfl, rfl, fun _ => rfl, .inr ⟨_, _, rfl⟩, .inl rfl⟩
  | sendKill kill =>
    obtain ⟨-, rfl, -⟩ | ⟨-, rfl, -⟩ := perform_sendKill h
    · exact ⟨rfl, rfl, rfl, fun _ => rfl, .inl rfl, .inl rfl⟩
    · exact ⟨rfl, rfl, rfl, fun _ => rfl, .inr ⟨_, _, rfl⟩, .inl rfl⟩
  | pushContext | findContext | storeKillSignal | addArtifactPath | findKillSignal | lockContexts =>
    obtain ⟨-, heq⟩ := Option.ite_none_left_eq_some.mp h
    cases heq
    exact ⟨rfl, rfl, rfl, fun _ => rfl, .inl rfl, .inl rfl⟩
  | copy | removeFile | openFile =>
    simp only [perform] at h
    split at h <;> cases h <;> exact ⟨rfl, rfl, rfl, fun _ => rfl, .inl rfl, .inl rfl⟩
  | sendChunk =>
    obtain rfl := (Prod.mk.inj (Option.some.inj h)).1
    split <;> exact ⟨rfl, rfl, rfl, fun _ => rfl, .inl rfl, .inl rfl⟩
  | _ =>
    cases h
    exact ⟨rfl, rfl, rfl, fun _ => rfl, .inl rfl, .inl rfl⟩

theorem mem_of_context {id : ℕ} {c : BuildContext} (h : s.context id = some c) :
    c ∈ s.contexts ∧ c.id = id :=
  ⟨List.mem_of_find?_eq_some h, by simpa using List.find?_some h⟩

-- What a running command, and a file that is read, leave alone.
structure Outside (s s' : State) : Prop where
  lastId : s'.lastId = s.lastId
  contexts : s'.contexts = s.contexts
  buildStatuses : s'.buildStatuses = s.buildStatuses
  contextsLocked : s'.contextsLocked = s.contextsLocked
  sources : s'.sources = s.sources
  opened : s'.opened = s.opened
  spawned : s'.spawned = s.spawned

theorem outside_of_processMoves {spec : CommandSpec} {i : ProcessStep}
    {answer : Option (Except Status Bool)} (h : ProcessMoves service s t spec i s' answer) :
    Outside s s' := by
  cases h with
  | writes hprocess hphase hwrites =>
    unfold State.makeWrites at hwrites
    split at hwrites
    case h_1 =>
      cases hwrites
      exact ⟨rfl, rfl, rfl, rfl, rfl, rfl, rfl⟩
    case h_2 =>
      obtain ⟨-, rfl⟩ := Transition.enabled_eq_some hwrites
      exact ⟨rfl, rfl, rfl, rfl, rfl, rfl, rfl⟩
  | prints hprocess hphase =>
    unfold State.print
    dsimp only
    split
    · exact ⟨rfl, rfl, rfl, rfl, rfl, rfl, rfl⟩
    · exact ⟨rfl, rfl, rfl, rfl, rfl, rfl, rfl⟩
  | stopped hprocess hphase =>
    split
    · exact ⟨rfl, rfl, rfl, rfl, rfl, rfl, rfl⟩
    · exact ⟨rfl, rfl, rfl, rfl, rfl, rfl, rfl⟩
  | _ => exact ⟨rfl, rfl, rfl, rfl, rfl, rfl, rfl⟩

theorem outside_of_readMoves {path : Path} {i : ReadStep} {answer : Option Unit}
    (h : ReadMoves s t path i s' answer) : Outside s s' := by
  cases h with
  | _ => exact ⟨rfl, rfl, rfl, rfl, rfl, rfl, rfl⟩

theorem isSome_update {channels : ℕ → Option Bool} {u v : ℕ} {channel : Bool}
    (h : (channels u).isSome = true) :
    (Function.update channels v (some channel) u).isSome = true := by
  by_cases huv : u = v
  · rw [huv, Function.update_self]
    rfl
  · rw [Function.update_of_ne huv]
    exact h

-- A receiver is dropped when its command ends.
theorem channels_of_acts {answer : Option op.Answer} (h : Acts service s t op i s' answer) {u : ℕ}
    (hu : (s.channels u).isSome = true) : (s'.channels u).isSome = true ∨
      u = t ∧ ∃ spec result, op = .runProcess spec ∧ i = .process (.exits result) := by
  have hend {channels : ℕ → Option Bool} (h : channels = Function.update s.channels t none) :
      (channels u).isSome = true ∨ u = t := by
    by_cases hut : u = t
    · exact .inr hut
    · rw [h, Function.update_of_ne hut]
      exact .inl hu
  cases h with
  | performs h =>
    obtain hsame | ⟨v, channel, hset⟩ := (performed h).channels
    · exact .inl (hsame ▸ hu)
    · rw [hset]
      exact .inl (isSome_update hu)
  | reads h =>
    cases h with
    | _ => exact .inl hu
  | runs h =>
    cases h with
    | starts => exact .inl hu
    | receives hprocess hphase hkill hpending => exact .inl (isSome_update hu)
    | prints hprocess hphase =>
      unfold State.print
      dsimp only
      split
      · exact .inl hu
      · exact .inl hu
    | writes hprocess hphase hwrites =>
      unfold State.makeWrites at hwrites
      split at hwrites
      case h_1 =>
        cases hwrites
        exact .inl hu
      case h_2 =>
        obtain ⟨-, rfl⟩ := Transition.enabled_eq_some hwrites
        exact .inl hu
    | stopped hprocess hphase =>
      split
      · exact .inl hu
      · exact .inl hu
    | fails hnone => exact (hend rfl).imp_right fun hut => ⟨hut, _, _, rfl, rfl⟩
    | exits hprocess hphase => exact (hend rfl).imp_right fun hut => ⟨hut, _, _, rfl, rfl⟩
    | quits hprocess hphase => exact (hend rfl).imp_right fun hut => ⟨hut, _, _, rfl, rfl⟩

theorem contexts_of_acts {answer : Option op.Answer} (h : Acts service s t op i s' answer) :
    s'.contexts = onContexts op s.contexts := by
  cases h with
  | performs h => exact (performed h).contexts
  | runs h => exact (outside_of_processMoves h).contexts
  | reads h => exact (outside_of_readMoves h).contexts

theorem buildStatuses_of_acts {answer : Option op.Answer} (h : Acts service s t op i s' answer) :
    s'.buildStatuses = onStatuses op s.buildStatuses := by
  cases h with
  | performs h => exact (performed h).buildStatuses
  | runs h => exact (outside_of_processMoves h).buildStatuses
  | reads h => exact (outside_of_readMoves h).buildStatuses

theorem lastId_of_acts {answer : Option op.Answer} (h : Acts service s t op i s' answer)
    (hop : op ≠ .incAndGetBuildId) : s'.lastId = s.lastId := by
  cases h with
  | performs h => exact (performed h).lastId hop
  | runs h => exact (outside_of_processMoves h).lastId
  | reads h => exact (outside_of_readMoves h).lastId

-- Only a command that runs and a file that is read leave an operation unanswered.
theorem outside_of_waits (h : Acts service s t op i s' none) : Outside s s' := by
  cases h with
  | runs h => exact outside_of_processMoves h
  | reads h => exact outside_of_readMoves h

theorem streams_of_makeWrites {process : Process} {path : Path}
    (h : s.makeWrites service t process path = some s') : s'.streams = s.streams := by
  unfold State.makeWrites at h
  split at h
  case h_1 =>
    cases h
    rfl
  case h_2 =>
    obtain ⟨-, rfl⟩ := Transition.enabled_eq_some h
    rfl

theorem streams_of_acts {answer : Option op.Answer} (h : Acts service s t op i s' answer) :
    s'.streams = s.streams ∨ ∃ status, Puts s t op i status ∧
      s'.streams = Function.update s.streams t (s.streams t ++ [status]) := by
  cases h with
  | performs h =>
    refine (performed h).streams.imp_right ?_
    rintro ⟨status, rfl, henv, hstreams⟩
    exact ⟨status, .reports henv, hstreams⟩
  | reads h =>
    cases h with
    | _ => exact .inl rfl
  | runs h =>
    cases h with
    | prints hprocess hphase =>
      rename_i process stderr line admitted
      cases admitted with
      | false => exact .inl rfl
      | true => exact .inr ⟨_, .prints hprocess, rfl⟩
    | stopped hprocess hphase =>
      rename_i process connected
      cases connected with
      | false => exact .inl rfl
      | true => exact .inr ⟨_, .cancelled hprocess hphase, rfl⟩
    | writes hprocess hphase hwrites => exact .inl (streams_of_makeWrites hwrites)
    | _ => exact .inl rfl

theorem mem_streams_of_acts {answer : Option op.Answer} (h : Acts service s t op i s' answer)
    {u : ℕ} {status : BuildStatus} (hmem : status ∈ s'.streams u) :
    status ∈ s.streams u ∨ u = t ∧ Puts s t op i status := by
  obtain hsame | ⟨status', hputs, hnew⟩ := streams_of_acts h
  · exact .inl (hsame ▸ hmem)
  · rw [hnew] at hmem
    by_cases hu : u = t
    · subst hu
      rw [Function.update_self] at hmem
      refine (List.mem_append.mp hmem).imp_right fun hmem => ⟨rfl, ?_⟩
      exact List.mem_singleton.mp hmem ▸ hputs
    · rw [Function.update_of_ne hu] at hmem
      exact .inl hmem

theorem begins_eq_some {call : Call} (h : (system service).begins s t call = some s') :
    ∃ spawned interrupted, s' = { s with spawned, interrupted } := by
  cases call with
  | ctrlC =>
    obtain ⟨-, heq⟩ := Option.ite_none_left_eq_some.mp h
    exact ⟨_, _, (Option.some.inj heq).symm⟩
  | _ => exact ⟨_, _, (Option.some.inj h).symm⟩

theorem hangsUp_eq_some (h : (system service).hangsUp s t = some s') :
    s.spawned t = false ∧ s' = s.setChannel t none := by
  obtain ⟨hspawned, heq⟩ := Option.ite_none_left_eq_some.mp h
  exact ⟨Bool.eq_false_iff.mpr hspawned, (Option.some.inj heq).symm⟩

end Acts

end Glider.KernelBuild

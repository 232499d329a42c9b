import Glider.RomBuild.Recorded

namespace Glider.RomBuild

open Glider.Lib

inductive Kind where
  | inProgress
  | success
  | failed
  deriving DecidableEq

def BuildStatus.kind : BuildStatus → Kind
  | .inProgress => .inProgress
  | .success => .success
  | .failed _ => .failed

-- From the spawning of the harness until it has cleared `registry.active`. What is left then is to
-- drop its values.
def Harness.isActive : Harness → Bool
  | .released | .ended => false
  | _ => true

def State.kind (s : State) (id : ℕ) : Option Kind := (s.status id).map (·.kind)

-- What is recorded of a build in each stage.
def Stage.kind : Stage → Kind
  | .building | .built => .inProgress
  | .failing => .failed
  | .marked => .success

def Harness.Decides (id : ℕ) (m : Stage) : Harness → Prop
  | .running rest => rest.Meets (conduct id) Decided m
  | .stopping next => m = .building ∧ (next (.ok false)).Meets (conduct id) Decided .building
  | _ => m.kind ≠ .inProgress

-- The entry of a build tells the stage `m` that its harness is in.
structure Entered (s : State) (id : ℕ) (task : Task) (m : Stage) : Prop where
  decides : task.harness.Decides id m
  built : m.phase ≠ .building → task.built = true
  kind : s.kind id = none ∨ s.kind id = some m.kind

section Moves

variable {s t : State} {id other : ℕ} {task task' : Task} {m : Stage}

theorem Entered.frame (h : Entered s id task m) (hkind : t.kind id = s.kind id ∨ t.kind id = none) :
    Entered t id task m where
  decides := h.decides
  built := h.built
  kind := by
    obtain hsame | hgone := hkind
    · rw [hsame]
      exact h.kind
    · exact .inl hgone

theorem decides_of_running {op : Op} {next : op.Answer → Pipeline Unit}
    (h : Entered s id task m) (hat : task.harness = .running (.call op next)) :
    (conduct id).allows m op ∧ ∀ answer, (next answer).Meets (conduct id) Decided
      ((conduct id).next m op answer) := by
  have hdecides := h.decides
  rw [hat] at hdecides
  exact hdecides

theorem kind_apply_status {change : BuildStatus → BuildStatus} {k : Kind}
    (hchange : ∀ st, (change st).kind = k) :
    (s.apply id (.status change)).kind id = none ∨
      (s.apply id (.status change)).kind id = some k := by
  unfold State.kind
  rw [status_apply_status]
  cases s.status id with
  | none => exact .inl rfl
  | some st => exact .inr (congrArg some (hchange st))

theorem kind_failedBy (e : BuildError) (st : BuildStatus) : (failedBy e st).kind = .failed := by
  cases st <;> rfl

-- The harness goes on and its entry stays.
theorem Entered.go (h : Entered s id task m) (hstatus : t.status id = s.status id)
    (hdecides : task'.harness.Decides id m) (hbuilt : task'.built = task.built) :
    Entered t id task' m where
  decides := hdecides
  built hm := hbuilt ▸ h.built hm
  kind := by
    rw [State.kind, hstatus]
    exact h.kind

theorem Entered.moves (h : Entered s id task m) {i : TaskStep} {effect : Effect}
    (hmove : task.Moves i task' effect) :
    ∃ m', Entered ((s.setTask id task').apply id effect) id task' m' ∧
      (m.kind ≠ .inProgress → m'.kind = m.kind) := by
  have hsettled : ∀ {h : Harness}, task.harness = h → h.isSettled = true → m.kind ≠ .inProgress := by
    intro harness hat hpast
    have hdecides := h.decides
    rw [hat] at hdecides
    cases harness with
    | running rest | stopping next => cases hpast
    | _ => exact hdecides
  cases hmove with
  | returns hat =>
    have hmarked := h.decides
    rw [hat] at hmarked
    obtain rfl : m = .marked := hmarked
    exact ⟨.marked, h.go rfl nofun rfl, fun _ => rfl⟩
  | @fails env e hat =>
    have hunmarked := h.decides
    rw [hat] at hunmarked
    refine ⟨.failing, ⟨nofun, nofun, kind_apply_status (kind_failedBy e)⟩, fun hm => ?_⟩
    cases m with
    | failing => rfl
    | marked => exact absurd rfl hunmarked
    | _ => exact absurd rfl hm
  | observes hat => exact ⟨m, h.go rfl ((decides_of_running h hat).2 _) rfl, fun _ => rfl⟩
  | logs hat => exact ⟨m, h.go rfl ((decides_of_running h hat).2 _) rfl, fun _ => rfl⟩
  | recordsFailure hat =>
    obtain ⟨rfl, hnext⟩ := decides_of_running h hat
    exact ⟨.failing, ⟨hnext (), nofun, kind_apply_status fun _ => rfl⟩, fun hm => absurd rfl hm⟩
  | uploads hat =>
    obtain ⟨⟨rfl, -⟩, hnext⟩ := decides_of_running h hat
    exact ⟨.built, h.go rfl (hnext ()) rfl, fun _ => rfl⟩
  | recordsSuccess hat =>
    obtain ⟨rfl, hnext⟩ := decides_of_running h hat
    refine ⟨.marked, ⟨hnext (), fun _ => h.built nofun, ?_⟩, fun hm => absurd rfl hm⟩
    exact kind_apply_status fun _ => rfl
  | announces hat => exact ⟨m, h.go rfl (hsettled hat rfl) rfl, fun _ => rfl⟩
  | releases hat | ends hat => exact ⟨m, h.go rfl (hsettled hat rfl) rfl, fun _ => rfl⟩
  | prints hat | printsLast hat => exact ⟨m, h.go rfl h.decides rfl, fun _ => rfl⟩
  | @exits outcome spec next hat =>
    obtain ⟨rfl, hnext⟩ := decides_of_running h hat
    refine ⟨(conduct id).next .building (.runProcess spec) outcome, ⟨hnext outcome, ?_, ?_⟩,
      fun hm => absurd rfl hm⟩
    · match outcome with
      | .error e => exact fun hm => absurd rfl hm
      | .ok false => exact fun hm => absurd rfl hm
      | .ok true =>
        by_cases hbash : spec.program = "bash"
        · simp [hbash, Except.toOption]
        · simp [conduct, hbash, Stage.phase]
    · have hkind : ((conduct id).next .building (.runProcess spec) outcome).kind = .inProgress := by
        match outcome with
        | .error e => rfl
        | .ok false => rfl
        | .ok true =>
          simp only [conduct]
          split <;> rfl
      rw [hkind]
      exact h.kind
  | receives hat =>
    obtain ⟨rfl, hnext⟩ := decides_of_running h hat
    exact ⟨.building, h.go rfl ⟨rfl, hnext (.ok false)⟩ rfl, fun _ => rfl⟩
  | stops hat =>
    have hdecides := h.decides
    rw [hat] at hdecides
    obtain ⟨rfl, hnext⟩ := hdecides
    exact ⟨.building, h.go rfl hnext rfl, fun _ => rfl⟩

-- Only the step that clears `registry.active` ends the activity of a harness.
theorem isActive_of_moves {i : TaskStep} {effect : Effect} (hmove : task.Moves i task' effect) :
    (task'.harness.isActive = true ↔ task.harness.isActive = true ∧ effect ≠ .release) ∧
      (effect = .release → task.harness = .releasing) := by
  cases hmove with
  | prints hat | printsLast hat => simp
  | returns hat => simp [hat, Harness.isActive]
  | fails hat => simp [hat, Harness.isActive]
  | observes hat => simp [hat, Harness.isActive]
  | logs hat => simp [hat, Harness.isActive]
  | recordsFailure hat => simp [hat, Harness.isActive]
  | uploads hat => simp [hat, Harness.isActive]
  | recordsSuccess hat => simp [hat, Harness.isActive]
  | announces hat => simp [hat, Harness.isActive]
  | releases hat | ends hat | exits hat | receives hat | stops hat => simp [hat, Harness.isActive]

end Moves

theorem length_bounded {α : Type} (l : List α) : (State.bounded l).length ≤ State.maxHistory := by
  unfold State.bounded
  rw [List.length_drop]
  omega

-- The entry that was pushed last is kept.
theorem status_pushKnown_new {s : State} {id : ℕ} (hunused : s.Unused id) :
    (s.pushKnown id).status id = some .inProgress := by
  have hfound : ∀ l : List BuildEntry, (∀ entry ∈ l, entry.id ≠ id) →
      (l ++ [(⟨id, .inProgress⟩ : BuildEntry)]).find? (·.id = id) = some ⟨id, .inProgress⟩ := by
    intro l hl
    have hnone : l.find? (·.id = id) = none := List.find?_eq_none.mpr (by simpa using hl)
    simp [hnone]
  have hkept : ∃ l, (∀ entry ∈ l, entry ∈ s.known) ∧
      (s.pushKnown id).known = l ++ [⟨id, .inProgress⟩] := by
    unfold State.pushKnown State.bounded
    dsimp only
    rw [List.drop_append_of_le_length (by simp [State.maxHistory])]
    exact ⟨_, fun entry hentry => List.mem_of_mem_drop hentry, rfl⟩
  obtain ⟨l, hl, hknown⟩ := hkept
  unfold State.status
  rw [hknown, hfound l fun entry hentry => hunused.2.1 entry (hl entry hentry)]
  rfl

-- What the registry says in every state of a run.
structure Registered (s : State) : Prop where
  inv : Inv s
  entered : ∀ id task, s.tasks id = some task → ∃ m, Entered s id task m
  unstarted : ∀ id, s.tasks id = none → s.kind id = none ∨ s.kind id = some .inProgress
  active : ∀ id, s.active = some id ↔ ∃ task, s.tasks id = some task ∧
    task.harness.isActive = true
  present : ∀ id, s.active = some id → s.kind id ≠ none
  known : s.known.length ≤ State.maxHistory
  uploads : s.uploads.length ≤ State.maxHistory

namespace Registered

variable {service : BuildService} {s t : State} {id : ℕ}

theorem initial : Registered .initial :=
  ⟨.initial, fun _ _ => nofun, fun _ _ => .inl rfl, fun _ => ⟨nofun, nofun⟩, fun _ => nofun,
    by simp [State.initial], by simp [State.initial]⟩

theorem same (hr : Registered s) (hinv : Inv t) (hknown : t.known = s.known)
    (huploads : t.uploads = s.uploads) (htasks : t.tasks = s.tasks)
    (hactive : t.active = s.active) : Registered t := by
  have hkind : ∀ id, t.kind id = s.kind id := fun id => by
    simp only [State.kind, State.status, hknown]
  refine ⟨hinv, fun id task htask => ?_, fun id hnone => ?_, fun id => ?_, fun id hid => ?_,
    hknown ▸ hr.known, huploads ▸ hr.uploads⟩
  · obtain ⟨m, hm⟩ := hr.entered id task (htasks ▸ htask)
    exact ⟨m, hm.frame (.inl (hkind id))⟩
  · rw [hkind]
    exact hr.unstarted id (htasks ▸ hnone)
  · rw [hactive, htasks]
    exact hr.active id
  · rw [hkind]
    exact hr.present id (hactive ▸ hid)

-- No build is active: whatever runs still has passed its end.
theorem isActive_false (hr : Registered s) (hnone : s.active = none) {task : Task}
    (htask : s.tasks id = some task) : task.harness.isActive ≠ true := by
  intro hactive
  have hid := (hr.active id).mpr ⟨task, htask, hactive⟩
  rw [hnone] at hid
  cases hid

theorem kind_pushKnown_of_ne (hr : Registered s) (hunused : s.Unused id) {other : ℕ}
    (hne : other ≠ id) :
    (s.pushKnown id).kind other = s.kind other ∨ (s.pushKnown id).kind other = none := by
  obtain hsame | hgone := status_pushKnown_of_ne hunused hr.inv.nodup hne
  · exact .inl (congrArg _ hsame)
  · exact .inr (congrArg _ hgone)

theorem kind_pushKnown_self (hunused : s.Unused id) :
    (s.pushKnown id).kind id = some .inProgress :=
  congrArg _ (status_pushKnown_new hunused)

theorem pushKnown (hr : Registered s) (hunused : s.Unused id) (hnone : s.active = none) :
    Registered (s.pushKnown id) where
  inv := hr.inv.pushKnown hunused
  entered other task htask := by
    obtain ⟨m, hm⟩ := hr.entered other task htask
    have hne : other ≠ id := by
      rintro rfl
      have hfree := hunused.1
      rw [show s.tasks other = some task from htask] at hfree
      cases hfree
    exact ⟨m, hm.frame (hr.kind_pushKnown_of_ne hunused hne)⟩
  unstarted other hother := by
    by_cases hne : other = id
    · subst hne
      exact .inr (kind_pushKnown_self hunused)
    · obtain hsame | hgone := hr.kind_pushKnown_of_ne hunused hne
      · rw [hsame]
        exact hr.unstarted other hother
      · exact .inl hgone
  active := hr.active
  present other hother := absurd (hnone.symm.trans hother) nofun
  known := length_bounded _
  uploads := hr.uploads

theorem startBuild (hr : Registered s) (hunused : s.Unused id) (req : BuildRequest)
    (env : Environment) : Registered (service.startBuild s id req env).2 := by
  have hinv : Inv (service.startBuild s id req env).2 := hr.inv.startBuild hunused req env
  obtain heq | ⟨hnone, heq | ⟨task, rfl, heq⟩⟩ := startBuild_cases service s id req env
  · rwa [heq]
  · rw [heq]
    exact hr.pushKnown hunused hnone
  · have hpushed := hr.pushKnown hunused hnone
    rw [heq] at hinv ⊢
    refine ⟨hinv, fun other task' htask => ?_, fun other hother => ?_, fun other => ?_,
      fun other hother => ?_, hpushed.known, hpushed.uploads⟩
    · by_cases hne : other = task.id
      · subst hne
        obtain rfl := Option.some.inj ((setTask_tasks_self _).symm.trans htask)
        exact ⟨.building, decides_pipeline task, fun hm => absurd rfl hm,
          .inr (kind_pushKnown_self hunused)⟩
      · obtain ⟨m, hm⟩ := hpushed.entered other task' ((setTask_tasks_of_ne hne _).symm.trans htask)
        exact ⟨m, hm.decides, hm.built, hm.kind⟩
    · by_cases hne : other = task.id
      · subst hne
        exact absurd ((setTask_tasks_self _).symm.trans hother) nofun
      · exact hpushed.unstarted other ((setTask_tasks_of_ne hne _).symm.trans hother)
    · constructor
      · intro hother
        obtain rfl : task.id = other := Option.some.inj hother
        exact ⟨_, setTask_tasks_self _, rfl⟩
      · rintro ⟨task', htask, hactive⟩
        by_cases hne : other = task.id
        · exact congrArg some hne.symm
        · have hold := (setTask_tasks_of_ne hne _).symm.trans htask
          exact absurd hactive (hpushed.isActive_false hnone hold)
    · obtain rfl : task.id = other := Option.some.inj hother
      intro hgone
      cases (kind_pushKnown_self hunused).symm.trans hgone

theorem kind_apply_of_ne {other : ℕ} (hne : other ≠ id) (effect : Effect) :
    (s.apply id effect).kind other = s.kind other :=
  congrArg _ (status_apply_of_ne hne effect)

theorem length_updateKnown (id : ℕ) (change : BuildStatus → BuildStatus) (l : List BuildEntry) :
    (State.updateKnown id change l).length = l.length := by
  have hids : ((State.updateKnown id change l).map (·.id)).length = (l.map (·.id)).length :=
    congrArg List.length (map_id_updateKnown change)
  simpa using hids

theorem length_apply (hr : Registered s) (id : ℕ) (task : Task) (effect : Effect) :
    ((s.setTask id task).apply id effect).known.length ≤ State.maxHistory ∧
      ((s.setTask id task).apply id effect).uploads.length ≤ State.maxHistory := by
  cases effect with
  | status change =>
    refine ⟨?_, hr.uploads⟩
    have hlength := length_updateKnown id change s.known
    have hknown := hr.known
    change (State.updateKnown id change s.known).length ≤ _
    omega
  | upload upload => exact ⟨hr.known, length_bounded _⟩
  | _ => exact ⟨hr.known, hr.uploads⟩

-- The harness adds no entry and drops none.
theorem kind_apply_eq_none {task : Task} {effect : Effect} :
    ((s.setTask id task).apply id effect).kind id = none ↔ s.kind id = none := by
  cases effect with
  | status change =>
    unfold State.kind
    rw [status_apply_status]
    simp [State.status, State.setTask]
  | _ => exact Iff.rfl

theorem active_apply {effect : Effect} (hne : effect ≠ .release) :
    (s.apply id effect).active = s.active := by
  cases effect with
  | release => exact absurd rfl hne
  | _ => rfl

-- Only a harness that is active clears `registry.active`, and so it clears its own build.
theorem task (hr : Registered s) {i : TaskStep} (h : s.taskStep id i = some t) :
    Registered t := by
  have hinv := hr.inv.task h
  obtain ⟨task, task', effect, htask, hstep, -, rfl⟩ := taskStep_eq_some h
  have hmove := Task.moves_of_step hstep
  obtain ⟨hactive', hreleasing⟩ := isActive_of_moves hmove
  obtain ⟨m, hm⟩ := hr.entered id task htask
  obtain ⟨m', hm', -⟩ := hm.moves hmove
  obtain ⟨hknown, huploads⟩ := hr.length_apply id task' effect
  refine ⟨hinv, fun other task₀ htask₀ => ?_, fun other hother => ?_, fun other => ?_,
    fun other hother => ?_, hknown, huploads⟩
  · rw [apply_tasks] at htask₀
    by_cases hne : other = id
    · subst hne
      obtain rfl := Option.some.inj ((setTask_tasks_self _).symm.trans htask₀)
      exact ⟨m', hm'⟩
    · rw [setTask_tasks_of_ne hne] at htask₀
      obtain ⟨m₀, hm₀⟩ := hr.entered other task₀ htask₀
      exact ⟨m₀, hm₀.frame (.inl (kind_apply_of_ne hne effect))⟩
  · rw [apply_tasks] at hother
    have hne : other ≠ id := by
      rintro rfl
      exact absurd ((setTask_tasks_self _).symm.trans hother) nofun
    rw [setTask_tasks_of_ne hne] at hother
    rw [kind_apply_of_ne hne]
    exact hr.unstarted other hother
  · rw [apply_tasks]
    by_cases hrelease : effect = .release
    · subst hrelease
      have hown : s.active = some id :=
        (hr.active id).mpr ⟨task, htask, by rw [hreleasing rfl]; rfl⟩
      refine iff_of_false nofun ?_
      rintro ⟨task₀, htask₀, hactive⟩
      by_cases hne : other = id
      · subst hne
        obtain rfl := Option.some.inj ((setTask_tasks_self _).symm.trans htask₀)
        exact (hactive'.mp hactive).2 rfl
      · rw [setTask_tasks_of_ne hne] at htask₀
        have hboth := (hr.active other).mpr ⟨task₀, htask₀, hactive⟩
        exact hne (Option.some.inj (hboth.symm.trans hown))
    · rw [active_apply hrelease]
      refine (hr.active other).trans ?_
      by_cases hne : other = id
      · subst hne
        simp [htask, hactive', hrelease]
      · rw [setTask_tasks_of_ne hne]
  · have hold : (s.setTask id task').active = some other := active_of_apply hother
    by_cases hne : other = id
    · subst hne
      exact kind_apply_eq_none.not.mpr (hr.present other hold)
    · rw [kind_apply_of_ne hne]
      exact hr.present other hold

theorem send (hr : Registered s) (h : s.send = some t) : Registered t := by
  have hinv := hr.inv.send h
  obtain ⟨caller, id, task, -, -, htask, rfl | ⟨-, rfl⟩⟩ := send_eq_some h
  · exact hr.same hinv rfl rfl rfl rfl
  · refine ⟨hinv, fun other task₀ htask₀ => ?_, fun other hother => ?_, fun other => ?_,
      hr.present, hr.known, hr.uploads⟩
    · by_cases hne : other = id
      · subst hne
        obtain rfl := Option.some.inj ((setTask_tasks_self _).symm.trans htask₀)
        obtain ⟨m, hm⟩ := hr.entered other task htask
        exact ⟨m, hm.go rfl hm.decides rfl⟩
      · obtain ⟨m, hm⟩ := hr.entered other task₀ ((setTask_tasks_of_ne hne _).symm.trans htask₀)
        exact ⟨m, hm.decides, hm.built, hm.kind⟩
    · by_cases hne : other = id
      · subst hne
        exact absurd ((setTask_tasks_self _).symm.trans hother) nofun
      · exact hr.unstarted other ((setTask_tasks_of_ne hne _).symm.trans hother)
    · refine (hr.active other).trans ?_
      change _ ↔ ∃ task₀, (s.setTask id { task with pending := true }).tasks other = some task₀ ∧ _
      by_cases hne : other = id
      · subst hne
        simp [htask]
      · rw [setTask_tasks_of_ne hne]

theorem step (hr : Registered s) {i : Step} (h : RomBuild.step service s i = some t) :
    Registered t := by
  have hinv := hr.inv.step h
  cases changes_of_step h with
  | nothing h => exact hr.same hinv h.known h.uploads h.tasks h.active
  | starts hunused => exact hr.startBuild hunused ..
  | subscribes hactive => exact hr.same hinv rfl rfl rfl rfl
  | sends h => exact hr.send h
  | reads hget hread => exact hr.same hinv rfl rfl rfl rfl
  | runs h => exact hr.task h

theorem path {steps : List Step}
    (h : Transition.path (RomBuild.step service) .initial steps = some t) : Registered t :=
  Transition.path_invariant_of_step Registered (fun _ _ _ hr h => hr.step h) initial h

end Registered

-- `start_build` has answered that the build with this id is accepted.
def Accepts (service : BuildService) (s : State) (i : Step) (id : ℕ) : Prop :=
  ∃ req env text, i = .startBuild id req env ∧
    (service.startBuild s id req env).1 = .ok ⟨some id, true, text⟩

-- What a step does to an entry: nothing, or it drops it when the build is not active, or the
-- harness of the build decides.
def Evolves (s t : State) (i : Step) (id : ℕ) : Prop :=
  t.kind id = s.kind id ∨ (s.active ≠ some id ∧ t.kind id = none) ∨
    s.kind id = some .inProgress ∧ (∃ j, i = .task id j) ∧
      (t.kind id = some .success ∨ t.kind id = some .failed)

structure Orderly (s : State) : Prop where
  single : ∀ id task id' task', s.tasks id = some task → s.tasks id' = some task' →
    task.harness.isActive = true → task'.harness.isActive = true → id = id'
  active : ∀ id, s.active = some id ↔ ∃ task, s.tasks id = some task ∧
    task.harness.isActive = true
  present : ∀ id, s.active = some id → s.kind id ≠ none
  settled : ∀ id task, s.tasks id = some task → task.harness.isSettled = true →
    s.kind id ≠ some .inProgress
  success : ∀ id, s.kind id = some .success → ∃ task, s.tasks id = some task ∧ task.built = true
  known : s.known.length ≤ 256
  uploads : s.uploads.length ≤ 256

-- `registry.active` is given to a build by its acceptance and taken by its own harness, and no
-- other step touches it.
structure Passes (service : BuildService) (s : State) (i : Step) (t : State) : Prop where
  accepted : ∀ id, Accepts service s i id → t.active = some id ∧ t.kind id = some .inProgress
  taken : ∀ id, t.active = some id → s.active ≠ some id → Accepts service s i id
  cleared : ∀ id, s.active = some id → t.active ≠ some id → ∃ env task, i = .task id (.next env) ∧
    s.tasks id = some task ∧ task.harness = .releasing
  evolves : ∀ id, s.kind id ≠ none → Evolves s t i id

section Run

variable {service : BuildService} {s t : State} {id : ℕ}

theorem Registered.orderly (hr : Registered s) : Orderly s where
  single id task id' task' htask htask' hactive hactive' := by
    have hid := (hr.active id).mpr ⟨task, htask, hactive⟩
    have hid' := (hr.active id').mpr ⟨task', htask', hactive'⟩
    exact Option.some.inj (hid.symm.trans hid')
  active := hr.active
  present := hr.present
  settled id task htask hsettled hkind := by
    obtain ⟨m, hm⟩ := hr.entered id task htask
    have hdecided : m.kind ≠ .inProgress := by
      have hdecides := hm.decides
      cases hharness : task.harness with
      | running rest | stopping next => cases hharness ▸ hsettled
      | _ =>
        rw [hharness] at hdecides
        exact hdecides
    obtain hgone | hsame := hm.kind
    · cases hgone.symm.trans hkind
    · exact hdecided (Option.some.inj (hsame.symm.trans hkind))
  success id hsuccess := by
    cases htask : s.tasks id with
    | none =>
      obtain hgone | hprogress := hr.unstarted id htask
      · cases hgone.symm.trans hsuccess
      · cases hprogress.symm.trans hsuccess
    | some task =>
      obtain ⟨m, hm⟩ := hr.entered id task htask
      obtain hgone | hsame := hm.kind
      · cases hgone.symm.trans hsuccess
      · have hmarked : m.kind = .success := Option.some.inj (hsame.symm.trans hsuccess)
        refine ⟨task, rfl, hm.built ?_⟩
        cases m with
        | marked => nofun
        | _ => cases hmarked
  known := hr.known
  uploads := hr.uploads

-- The answer tells whether `registry.active` was set.
theorem startBuild_answer (service : BuildService) (s : State) (id : ℕ) (req : BuildRequest)
    (env : Environment) :
    (service.startBuild s id req env).2.active = s.active ∧
        (∀ text, (service.startBuild s id req env).1 ≠ .ok ⟨some id, true, text⟩) ∨
      (service.startBuild s id req env).2.active = some id ∧ s.active = none ∧
        (service.startBuild s id req env).2.known = (s.pushKnown id).known ∧
        ∃ text, (service.startBuild s id req env).1 = .ok ⟨some id, true, text⟩ := by
  unfold BuildService.startBuild
  split
  · exact .inl ⟨rfl, fun _ => nofun⟩
  · next hactive =>
    split
    · exact .inl ⟨rfl, fun _ => nofun⟩
    · dsimp only
      split
      · exact .inl ⟨rfl, fun _ => nofun⟩
      · exact .inr ⟨rfl, Option.not_isSome_iff_eq_none.mp hactive, rfl, _, rfl⟩

theorem evolves_startBuild (hr : Registered s) (hunused : s.Unused id) (req : BuildRequest)
    (env : Environment) {other : ℕ} (hother : s.kind other ≠ none) :
    Evolves s (service.startBuild s id req env).2 (.startBuild id req env) other := by
  have hne : other ≠ id := by
    rintro rfl
    have hfind : s.known.find? (·.id = other) = none :=
      List.find?_eq_none.mpr (by simpa using hunused.2.1)
    simp [State.kind, State.status, hfind] at hother
  have hpushed := hr.kind_pushKnown_of_ne hunused hne
  obtain heq | ⟨hnone, heq⟩ := startBuild_cases service s id req env
  · rw [heq]
    exact .inl rfl
  · have hkind : (service.startBuild s id req env).2.kind other = (s.pushKnown id).kind other := by
      obtain heq | ⟨task, -, heq⟩ := heq
      · rw [heq]
      · rw [heq]
        rfl
    rw [Evolves, hkind, hnone]
    obtain hsame | hgone := hpushed
    · exact .inl hsame
    · exact .inr (.inl ⟨fun he => (by cases he), hgone⟩)

theorem evolves_task (hr : Registered s) {i : TaskStep} (h : s.taskStep id i = some t)
    {other : ℕ} (hother : s.kind other ≠ none) : Evolves s t (.task id i) other := by
  obtain ⟨task, task', effect, htask, hstep, -, rfl⟩ := taskStep_eq_some h
  by_cases hne : other = id
  · subst hne
    obtain ⟨m, hm⟩ := hr.entered other task htask
    obtain ⟨m', hm', hdecided⟩ := hm.moves (Task.moves_of_step hstep)
    have hkind := hm.kind.resolve_left hother
    have hkind' := hm'.kind.resolve_left (Registered.kind_apply_eq_none.not.mpr hother)
    rw [Evolves, hkind, hkind']
    by_cases hprogress : m.kind = .inProgress
    · rw [hprogress]
      cases m' with
      | building | built => exact .inl rfl
      | failing => exact .inr (.inr ⟨rfl, ⟨i, rfl⟩, .inr rfl⟩)
      | marked => exact .inr (.inr ⟨rfl, ⟨i, rfl⟩, .inl rfl⟩)
    · exact .inl (congrArg some (hdecided hprogress))
  · exact .inl (Registered.kind_apply_of_ne hne effect)

theorem Passes.of_same (hactive : t.active = s.active) {i : Step}
    (hstart : ∀ id req env, i ≠ .startBuild id req env)
    (hevolves : ∀ id, s.kind id ≠ none → Evolves s t i id) : Passes service s i t where
  accepted id := by
    rintro ⟨req, env, text, hi, -⟩
    exact absurd hi (hstart id req env)
  taken id ht hs := absurd (hactive ▸ ht) hs
  cleared id hs ht := absurd (hactive ▸ hs) ht
  evolves := hevolves

theorem Passes.of_known (hactive : t.active = s.active) (hknown : t.known = s.known) {i : Step}
    (hstart : ∀ id req env, i ≠ .startBuild id req env) : Passes service s i t := by
  refine .of_same hactive hstart fun id _ => .inl ?_
  simp only [State.kind, State.status, hknown]

theorem passes_startBuild (hr : Registered s) (hunused : s.Unused id) (req : BuildRequest)
    (env : Environment) :
    Passes service s (.startBuild id req env) (service.startBuild s id req env).2 := by
  have hevolves : ∀ other, s.kind other ≠ none →
      Evolves s (service.startBuild s id req env).2 (.startBuild id req env) other :=
    fun other => evolves_startBuild hr hunused req env
  obtain ⟨hsame, hrefused⟩ | ⟨hactive, hnone, hknown, text, haccepted⟩ :=
    startBuild_answer service s id req env
  · refine ⟨fun other => ?_, fun other ht hs => absurd (hsame ▸ ht) hs,
      fun other hs ht => absurd (hsame ▸ hs) ht, hevolves⟩
    rintro ⟨req', env', text, hi, hok⟩
    obtain ⟨rfl, rfl, rfl⟩ := Step.startBuild.inj hi
    exact absurd hok (hrefused text)
  · refine ⟨fun other => ?_, fun other ht hs => ?_, fun other hs ht => ?_, hevolves⟩
    · rintro ⟨req', env', text, hi, -⟩
      obtain ⟨rfl, rfl, rfl⟩ := Step.startBuild.inj hi
      refine ⟨hactive, ?_⟩
      have hkind := Registered.kind_pushKnown_self hunused
      rwa [State.kind, State.status, ← hknown] at hkind
    · obtain rfl : id = other := Option.some.inj (hactive.symm.trans ht)
      exact ⟨req, env, text, rfl, haccepted⟩
    · cases hnone.symm.trans hs

theorem passes_task (hr : Registered s) {i : TaskStep} (h : s.taskStep id i = some t) :
    Passes service s (.task id i) t := by
  have hevolves : ∀ other, s.kind other ≠ none → Evolves s t (.task id i) other :=
    fun other => evolves_task hr h
  obtain ⟨task, task', effect, htask, hstep, -, rfl⟩ := taskStep_eq_some h
  have hmove := Task.moves_of_step hstep
  by_cases hrelease : effect = .release
  · subst hrelease
    have hreleasing := (isActive_of_moves hmove).2 rfl
    have hown : s.active = some id := (hr.active id).mpr ⟨task, htask, by rw [hreleasing]; rfl⟩
    refine ⟨fun other => ?_, fun other ht => absurd ht nofun, fun other hs _ => ?_, hevolves⟩
    · rintro ⟨req, env, text, hi, -⟩
      cases hi
    · obtain rfl : id = other := Option.some.inj (hown.symm.trans hs)
      cases hmove with
      | releases hat => exact ⟨_, task, rfl, htask, hat⟩
  · have hsame : ((s.setTask id task').apply id effect).active = s.active :=
      Registered.active_apply hrelease
    exact .of_same hsame (fun _ _ _ hi => nomatch hi) hevolves

theorem Registered.passes (hr : Registered s) {i : Step} (h : RomBuild.step service s i = some t) :
    Passes service s i t := by
  cases changes_of_step h with
  | nothing hsame =>
    by_cases hstart : ∃ id req env, i = .startBuild id req env
    · obtain ⟨id, req, env, rfl⟩ := hstart
      obtain ⟨⟨-, hunused⟩, rfl⟩ := Transition.enabled_eq_some h
      exact passes_startBuild hr hunused req env
    · exact .of_known hsame.active hsame.known fun id req env hi => hstart ⟨id, req, env, hi⟩
  | starts hunused => exact passes_startBuild hr hunused ..
  | @subscribes id hactive =>
    have hstart : ∀ id' req env, Step.streamLogs id ≠ .startBuild id' req env := fun _ _ _ => nofun
    exact .of_known (by rfl) (by rfl) hstart
  | sends h =>
    have hstart : ∀ id req env, Step.send ≠ .startBuild id req env := fun _ _ _ => nofun
    obtain ⟨caller, id, task, -, -, -, rfl | ⟨-, rfl⟩⟩ := send_eq_some h
    · exact .of_known (by rfl) (by rfl) hstart
    · exact .of_known (by rfl) (by rfl) hstart
  | @reads i stream stream' hget hread =>
    have hstart : ∀ id req env, Step.read i ≠ .startBuild id req env := fun _ _ _ => nofun
    exact .of_known (by rfl) (by rfl) hstart
  | runs h => exact passes_task hr h

-- A harness that was spawned is remembered.
theorem tasks_of_step {i : Step} (h : RomBuild.step service s i = some t)
    (hid : s.tasks id ≠ none) : t.tasks id ≠ none := by
  have hset : ∀ (s : State) other task, s.tasks id ≠ none →
      (s.setTask other task).tasks id ≠ none := by
    intro s other task hid
    by_cases hne : id = other
    · subst hne
      simp
    · rwa [setTask_tasks_of_ne hne]
  cases changes_of_step h with
  | nothing h => rwa [h.tasks]
  | @starts other req env hunused =>
    obtain heq | ⟨-, heq | ⟨task, -, heq⟩⟩ := startBuild_cases service s other req env
    · rwa [heq]
    · rw [heq]
      exact hid
    · rw [heq]
      exact hset (s.pushKnown other) other _ hid
  | subscribes hactive => exact hid
  | sends h =>
    obtain ⟨caller, other, task, -, -, -, rfl | ⟨-, rfl⟩⟩ := send_eq_some h
    · exact hid
    · exact hset s other _ hid
  | reads hget hread => exact hid
  | runs h =>
    obtain ⟨task, task', effect, -, -, -, rfl⟩ := taskStep_eq_some h
    rw [apply_tasks]
    exact hset s _ _ hid

-- Nor does an entry that was dropped come again.
theorem kind_eq_none_of_step (hr : Registered s) {i : Step}
    (h : RomBuild.step service s i = some t) (hid : s.tasks id ≠ none) (hgone : s.kind id = none) :
    t.kind id = none := by
  cases changes_of_step h with
  | nothing h => rwa [State.kind, State.status, h.known]
  | @starts other req env hunused =>
    have hne : id ≠ other := by
      rintro rfl
      exact hid (Option.isNone_iff_eq_none.mp hunused.1)
    have hpushed : (s.pushKnown other).kind id = none :=
      (hr.kind_pushKnown_of_ne hunused hne).elim (fun hsame => hsame.trans hgone) fun hnone => hnone
    obtain heq | ⟨-, heq | ⟨task, -, heq⟩⟩ := startBuild_cases service s other req env
    · rwa [heq]
    · rwa [heq]
    · rw [heq]
      exact hpushed
  | subscribes hactive => exact hgone
  | sends h =>
    obtain ⟨caller, other, task, -, -, -, rfl | ⟨-, rfl⟩⟩ := send_eq_some h
    · exact hgone
    · exact hgone
  | reads hget hread => exact hgone
  | @runs other j t h =>
    obtain ⟨task, task', effect, -, -, -, rfl⟩ := taskStep_eq_some h
    by_cases hne : id = other
    · subst hne
      exact Registered.kind_apply_eq_none.mpr hgone
    · exact (Registered.kind_apply_of_ne hne effect).trans hgone

-- What was decided of a build: it stays, or the entry is dropped. The id is not used again.
structure Final (id : ℕ) (k : Kind) (s : State) : Prop where
  registered : Registered s
  started : s.tasks id ≠ none
  kind : s.kind id = some k ∨ s.kind id = none

theorem Final.step {k : Kind} (hk : k ≠ .inProgress) (hf : Final id k s) {i : Step}
    (h : RomBuild.step service s i = some t) : Final id k t := by
  have hr := hf.registered.step h
  refine ⟨hr, tasks_of_step h hf.started, ?_⟩
  obtain hkind | hgone := hf.kind
  · obtain hsame | ⟨-, hdropped⟩ | ⟨hprogress, -, -⟩ := (hf.registered.passes h).evolves id
      (hkind ▸ nofun)
    · exact .inl (hsame.trans hkind)
    · exact .inr hdropped
    · exact absurd (Option.some.inj (hkind.symm.trans hprogress)) hk
  · exact .inr (kind_eq_none_of_step hf.registered h hf.started hgone)

theorem Registered.final (hr : Registered s) {k : Kind} (hk : k ≠ .inProgress)
    (hkind : s.kind id = some k) : Final id k s := by
  refine ⟨hr, fun hnone => ?_, .inl hkind⟩
  obtain hgone | hprogress := hr.unstarted id hnone
  · cases hgone.symm.trans hkind
  · exact hk (Option.some.inj (hkind.symm.trans hprogress))

-- In every state of every run the registry is in order, every further step passes
-- `registry.active` on as it should, and what was decided of a build is never decided again.
theorem registry_in_order {steps : List Step}
    (hrun : Transition.path (RomBuild.step service) .initial steps = some t) :
    Orderly t ∧
      (∀ i u, RomBuild.step service t i = some u → Passes service t i u) ∧
      ∀ id k, k ≠ .inProgress → t.kind id = some k → ∀ rest u,
        Transition.path (RomBuild.step service) t rest = some u →
          u.kind id = some k ∨ u.kind id = none := by
  have hr := Registered.path hrun
  refine ⟨hr.orderly, fun i u h => hr.passes h, fun id k hk hkind rest u hu => ?_⟩
  have hfinal := Transition.path_invariant_of_step (Final id k) (fun _ _ _ hf h => hf.step hk h)
    (hr.final hk hkind) hu
  exact hfinal.kind

end Run

open Plain in
-- One build succeeds and the next one is stopped in its `bash` command.
def twoBuilds : List Step :=
  upToBash 0 ++ [.task 0 (.exits (.ok true))] ++ next 6 0 ++ [.startBuild 1 request env] ++
    next 22 1 ++ [.cancelBuild 1, .send, .task 1 .receive, .task 1 .stopped] ++ next 8 1

theorem registry_in_order_twoBuilds :
    ∃ t, Transition.path (step Plain.service) .initial twoBuilds = some t ∧
      (t.active = some 1 ∧ t.kind 0 = some .success ∧ t.kind 1 = some .failed) ∧
      Orderly t ∧
      (∀ i u, step Plain.service t i = some u → Passes Plain.service t i u) ∧
      ∀ id k, k ≠ .inProgress → t.kind id = some k → ∀ rest u,
        Transition.path (step Plain.service) t rest = some u →
          u.kind id = some k ∨ u.kind id = none := by
  obtain ⟨t, hpath, hreached⟩ := Transition.exists_path (step Plain.service) .initial twoBuilds
    (fun t => t.active = some 1 ∧ t.kind 0 = some .success ∧ t.kind 1 = some .failed)
    (by decide +kernel)
  exact ⟨t, hpath, hreached, registry_in_order hpath⟩

namespace BuildService

variable (service : BuildService) (req : BuildRequest) (env : Environment)

def Accepted (answer : Except Status BuildSubmission) : Prop :=
  ∃ submission, answer = .ok submission ∧ submission.accepted = true

-- The steps before the entry is pushed.
structure Admits : Prop where
  buildDir : env.pathExists service.buildDir = true ∨
    ∃ u, env.createDirAll service.buildDir = .ok u
  resolved : ∃ resolved, service.resolve req = .ok resolved
  variant : ∃ variant, romBuildVariant req.buildVariant = .ok variant

-- The steps after it. The script is written only for a request with a token.
def SecretsFail : Prop :=
  match env.createSecretDir service.tempDir with
  | .error _ => True
  | .ok secretDir => ∃ token, req.githubToken = some token ∧
      ((∃ e, env.write (secretDir.join "git-askpass.sh") (askpassScript token) = .error e) ∨
        ∃ e, env.setMode (secretDir.join "git-askpass.sh") 0o700 = .error e)

section Steps

variable {service : BuildService} {req : BuildRequest} {env : Environment} {s : State} {id : ℕ}

theorem checkRequest_ok_iff : (∃ found, service.checkRequest req env = .ok found) ↔
    service.Admits req env := by
  unfold checkRequest
  constructor
  · rintro ⟨found, hfound⟩
    split at hfound
    · next hmissing =>
      cases hcreate : env.createDirAll service.buildDir with
      | error e => rw [hcreate] at hfound; cases hfound
      | ok u =>
        rw [hcreate] at hfound
        cases hresolve : service.resolve req with
        | error e => rw [hresolve] at hfound; cases hfound
        | ok resolved =>
          cases hvariant : romBuildVariant req.buildVariant with
          | error e => rw [hresolve, hvariant] at hfound; cases hfound
          | ok variant => exact ⟨.inr ⟨u, hcreate⟩, ⟨_, hresolve⟩, ⟨_, hvariant⟩⟩
    · next hexists =>
      have hexists : env.pathExists service.buildDir = true := by simpa using hexists
      cases hresolve : service.resolve req with
      | error e => rw [hresolve] at hfound; cases hfound
      | ok resolved =>
        cases hvariant : romBuildVariant req.buildVariant with
        | error e => rw [hresolve, hvariant] at hfound; cases hfound
        | ok variant => exact ⟨.inl hexists, ⟨_, hresolve⟩, ⟨_, hvariant⟩⟩
  · rintro ⟨hdir, ⟨resolved, hresolve⟩, ⟨variant, hvariant⟩⟩
    rw [hresolve, hvariant]
    rcases hdir with hexists | ⟨u, hcreate⟩
    · rw [hexists]
      exact ⟨_, rfl⟩
    · rw [hcreate]
      split
      · exact ⟨_, rfl⟩
      · exact ⟨_, rfl⟩

theorem createSecrets_error_iff : (∃ status, service.createSecrets req env = .error status) ↔
    service.SecretsFail req env := by
  unfold createSecrets SecretsFail
  cases env.createSecretDir service.tempDir with
  | error e => exact ⟨fun _ => trivial, fun _ => ⟨_, rfl⟩⟩
  | ok secretDir =>
    cases req.githubToken with
    | none => exact ⟨fun ⟨_, h⟩ => (nomatch h), fun ⟨_, h, _⟩ => (nomatch h)⟩
    | some token =>
      simp only [Option.some.injEq, exists_eq_left']
      cases env.write (secretDir.join "git-askpass.sh") (askpassScript token) with
      | error e => exact ⟨fun _ => .inl ⟨e, rfl⟩, fun _ => ⟨_, rfl⟩⟩
      | ok u =>
        cases env.setMode (secretDir.join "git-askpass.sh") 0o700 with
        | error e => exact ⟨fun _ => .inr ⟨e, rfl⟩, fun _ => ⟨_, rfl⟩⟩
        | ok u' =>
          refine ⟨fun ⟨_, h⟩ => (nomatch h), ?_⟩
          rintro (⟨_, h⟩ | ⟨_, h⟩)
          · cases h
          · cases h

-- A call whose secrets fail has pushed its entry, which its new id tells apart from all others.
theorem known_of_secretsFail (hunused : s.Unused id) (hactive : s.active = none)
    (hadmits : service.Admits req env) (hfail : service.SecretsFail req env) :
    ¬Accepted (service.startBuild s id req env).1 ∧
      (service.startBuild s id req env).2.known ≠ s.known := by
  obtain ⟨⟨resolved, variant⟩, hcheck⟩ := checkRequest_ok_iff.mpr hadmits
  obtain ⟨status, hsecrets⟩ := createSecrets_error_iff.mpr hfail
  have hstart : service.startBuild s id req env = (.error status, s.pushKnown id) := by
    simp only [startBuild, hactive, Option.isSome_none, Bool.false_eq_true, if_false, hcheck,
      hsecrets]
  rw [hstart]
  refine ⟨fun ⟨_, h, _⟩ => (nomatch h), fun hknown => ?_⟩
  have hnew : (s.pushKnown id).status id = some .inProgress := status_pushKnown_new hunused
  have hnone : s.known.find? (·.id = id) = none :=
    List.find?_eq_none.mpr (by simpa using hunused.2.1)
  rw [State.status, hknown, hnone] at hnew
  cases hnew

-- Any other call that is not accepted has not come as far.
theorem startBuild_of_not_fails
    (hnot : ¬(s.active = none ∧ service.Admits req env ∧ service.SecretsFail req env)) :
    (service.startBuild s id req env).2 = s ∨ Accepted (service.startBuild s id req env).1 := by
  unfold startBuild
  split
  · exact .inl rfl
  · next hactive =>
    have hnone : s.active = none := Option.not_isSome_iff_eq_none.mp hactive
    split
    · exact .inl rfl
    · next resolved variant hcheck =>
      dsimp only
      split
      · next status hsecrets =>
        exact absurd ⟨hnone, checkRequest_ok_iff.mp ⟨_, hcheck⟩,
          createSecrets_error_iff.mp ⟨_, hsecrets⟩⟩ hnot
      · exact .inr ⟨_, rfl, rfl⟩

end Steps

theorem refused_leaves_registry_iff (service : BuildService) (s : State) (id : ℕ)
    (req : BuildRequest) (env : Environment) (hunused : s.Unused id) :
    (¬Accepted (service.startBuild s id req env).1 →
      (service.startBuild s id req env).2.active = s.active ∧
        (service.startBuild s id req env).2.known = s.known) ↔
      ¬(s.active = none ∧ service.Admits req env ∧ service.SecretsFail req env) := by
  constructor
  · rintro hleaves ⟨hactive, hadmits, hfail⟩
    obtain ⟨hrefused, hknown⟩ := known_of_secretsFail hunused hactive hadmits hfail
    exact hknown (hleaves hrefused).2
  · intro hnot hrefused
    rcases startBuild_of_not_fails hnot with hsame | haccepted
    · rw [hsame]
      exact ⟨rfl, rfl⟩
    · exact absurd haccepted hrefused

-- The configuration has no entry for the request.
theorem refused_leaves_registry_unresolved :
    let service := { Plain.service with resolve := fun _ => .error ⟨.invalidArgument, "no ROM"⟩ }
    ¬Accepted (service.startBuild .initial 0 Plain.request Plain.env).1 ∧
      (service.startBuild .initial 0 Plain.request Plain.env).2.known = [] := by
  intro service
  have hrefused : ¬Accepted (service.startBuild .initial 0 Plain.request Plain.env).1 :=
    fun ⟨_, h, _⟩ => nomatch h
  refine ⟨hrefused, ((refused_leaves_registry_iff service .initial 0 Plain.request Plain.env
    (by decide)).mpr ?_ hrefused).2⟩
  rintro ⟨-, ⟨-, ⟨_, hresolve⟩, -⟩, -⟩
  cases hresolve

-- The directory for the secrets cannot be made.
theorem refused_entry_stays : ¬∀ (service : BuildService) (s : State) (id : ℕ) (req : BuildRequest)
    (env : Environment), s.Unused id → ¬Accepted (service.startBuild s id req env).1 →
      (service.startBuild s id req env).2.active = s.active ∧
        (service.startBuild s id req env).2.known = s.known := by
  intro h
  obtain ⟨-, hknown⟩ := h Plain.service .initial 0 Plain.request
    { Plain.env with createSecretDir := fun _ => .error "No space left on device" } (by decide)
    fun ⟨_, h, _⟩ => nomatch h
  exact absurd hknown (by decide +kernel)

end BuildService

end Glider.RomBuild

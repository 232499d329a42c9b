import Glider.RomBuild.Service

namespace Glider.RomBuild

open Glider.Lib

section Known

variable {l : List BuildEntry} {id other : ℕ}

theorem bounded_suffix {α : Type} (l : List α) : State.bounded l <:+ l := by
  unfold State.bounded
  exact List.drop_suffix ..

theorem map_id_updateKnown (change : BuildStatus → BuildStatus) :
    (State.updateKnown id change l).map (·.id) = l.map (·.id) := by
  induction l with
  | nil => rfl
  | cons entry rest ih =>
    unfold State.updateKnown
    split
    · rfl
    · rw [List.map_cons, List.map_cons, ih]

theorem find?_updateKnown_self (change : BuildStatus → BuildStatus) :
    ((State.updateKnown id change l).find? (·.id = id)).map (·.success) =
      ((l.find? (·.id = id)).map (·.success)).map change := by
  induction l with
  | nil => rfl
  | cons entry rest ih =>
    unfold State.updateKnown
    split
    · next hid => simp [hid]
    · next hid => simpa [hid] using ih

theorem find?_updateKnown_of_ne (h : other ≠ id) (change : BuildStatus → BuildStatus) :
    (State.updateKnown id change l).find? (·.id = other) = l.find? (·.id = other) := by
  induction l with
  | nil => rfl
  | cons entry rest ih =>
    unfold State.updateKnown
    split
    · next hid => simp [hid, h.symm]
    · by_cases hother : entry.id = other
      · simp [hother]
      · simpa [hother] using ih

-- An entry that is dropped for the history is gone.
theorem find?_suffix {l' : List BuildEntry} (hsuffix : l' <:+ l) (hnodup : (l.map (·.id)).Nodup) :
    l'.find? (·.id = id) = l.find? (·.id = id) ∨ l'.find? (·.id = id) = none := by
  obtain ⟨dropped, rfl⟩ := hsuffix
  cases hfirst : dropped.find? (·.id = id) with
  | none => exact .inl (by rw [List.find?_append, hfirst, Option.none_or])
  | some entry =>
    refine .inr (List.find?_eq_none.mpr fun entry' hentry' => ?_)
    rw [List.map_append, List.nodup_append] at hnodup
    have hid : entry.id = id := by simpa using List.find?_some hfirst
    have hne := hnodup.2.2 entry.id (List.mem_map_of_mem (List.mem_of_find?_eq_some hfirst))
      entry'.id (List.mem_map_of_mem hentry')
    rw [hid] at hne
    simpa using hne.symm

end Known

section Status

variable {s : State} {id other : ℕ}

theorem status_apply_status (change : BuildStatus → BuildStatus) :
    (s.apply id (.status change)).status id = (s.status id).map change :=
  find?_updateKnown_self change

theorem status_apply_of_ne (h : other ≠ id) (effect : Effect) :
    (s.apply id effect).status other = s.status other := by
  cases effect with
  | status change => exact congrArg (Option.map _) (find?_updateKnown_of_ne h change)
  | _ => rfl

theorem known_apply_map_id (effect : Effect) :
    (s.apply id effect).known.map (·.id) = s.known.map (·.id) := by
  cases effect with
  | status change => exact map_id_updateKnown change
  | _ => rfl

theorem pushKnown_nodup (hunused : s.Unused id) (hnodup : (s.known.map (·.id)).Nodup) :
    ((s.known ++ [(⟨id, .inProgress⟩ : BuildEntry)]).map (·.id)).Nodup := by
  rw [List.map_append, List.nodup_append]
  refine ⟨hnodup, by simp, ?_⟩
  intro a ha b hb
  obtain ⟨entry, hentry, rfl⟩ := List.mem_map.mp ha
  obtain rfl : b = id := by simpa using hb
  exact hunused.2.1 entry hentry

-- The entries of the other builds stay, or are dropped for the history.
theorem status_pushKnown_of_ne (hunused : s.Unused id) (hnodup : (s.known.map (·.id)).Nodup)
    (h : other ≠ id) :
    (s.pushKnown id).status other = s.status other ∨ (s.pushKnown id).status other = none := by
  have hsame : (s.known ++ [(⟨id, .inProgress⟩ : BuildEntry)]).find? (·.id = other) =
      s.known.find? (·.id = other) := by
    rw [List.find?_append]
    simp [h.symm]
  have hnodup := pushKnown_nodup hunused hnodup
  have hkept : (s.pushKnown id).known.find? (·.id = other) = _ ∨ _ :=
    find?_suffix (bounded_suffix _) hnodup
  obtain hfound | hgone := hkept
  · exact .inl (congrArg (Option.map _) (hfound.trans hsame))
  · exact .inr (congrArg (Option.map _) hgone)

theorem status_pushKnown_self (hunused : s.Unused id) :
    (s.pushKnown id).status id ≠ some .success := by
  intro hsuccess
  obtain ⟨entry, hfound, hentry⟩ := Option.map_eq_some_iff.mp hsuccess
  have hid : entry.id = id := by simpa using List.find?_some hfound
  have hmem := (bounded_suffix _).subset (List.mem_of_find?_eq_some hfound)
  obtain hold | hnew := List.mem_append.mp hmem
  · exact hunused.2.1 entry hold hid
  · rw [List.mem_singleton.mp hnew] at hentry
    cases hentry

end Status

-- The pipeline is past its end: nothing is recorded any more.
def Harness.isSettled : Harness → Bool
  | .running _ | .stopping _ => false
  | _ => true

-- What is left of the harness keeps to the order of the phases.
def Harness.Follows (id : ℕ) (m : Phase) : Harness → Prop
  | .running rest => rest.Meets (monitor id) Concluded m
  | .stopping next => m = .building ∧ (next (.ok false)).Meets (monitor id) Concluded .building
  | _ => True

-- The registry agrees with the phase `m` that the build is in.
structure Recorded (s : State) (id : ℕ) (task : Task) (m : Phase) : Prop where
  follows : task.harness.Follows id m
  built : task.built = true ↔ m ≠ .building
  unbuilt : m = .building → s.status id ≠ some .success ∧ ∀ upload ∈ s.uploads, upload.buildId ≠ id
  final : m = .marked ∨ task.harness.isSettled → s.status id ≠ some .inProgress

section Moves

variable {s t : State} {id other : ℕ} {task task' : Task} {m : Phase}

-- A step that touches neither the entries nor the uploads of a build.
theorem Recorded.frame (h : Recorded s id task m)
    (hstatus : t.status id = s.status id ∨ t.status id = none)
    (huploads : ∀ upload ∈ t.uploads, upload ∈ s.uploads ∨ upload.buildId ≠ id) :
    Recorded t id task m where
  follows := h.follows
  built := h.built
  unbuilt hm := by
    refine ⟨?_, fun upload hupload => ?_⟩
    rotate_left
    · exact (huploads upload hupload).elim ((h.unbuilt hm).2 upload) fun hne => hne
    obtain hsame | hgone := hstatus
    · rw [hsame]
      exact (h.unbuilt hm).1
    · simp [hgone]
  final hm := by
    obtain hsame | hgone := hstatus
    · rw [hsame]
      exact h.final hm
    · simp [hgone]

-- The entry of the build is written.
theorem Recorded.write (h : Recorded s id task m) {change : BuildStatus → BuildStatus}
    (hfollows : task'.harness.Follows id m) (hbuilt : task'.built = task.built)
    (hunbuilt : m = .building → ∀ st, change st ≠ .success)
    (hfinal : ∀ st, change st ≠ .inProgress) :
    Recorded ((s.setTask id task').apply id (.status change)) id task' m where
  follows := hfollows
  built := hbuilt ▸ h.built
  unbuilt hm := by
    refine ⟨?_, (h.unbuilt hm).2⟩
    rw [status_apply_status]
    intro hsuccess
    obtain ⟨st, -, hst⟩ := Option.map_eq_some_iff.mp hsuccess
    exact hunbuilt hm st hst
  final _ := by
    rw [status_apply_status]
    intro hprogress
    obtain ⟨st, -, hst⟩ := Option.map_eq_some_iff.mp hprogress
    exact hfinal st hst

-- The harness goes on and the registry stays.
theorem Recorded.go (h : Recorded s id task m) (hstatus : t.status id = s.status id)
    (huploads : t.uploads = s.uploads) (hfollows : task'.harness.Follows id m)
    (hbuilt : task'.built = task.built)
    (hsettled : task'.harness.isSettled → m = .marked ∨ task.harness.isSettled) :
    Recorded t id task' m where
  follows := hfollows
  built := hbuilt ▸ h.built
  unbuilt hm := by
    rw [hstatus, huploads]
    exact h.unbuilt hm
  final hm := by
    rw [hstatus]
    exact h.final (hm.elim .inl hsettled)

theorem follows_of_running {op : Op} {next : op.Answer → Pipeline Unit}
    (h : Recorded s id task m) (hat : task.harness = .running (.call op next)) :
    (monitor id).allows m op ∧ ∀ answer, (next answer).Meets (monitor id) Concluded
      ((monitor id).next m op answer) := by
  have hfollows := h.follows
  rw [hat] at hfollows
  exact hfollows

theorem next_runProcess (id : ℕ) (spec : CommandSpec) (outcome : Except BuildError Bool) :
    (monitor id).next .building (.runProcess spec) outcome =
      if spec.program == "bash" && outcome.toOption == some true then .built else .building := by
  match outcome with
  | .error e => simp [monitor, Except.toOption]
  | .ok false => simp [monitor, Except.toOption]
  | .ok true => simp [monitor, Except.toOption]

theorem Recorded.moves (h : Recorded s id task m) {i : TaskStep} {effect : Effect}
    (hmove : task.Moves i task' effect) :
    ∃ m', Recorded ((s.setTask id task').apply id effect) id task' m' := by
  cases hmove with
  | returns hat =>
    have hmarked := h.follows
    rw [hat] at hmarked
    exact ⟨m, h.go rfl rfl trivial rfl fun _ => .inl hmarked⟩
  | fails hat =>
    refine ⟨m, h.write trivial rfl (fun _ st => ?_) fun st => ?_⟩
    · cases st <;> simp [failedBy]
    · cases st <;> simp [failedBy]
  | observes hat | logs hat => exact ⟨m, h.go rfl rfl ((follows_of_running h hat).2 _) rfl nofun⟩
  | recordsFailure hat =>
    exact ⟨m, h.write ((follows_of_running h hat).2 _) rfl (by simp) (by simp)⟩
  | uploads hat =>
    obtain ⟨⟨rfl, -⟩, hnext⟩ := follows_of_running h hat
    exact ⟨.built, hnext (), h.built, nofun, nofun⟩
  | recordsSuccess hat =>
    obtain ⟨rfl, hnext⟩ := follows_of_running h hat
    refine ⟨.marked, hnext (), by simpa using h.built, nofun, fun _ => ?_⟩
    rw [status_apply_status]
    simp
  | announces hat => exact ⟨m, h.go rfl rfl trivial rfl fun _ => .inr (by rw [hat]; rfl)⟩
  | releases hat | ends hat => exact ⟨m, h.go rfl rfl trivial rfl fun _ => .inr (by rw [hat]; rfl)⟩
  | prints hat | printsLast hat => exact ⟨m, h.go rfl rfl h.follows rfl .inr⟩
  | @exits outcome spec next hat =>
    obtain ⟨rfl, hnext⟩ := follows_of_running h hat
    have hunbuilt : task.built = false := by simpa using h.built
    have hphase := next_runProcess id spec outcome
    refine ⟨(monitor id).next .building (.runProcess spec) outcome, hnext outcome, ?_, ?_, ?_⟩
    · rw [hphase, hunbuilt]
      split
      · next hbash => simpa using hbash
      · next hbash => simpa using hbash
    · exact fun _ => h.unbuilt rfl
    · rw [hphase]
      split <;> nofun
  | receives hat =>
    obtain ⟨rfl, hnext⟩ := follows_of_running h hat
    exact ⟨.building, h.go rfl rfl ⟨rfl, hnext (.ok false)⟩ rfl nofun⟩
  | stops hat =>
    have hfollows := h.follows
    rw [hat] at hfollows
    obtain ⟨rfl, hnext⟩ := hfollows
    exact ⟨.building, h.go rfl rfl hnext rfl nofun⟩

-- A build queues uploads under its own id.
theorem Recorded.uploads_apply (h : Recorded s id task m) {i : TaskStep} {effect : Effect}
    (hmove : task.Moves i task' effect) (hne : other ≠ id) :
    ∀ upload ∈ ((s.setTask id task').apply id effect).uploads,
      upload ∈ s.uploads ∨ upload.buildId ≠ other := by
  intro upload hupload
  cases hmove with
  | uploads hat =>
    obtain ⟨⟨-, hid⟩, -⟩ := follows_of_running h hat
    obtain hold | hnew := List.mem_append.mp ((bounded_suffix _).subset hupload)
    · exact .inl hold
    · rw [List.mem_singleton.mp hnew, hid]
      exact .inr hne.symm
  | _ => exact .inl hupload

end Moves

-- The registry agrees with every build that was ever started.
structure Inv (s : State) : Prop where
  nodup : (s.known.map (·.id)).Nodup
  recorded : ∀ id task, s.tasks id = some task → ∃ m, Recorded s id task m
  active : ∀ id, s.active = some id → ∃ task, s.tasks id = some task

namespace Inv

variable {service : BuildService} {s t : State} {id : ℕ}

theorem initial : Inv .initial := ⟨.nil, fun _ _ => nofun, fun _ => nofun⟩

theorem same (hi : Inv s) (hknown : t.known = s.known) (huploads : t.uploads = s.uploads)
    (htasks : t.tasks = s.tasks) (hactive : t.active = s.active) : Inv t where
  nodup := hknown ▸ hi.nodup
  recorded id task htask := by
    obtain ⟨m, hm⟩ := hi.recorded id task (htasks ▸ htask)
    refine ⟨m, hm.frame (.inl ?_) fun upload hupload => .inl (huploads ▸ hupload)⟩
    simp only [State.status, hknown]
  active id hid := by
    rw [htasks]
    exact hi.active id (hactive ▸ hid)

theorem pushKnown (hi : Inv s) (hunused : s.Unused id) : Inv (s.pushKnown id) where
  nodup := ((bounded_suffix _).sublist.map _).nodup (pushKnown_nodup hunused hi.nodup)
  recorded other task htask := by
    obtain ⟨m, hm⟩ := hi.recorded other task htask
    have hne : other ≠ id := by
      rintro rfl
      have hnone := hunused.1
      rw [show s.tasks other = some task from htask] at hnone
      cases hnone
    exact ⟨m, hm.frame (status_pushKnown_of_ne hunused hi.nodup hne) fun _ hold => .inl hold⟩
  active := hi.active

-- The task of one build changes, and the registry only for it.
theorem setTask (hi : Inv s) {task : Task} (hnodup : (t.known.map (·.id)).Nodup)
    (htasks : t.tasks = (s.setTask id task).tasks)
    (hself : ∃ m, Recorded t id task m)
    (hother : ∀ other ≠ id, t.status other = s.status other ∧
      ∀ upload ∈ t.uploads, upload ∈ s.uploads ∨ upload.buildId ≠ other)
    (hactive : ∀ other, t.active = some other → other = id ∨ s.active = some other) : Inv t where
  nodup := hnodup
  recorded other task' htask := by
    rw [htasks] at htask
    by_cases hne : other = id
    · subst hne
      rw [setTask_tasks_self, Option.some.injEq] at htask
      exact htask ▸ hself
    · rw [setTask_tasks_of_ne hne] at htask
      obtain ⟨m, hm⟩ := hi.recorded other task' htask
      exact ⟨m, hm.frame (.inl (hother other hne).1) (hother other hne).2⟩
  active other hother := by
    rw [htasks]
    by_cases hne : other = id
    · exact ⟨task, hne ▸ setTask_tasks_self task⟩
    · rw [setTask_tasks_of_ne hne]
      exact hi.active other ((hactive other hother).resolve_left hne)

theorem startBuild (hi : Inv s) (hunused : s.Unused id) (req : BuildRequest) (env : Environment) :
    Inv (service.startBuild s id req env).2 := by
  obtain heq | ⟨-, heq | ⟨task, rfl, heq⟩⟩ := startBuild_cases service s id req env
  · rwa [heq]
  · rw [heq]
    exact hi.pushKnown hunused
  · rw [heq]
    have hpushed := hi.pushKnown hunused
    refine hpushed.setTask hpushed.nodup rfl ⟨.building, ?_⟩ (fun other _ => ⟨rfl, fun _ => .inl⟩) ?_
    · refine ⟨meets_pipeline task, by simp, fun _ => ?_, nofun⟩
      exact ⟨status_pushKnown_self hunused, hunused.2.2.1⟩
    · exact fun other hother => .inl (Option.some.inj hother).symm

theorem task (hi : Inv s) {i : TaskStep} (h : s.taskStep id i = some t) : Inv t := by
  obtain ⟨task, task', effect, htask, hstep, -, rfl⟩ := taskStep_eq_some h
  obtain ⟨m, hm⟩ := hi.recorded id task htask
  have hmove := Task.moves_of_step hstep
  refine hi.setTask ?_ (apply_tasks effect) (hm.moves hmove) ?_ ?_
  · rw [known_apply_map_id]
    exact hi.nodup
  · intro other hne
    exact ⟨status_apply_of_ne hne effect, hm.uploads_apply hmove hne⟩
  · intro other hother
    have hactive : (s.setTask id task').active = some other := active_of_apply hother
    exact .inr hactive

theorem send (hi : Inv s) (h : s.send = some t) : Inv t := by
  obtain ⟨caller, id, task, -, hactive, htask, rfl | ⟨-, rfl⟩⟩ := send_eq_some h
  · exact hi.same rfl rfl rfl rfl
  · obtain ⟨m, hm⟩ := hi.recorded id task htask
    refine hi.setTask hi.nodup rfl ⟨m, ?_⟩ (fun other _ => ⟨rfl, fun _ => .inl⟩) fun _ => .inr
    exact hm.go rfl rfl hm.follows rfl .inr

theorem step (hi : Inv s) {i : Step} (h : RomBuild.step service s i = some t) : Inv t := by
  cases changes_of_step h with
  | nothing h => exact hi.same h.known h.uploads h.tasks h.active
  | starts hunused => exact hi.startBuild hunused ..
  | subscribes hactive => exact hi.same rfl rfl rfl rfl
  | sends h => exact hi.send h
  | reads hget hread => exact hi.same rfl rfl rfl rfl
  | runs h => exact hi.task h

theorem path {steps : List Step}
    (h : Transition.path (RomBuild.step service) .initial steps = some t) : Inv t :=
  Transition.path_invariant_of_step Inv (fun _ _ _ hi h => hi.step h) initial h

end Inv

end Glider.RomBuild

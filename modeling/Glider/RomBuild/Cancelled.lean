import Glider.RomBuild.Recorded

namespace Glider.RomBuild

open Glider.Lib

def Harness.runsBash : Harness → Bool
  | .running (.call (.runProcess spec) _) => spec.program == "bash"
  | _ => false

namespace State

def built (s : State) (id : ℕ) : Bool := (s.tasks id).any (·.built)

def runsBash (s : State) (id : ℕ) : Bool := (s.tasks id).any (·.harness.runsBash)

end State

-- No `cancel_build` gets its message through after the `bash` command of the build has exited with
-- success, and `bash` does not exit so after one has.
def Heeded (s : State) : Step → Prop
  | .send => s.holder = some .cancelBuild → s.active.any s.built = false
  | .task id (.exits (.ok true)) => id ∈ s.cancelled → s.runsBash id = false
  | _ => True

instance (s : State) (i : Step) : Decidable (Heeded s i) :=
  match i with
  | .send =>
    inferInstanceAs (Decidable (s.holder = some .cancelBuild → s.active.any s.built = false))
  | .task id (.exits (.ok true)) =>
    inferInstanceAs (Decidable (id ∈ s.cancelled → s.runsBash id = false))
  | .setSettings _ | .startBuild .. | .getStatus _ | .getBuildResult _ | .streamLogs _
  | .cancelBuild _ | .ctrlC | .hangUp | .read _ | .task _ (.next _) | .task _ (.output ..)
  | .task _ (.exits (.ok false)) | .task _ (.exits (.error _)) | .task _ .receive
  | .task _ .stopped => inferInstanceAs (Decidable True)

-- A build whose cancel was acknowledged has not got through its `bash` command.
def Unbuilt (s : State) : Prop :=
  ∀ id ∈ s.cancelled, ∃ task, s.tasks id = some task ∧ task.built = false

section Steps

variable {service : BuildService} {s t : State} {id : ℕ}

theorem built_of_moves {task task' : Task} {i : TaskStep} {effect : Effect}
    (h : task.Moves i task' effect) :
    task'.built = task.built ∨ i = .exits (.ok true) ∧ task.harness.runsBash = true := by
  cases h with
  | @exits outcome spec next hat =>
    cases hbash : spec.program == "bash" && outcome.toOption == some true with
    | false => exact .inl (by simp)
    | true =>
      obtain ⟨hprogram, houtcome⟩ := Bool.and_eq_true_iff.mp hbash
      refine .inr ⟨?_, by rw [hat]; exact hprogram⟩
      match outcome with
      | .ok true => rfl
  | _ => exact .inl rfl

-- The task of one build changes.
theorem Unbuilt.setTask (hs : Unbuilt s) {task : Task}
    (htasks : t.tasks = (s.setTask id task).tasks)
    (hself : id ∈ t.cancelled → task.built = false)
    (hcancelled : ∀ other ∈ t.cancelled, other = id ∨ other ∈ s.cancelled) : Unbuilt t := by
  intro other hother
  rw [htasks]
  by_cases hne : other = id
  · subst hne
    exact ⟨task, setTask_tasks_self task, hself hother⟩
  · rw [setTask_tasks_of_ne hne]
    exact hs other ((hcancelled other hother).resolve_left hne)

theorem Unbuilt.task (hs : Unbuilt s) {i : TaskStep} (hguard : Heeded s (.task id i))
    (h : s.taskStep id i = some t) : Unbuilt t := by
  obtain ⟨task, task', effect, htask, hstep, -, rfl⟩ := taskStep_eq_some h
  have hcancelled : ((s.setTask id task').apply id effect).cancelled = s.cancelled :=
    apply_cancelled effect
  refine hs.setTask (apply_tasks effect) ?_ fun other hother => .inr (hcancelled ▸ hother)
  intro hid
  rw [hcancelled] at hid
  obtain ⟨task₀, htask₀, hunbuilt⟩ := hs id hid
  obtain rfl : task = task₀ := Option.some.inj (htask.symm.trans htask₀)
  obtain hsame | ⟨rfl, hbash⟩ := built_of_moves (Task.moves_of_step hstep)
  · rw [hsame]
    exact hunbuilt
  · have hquiet : s.runsBash id = false := hguard hid
    simp only [State.runsBash, htask, Option.any_some, hbash] at hquiet
    cases hquiet

theorem Unbuilt.startBuild (hs : Unbuilt s) (req : BuildRequest) (env : Environment) :
    Unbuilt (service.startBuild s id req env).2 := by
  obtain heq | ⟨-, heq | ⟨task, rfl, heq⟩⟩ := startBuild_cases service s id req env
  · rwa [heq]
  · rw [heq]
    exact hs
  · rw [heq]
    exact hs.setTask rfl (fun _ => rfl) fun _ => .inr

theorem Unbuilt.send (hs : Unbuilt s) (hguard : Heeded s .send) (h : s.send = some t) :
    Unbuilt t := by
  obtain ⟨caller, id, task, hholder, hactive, htask, rfl | ⟨-, rfl⟩⟩ := send_eq_some h
  · exact hs
  · cases caller with
    | ctrlC =>
      refine hs.setTask rfl (fun hid => ?_) fun _ => .inr
      obtain ⟨task₀, htask₀, hunbuilt⟩ := hs id hid
      obtain rfl : task = task₀ := Option.some.inj (htask.symm.trans htask₀)
      exact hunbuilt
    | cancelBuild =>
      refine hs.setTask rfl (fun _ => ?_) fun other hother => List.mem_cons.mp hother
      have hunbuilt := hguard hholder
      simpa [hactive, State.built, htask] using hunbuilt

theorem Unbuilt.step (hs : Unbuilt s) {i : Step} (hguard : Heeded s i)
    (h : RomBuild.step service s i = some t) : Unbuilt t := by
  cases changes_of_step h with
  | nothing h =>
    intro id hid
    rw [h.tasks]
    exact hs id (h.cancelled ▸ hid)
  | starts hunused => exact hs.startBuild _ _
  | subscribes hactive => exact hs
  | sends h => exact hs.send hguard h
  | reads hget hread => exact hs
  | runs h => exact hs.task hguard h

-- A cancelled build is recorded as a success in no state of a run whose steps are all heeded, and
-- nothing of it is queued for upload.
theorem cancelled_never_succeeds {steps : List Step}
    (hguard : Transition.Guarded (RomBuild.step service) Heeded .initial steps) :
    ∀ first u, first <+: steps →
      Transition.path (RomBuild.step service) .initial first = some u →
      ∀ id ∈ u.cancelled, u.status id ≠ some .success ∧
        ∀ upload ∈ u.uploads, upload.buildId ≠ id := by
  intro first u hfirst hpath id hid
  have hinitial : Unbuilt .initial := by simp [Unbuilt, State.initial]
  have hunbuilt : Unbuilt u := Transition.path_invariant Unbuilt
    (fun s i t hs hi h => Unbuilt.step hs hi h) hinitial (hguard.of_isPrefix hfirst) hpath
  obtain ⟨task, htask, hbuilt⟩ := hunbuilt id hid
  obtain ⟨m, hm⟩ := (Inv.path hpath).recorded id task htask
  refine hm.unbuilt ?_
  by_contra hphase
  rw [hm.built.mpr hphase] at hbuilt
  cases hbuilt

end Steps

open Plain in
-- The kill message stops the `bash` command.
def cancelInTime : List Step :=
  upToBash 0 ++ [.cancelBuild 0, .send, .task 0 .receive, .task 0 .stopped] ++ next 10 0

theorem cancelled_never_succeeds_in_time :
    ∃ t, Transition.path (step Plain.service) .initial cancelInTime = some t ∧ 0 ∈ t.cancelled ∧
      t.status 0 ≠ some .success ∧ ∀ upload ∈ t.uploads, upload.buildId ≠ 0 := by
  obtain ⟨t, hpath, hcancelled⟩ := Transition.exists_path (step Plain.service) .initial cancelInTime
    (fun t => 0 ∈ t.cancelled) (by rfl)
  have hheeded : Transition.Guarded (step Plain.service) Heeded .initial cancelInTime := by
    decide +kernel
  exact ⟨t, hpath, hcancelled,
    cancelled_never_succeeds hheeded cancelInTime t List.prefix_rfl hpath 0 hcancelled⟩

section Submodule

open Plain

def manifestEnv : Environment :=
  { env with
    readDir := fun _ => .ok ["raven.xml"]
    readXml := fun _ => [.ok (.startElement "project"
      [("name", "kernel"), ("path", "kernel"), ("recurse_submodules", "true")])] }

def artifactEnv : Environment := { env with readDir := fun _ => .ok ["rom-1.zip"] }

-- A build with a local manifest is cancelled while it syncs a submodule.
def cancelledSync : List Step :=
  [.setSettings ⟨none, none, none, none, none, some true⟩, .startBuild 0 request env] ++ next 6 0 ++
    [.task 0 (.exits (.ok true))] ++ next 4 0 ++ List.replicate 4 (.task 0 (.next manifestEnv)) ++
    [.cancelBuild 0, .send, .task 0 .receive, .task 0 .stopped]

-- The sync is passed over, and the rest of the build succeeds.
def succeeds : List Step :=
  next 2 0 ++ [.task 0 (.exits (.ok true))] ++ next 23 0 ++ [.task 0 (.exits (.ok true))] ++
    next 1 0 ++ List.replicate 8 (.task 0 (.next artifactEnv))

theorem succeeds_after_cancel :
    ∃ s t, Transition.path (step service) .initial cancelledSync = some s ∧
      (0 ∈ s.cancelled ∧ s.status 0 = some .inProgress ∧ s.uploads = []) ∧
      Transition.path (step service) s succeeds = some t ∧
      t.status 0 = some .success ∧ ∃ upload ∈ t.uploads, upload.buildId = 0 := by
  obtain ⟨s, hs, hcancelled⟩ := Transition.exists_path (step service) .initial cancelledSync
    (fun s => 0 ∈ s.cancelled ∧ s.status 0 = some .inProgress ∧ s.uploads = []) (by decide +kernel)
  obtain ⟨t, ht, hsuccess⟩ := Transition.exists_path (step service) .initial
    (cancelledSync ++ succeeds) (fun t => t.status 0 = some .success ∧
      ∃ upload ∈ t.uploads, upload.buildId = 0) (by decide +kernel)
  obtain ⟨s', hs', ht⟩ := Transition.path_append_eq_some.mp ht
  obtain rfl : s = s' := Option.some.inj (hs.symm.trans hs')
  exact ⟨s, t, hs, hcancelled, ht, hsuccess⟩

end Submodule

end Glider.RomBuild

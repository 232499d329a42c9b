import Glider.RomBuild.Service

namespace Glider.RomBuild

open Glider.Lib

def Harness.isAnnouncing : Harness → Bool
  | .announcing _ => true
  | _ => false

def Harness.isReleasing : Harness → Bool
  | .releasing => true
  | _ => false

namespace State

-- The harness of the active build waits for `registry.active`, and will not read the message that
-- is left in its kill channel.
def clogged (s : State) : Bool :=
  s.active.any fun id => (s.tasks id).any fun task => task.pending && task.harness.isReleasing

-- Someone holds `registry.active` and waits for room in the kill channel of a harness that waits
-- for `registry.active`.
def LockedUp (s : State) : Prop := s.holder.isSome ∧ s.clogged = true

instance (s : State) : Decidable s.LockedUp := inferInstanceAs (Decidable (_ ∧ _))

-- The harness is about to announce its end with a message in its kill channel.
def leavesMessage (s : State) (id : ℕ) : Bool :=
  s.active == some id && (s.tasks id).any fun task => task.pending && task.harness.isAnnouncing

end State

-- Nobody takes `registry.active` to send where a message is left, and no harness announces its end
-- with a message left while somebody sends another.
def Unclogged (s : State) : Step → Prop
  | .cancelBuild id => s.active = some id → s.clogged = false
  | .ctrlC => s.clogged = false
  | .task id (.next _) => s.leavesMessage id = true → s.holder = none
  | _ => True

instance (s : State) (i : Step) : Decidable (Unclogged s i) :=
  match i with
  | .cancelBuild id => inferInstanceAs (Decidable (s.active = some id → s.clogged = false))
  | .ctrlC => inferInstanceAs (Decidable (s.clogged = false))
  | .task id (.next _) =>
    inferInstanceAs (Decidable (s.leavesMessage id = true → s.holder = none))
  | .setSettings _ | .startBuild .. | .getStatus _ | .getBuildResult _ | .streamLogs _ | .send
  | .hangUp | .read _ | .task _ (.output ..) | .task _ (.exits _) | .task _ .receive
  | .task _ .stopped => inferInstanceAs (Decidable True)

section Steps

variable {service : BuildService} {s t : State}

theorem clogged_eq_true : s.clogged = true ↔ ∃ id task, s.active = some id ∧
    s.tasks id = some task ∧ task.pending = true ∧ task.harness = .releasing := by
  have hreleasing : ∀ h : Harness, h.isReleasing = true ↔ h = .releasing := by
    intro h
    cases h <;> simp [Harness.isReleasing]
  simp [State.clogged, Option.any_eq_true, hreleasing]

theorem leavesMessage_eq_true {id : ℕ} : s.leavesMessage id = true ↔ ∃ task res,
    s.active = some id ∧ s.tasks id = some task ∧ task.pending = true ∧
      task.harness = .announcing res := by
  have hannouncing : ∀ h : Harness, h.isAnnouncing = true ↔ ∃ res, h = .announcing res := by
    intro h
    cases h <;> simp [Harness.isAnnouncing]
  simp [State.leavesMessage, Option.any_eq_true, hannouncing]

-- Only a harness that announces its end comes to wait for `registry.active`.
theorem step_eq_releasing {task task' : Task} {effect : Effect} {i : TaskStep}
    (h : task.step i = some (task', effect)) (hreleasing : task'.harness = .releasing) :
    task'.pending = task.pending ∧ ∃ env res, i = .next env ∧ task.harness = .announcing res := by
  cases Task.moves_of_step h with
  | announces hat => exact ⟨rfl, _, _, rfl, hat⟩
  | prints hat | printsLast hat => cases hat.symm.trans hreleasing
  | _ => cases hreleasing

theorem not_lockedUp_of_holder (h : t.holder = none) : ¬t.LockedUp := by
  rintro ⟨hholder, -⟩
  rw [h] at hholder
  cases hholder

theorem lockedUp_task {id : ℕ} {i : TaskStep} (hs : ¬s.LockedUp)
    (h : s.taskStep id i = some t) : ¬t.LockedUp ↔ Unclogged s (.task id i) := by
  obtain ⟨task, task', effect, htask, hstep, -, rfl⟩ := taskStep_eq_some h
  constructor
  · intro hfree
    cases i with
    | next env =>
      intro hleaves
      obtain ⟨task₀, res, hactive, htask₀, hpending, hannouncing⟩ :=
        leavesMessage_eq_true.mp hleaves
      obtain rfl : task = task₀ := Option.some.inj (htask.symm.trans htask₀)
      simp only [Task.step, Task.next, hannouncing, Option.some.injEq, Prod.mk.injEq] at hstep
      obtain ⟨rfl, rfl⟩ := hstep
      by_contra hholder
      refine hfree ⟨?_, clogged_eq_true.mpr ⟨id, _, hactive, setTask_tasks_self _, hpending, rfl⟩⟩
      exact Option.isSome_iff_ne_none.mpr hholder
    | _ => exact trivial
  · rintro hguard ⟨hholder, hclogged⟩
    rw [apply_holder] at hholder
    obtain ⟨other, task₀, hactive, htask₀, hpending, hreleasing⟩ := clogged_eq_true.mp hclogged
    have hactive : (s.setTask id task').active = some other := active_of_apply hactive
    rw [apply_tasks] at htask₀
    by_cases hid : other = id
    · subst hid
      rw [setTask_tasks_self, Option.some.injEq] at htask₀
      subst htask₀
      obtain ⟨hkept, env, res, rfl, hannouncing⟩ := step_eq_releasing hstep hreleasing
      have hleaves : s.leavesMessage other = true :=
        leavesMessage_eq_true.mpr ⟨task, res, hactive, htask, hkept ▸ hpending, hannouncing⟩
      have hfree : s.holder = none := hguard hleaves
      exact Option.isSome_iff_ne_none.mp hholder hfree
    · rw [setTask_tasks_of_ne hid] at htask₀
      exact hs ⟨hholder, clogged_eq_true.mpr ⟨other, task₀, hactive, htask₀, hpending, hreleasing⟩⟩

theorem lockedUp_step {i : Step} (hs : ¬s.LockedUp) (h : step service s i = some t) :
    ¬t.LockedUp ↔ Unclogged s i := by
  cases i with
  | setSettings req =>
    obtain rfl := Option.some.inj h
    exact iff_of_true hs trivial
  | startBuild id req env =>
    obtain ⟨⟨hfree, -⟩, rfl⟩ := Transition.enabled_eq_some h
    refine iff_of_true (not_lockedUp_of_holder ?_) trivial
    obtain heq | ⟨-, heq | ⟨task, -, heq⟩⟩ := startBuild_cases service s id req env
    · rw [heq, hfree]
    · rw [heq]
      exact hfree
    · rw [heq]
      exact hfree
  | getStatus id =>
    obtain ⟨hfree, rfl⟩ := Transition.enabled_eq_some h
    exact iff_of_true hs trivial
  | getBuildResult id =>
    obtain rfl := Option.some.inj h
    exact iff_of_true hs trivial
  | streamLogs id =>
    obtain ⟨hfree, h⟩ := Option.ite_none_right_eq_some.mp h
    refine iff_of_true (not_lockedUp_of_holder ?_) trivial
    split at h
    · obtain rfl := Option.some.inj h
      exact hfree
    · obtain rfl := Option.some.inj h
      exact hfree
  | cancelBuild id =>
    obtain ⟨hfree, h⟩ := Option.ite_none_right_eq_some.mp h
    split at h
    · next hactive =>
      obtain rfl := Option.some.inj h
      simp [State.LockedUp, Unclogged, State.clogged, hactive]
    · next hactive =>
      obtain rfl := Option.some.inj h
      exact iff_of_true hs fun hid => absurd hid hactive
  | ctrlC =>
    obtain ⟨⟨hfree, -⟩, rfl⟩ := Transition.enabled_eq_some h
    cases hactive : s.active with
    | none | some id => simp [State.LockedUp, Unclogged, State.clogged, hactive]
  | send =>
    obtain ⟨caller, id, task, -, -, -, rfl | ⟨-, rfl⟩⟩ := send_eq_some h
    · exact iff_of_true (not_lockedUp_of_holder rfl) trivial
    · exact iff_of_true (not_lockedUp_of_holder rfl) trivial
  | hangUp =>
    obtain ⟨-, rfl⟩ := Transition.enabled_eq_some h
    exact iff_of_true (not_lockedUp_of_holder rfl) trivial
  | read i =>
    obtain ⟨stream, -, h⟩ := Option.bind_eq_some_iff.mp h
    obtain ⟨stream', -, rfl⟩ := Option.map_eq_some_iff.mp h
    exact iff_of_true hs trivial
  | task id i => exact lockedUp_task hs h

-- The service locks itself up in no state of a run exactly if every step of the run is unclogged.
theorem never_locked_up_iff {steps : List Step}
    (hrun : Transition.path (step service) .initial steps = some t) :
    (∀ first u, first <+: steps → Transition.path (step service) .initial first = some u →
      ¬u.LockedUp) ↔ Transition.Guarded (step service) Unclogged .initial steps := by
  have hstep : ∀ s i t, (fun _ : State => True) s → ¬s.LockedUp → step service s i = some t →
      True ∧ (¬t.LockedUp ↔ Unclogged s i) := fun s i t _ hs hstep =>
    ⟨trivial, lockedUp_step hs hstep⟩
  exact Transition.throughout_iff_guarded hstep trivial (not_lockedUp_of_holder rfl) hrun

end Steps

open Plain in
-- The second cancel comes while the first stops the `bash` command.
def twoCancels : List Step :=
  upToBash 0 ++ [.cancelBuild 0, .send, .task 0 .receive, .cancelBuild 0, .send, .task 0 .stopped] ++
    next 10 0

theorem never_locked_up_two_cancels :
    ∃ t, Transition.path (step Plain.service) .initial twoCancels = some t ∧
      ∀ first u, first <+: twoCancels →
        Transition.path (step Plain.service) .initial first = some u → ¬u.LockedUp := by
  have hrun : (Transition.path (step Plain.service) .initial twoCancels).isSome := by rfl
  obtain ⟨t, ht⟩ := Option.isSome_iff_exists.mp hrun
  exact ⟨t, ht, (never_locked_up_iff ht).mpr (by decide +kernel)⟩

open Plain in
-- Both cancels come when `bash` has exited. The first leaves its message in the channel, and the
-- second waits for room with `registry.active` locked.
def lateCancels : List Step :=
  upToBash 0 ++ [.task 0 (.exits (.ok true))] ++ next 4 0 ++ [.cancelBuild 0, .send] ++ next 1 0 ++
    [.cancelBuild 0]

theorem locks_itself_up :
    ∃ t, Transition.path (step Plain.service) .initial lateCancels = some t ∧ t.LockedUp :=
  Transition.exists_path _ _ _ _ (by rfl)

end Glider.RomBuild

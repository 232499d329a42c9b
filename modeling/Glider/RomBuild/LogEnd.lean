import Glider.RomBuild.Recorded

namespace Glider.RomBuild

open Glider.Lib

-- The final log entry is sent.
def Harness.isClosing : Harness → Bool
  | .releasing | .released | .ended => true
  | _ => false

-- The stream has ended, or will when it comes to the mark in what it has not read.
def Stream.Finished (stream : Stream) : Prop :=
  stream.ended = true ∨ ∃ entry ∈ stream.unread, entry.isFinished = true

-- No log stream of a build is open when a cancelled command of it has stopped.
def Unwatched (s : State) : Step → Prop
  | .task id .stopped => ∀ stream ∈ s.streams, stream.buildId = id → stream.ended = true
  | _ => True

instance (s : State) (i : Step) : Decidable (Unwatched s i) :=
  match i with
  | .task id .stopped =>
    inferInstanceAs (Decidable (∀ stream ∈ s.streams, stream.buildId = id → stream.ended = true))
  | .setSettings _ | .startBuild .. | .getStatus _ | .getBuildResult _ | .streamLogs _
  | .cancelBuild _ | .ctrlC | .send | .hangUp | .read _ | .task _ (.next _) | .task _ (.output ..)
  | .task _ (.exits _) | .task _ .receive => inferInstanceAs (Decidable True)

section Streams

variable {stream stream' : Stream} {id : ℕ} {entry : BuildLogEntry}

theorem buildId_deliver : (stream.deliver id entry).buildId = stream.buildId := by
  unfold Stream.deliver
  split
  · split <;> rfl
  · rfl

theorem finished_of_deliver (h : (stream.deliver id entry).Finished) :
    stream.Finished ∨ entry.isFinished = true ∧ stream.buildId = id ∧ stream.ended = false := by
  unfold Stream.deliver at h
  split at h
  case isFalse => exact .inl h
  case isTrue hopen =>
    have hunread : ∀ l : List BuildLogEntry, l ⊆ stream.unread →
        (∃ entry' ∈ l ++ [entry], entry'.isFinished = true) →
        stream.Finished ∨ entry.isFinished = true ∧ stream.buildId = id ∧ stream.ended = false := by
      rintro l hl ⟨entry', hentry', hfinished⟩
      obtain hold | hnew := List.mem_append.mp hentry'
      · exact .inl (.inr ⟨entry', hl hold, hfinished⟩)
      · rw [List.mem_singleton.mp hnew] at hfinished
        exact .inr ⟨hfinished, hopen⟩
    split at h
    · obtain hended | hmark := h
      · exact .inl (.inl hended)
      · exact hunread _ (List.Subset.refl _) hmark
    · obtain hended | hmark := h
      · exact .inl (.inl hended)
      · exact hunread _ (List.drop_subset 1 _) hmark

-- A stream ends at a mark, or when no sender is left.
theorem read_eq_some {closed : Bool} (h : stream.read closed = some stream') :
    stream'.buildId = stream.buildId ∧ (stream'.Finished → stream.Finished ∨ closed = true) := by
  unfold Stream.read at h
  split at h
  · cases h
  · split at h
    · obtain rfl := Option.some.inj h
      exact ⟨rfl, .inl⟩
    · split at h
      · next entry rest hunread =>
        have hentry : entry ∈ stream.unread := hunread ▸ List.mem_cons_self
        split at h
        · next hmark =>
          obtain rfl := Option.some.inj h
          exact ⟨rfl, fun _ => .inl (.inr ⟨entry, hentry, hmark⟩)⟩
        · obtain rfl := Option.some.inj h
          refine ⟨rfl, fun hfinished => .inl (hfinished.imp_right ?_)⟩
          rintro ⟨entry', hentry', hmark⟩
          exact ⟨entry', hunread ▸ List.mem_cons_of_mem entry hentry', hmark⟩
      · obtain ⟨hclosed, h⟩ := Option.ite_none_right_eq_some.mp h
        obtain rfl := Option.some.inj h
        exact ⟨rfl, fun _ => .inr hclosed⟩

end Streams

section Tasks

variable {task task' : Task} {i : TaskStep} {effect : Effect}

-- A harness that has sent its final entry records nothing and sends nothing more.
theorem closing_of_moves (h : task.Moves i task' effect) (hclosing : task.harness.isClosing = true) :
    task'.harness.isClosing = true ∧ (effect = .nothing ∨ effect = .release) := by
  cases h with
  | releases hat => exact ⟨rfl, .inr rfl⟩
  | ends hat => exact ⟨rfl, .inl rfl⟩
  | _ =>
    next hat =>
    rw [hat] at hclosing
    cases hclosing

-- The mark is sent by the end of the harness, and by a command that a kill message has stopped.
theorem closing_of_mark {entry : BuildLogEntry} (h : task.Moves i task' (.log entry))
    (hmark : entry.isFinished = true) : task'.harness.isClosing = true ∨ i = .stopped := by
  cases h with
  | logs hat => cases hmark
  | announces hat => exact .inl rfl
  | prints hat | printsLast hat => cases hmark
  | stops hat => exact .inr rfl

theorem settled_of_closing {harness : Harness} (h : harness.isClosing = true) :
    harness.isSettled = true := by
  cases harness <;> first | rfl | cases h

end Tasks

-- A stream comes to its end only after the final entry of its build.
def Closing (s : State) : Prop :=
  ∀ stream ∈ s.streams, ∃ task, s.tasks stream.buildId = some task ∧
    (stream.Finished → task.harness.isClosing = true)

section Steps

variable {service : BuildService} {s t : State} {id : ℕ}

-- The task of a build goes on, and every stream finds its build there.
theorem Closing.setTask (hs : Closing s) {task task' : Task} (htask : s.tasks id = some task)
    (hclosing : task.harness.isClosing = true → task'.harness.isClosing = true) :
    Closing (s.setTask id task') := by
  intro stream hstream
  obtain ⟨task₀, htask₀, hfinished⟩ := hs stream hstream
  by_cases hid : stream.buildId = id
  · rw [hid, htask, Option.some.injEq] at htask₀
    subst htask₀
    exact ⟨task', by rw [hid, setTask_tasks_self], fun h => hclosing (hfinished h)⟩
  · exact ⟨task₀, by rw [setTask_tasks_of_ne hid, htask₀], hfinished⟩

theorem Closing.task (hs : Closing s) {i : TaskStep} (hguard : Unwatched s (.task id i))
    (h : s.taskStep id i = some t) : Closing t := by
  obtain ⟨task, task', effect, htask, hstep, -, rfl⟩ := taskStep_eq_some h
  have hmove := Task.moves_of_step hstep
  have hset := hs.setTask htask fun hclosing => (closing_of_moves hmove hclosing).1
  cases effect with
  | log entry =>
    intro stream hstream
    obtain ⟨before, hbefore, rfl⟩ := List.mem_map.mp hstream
    rw [buildId_deliver]
    obtain ⟨task₀, htask₀, hfinished⟩ := hset before hbefore
    refine ⟨task₀, htask₀, fun hafter => ?_⟩
    obtain hold | ⟨hmark, hid, hopen⟩ := finished_of_deliver hafter
    · exact hfinished hold
    · obtain hclosing | rfl := closing_of_mark hmove hmark
      · rw [hid, setTask_tasks_self, Option.some.injEq] at htask₀
        exact htask₀ ▸ hclosing
      · -- the guard says that the stream is not open
        have hended : before.ended = true := hguard before hbefore hid
        rw [hended] at hopen
        cases hopen
  | _ => exact hset

theorem Closing.startBuild (hs : Closing s) (hunused : s.Unused id) (req : BuildRequest)
    (env : Environment) : Closing (service.startBuild s id req env).2 := by
  obtain heq | ⟨-, heq | ⟨task, rfl, heq⟩⟩ := startBuild_cases service s id req env
  · rwa [heq]
  · rw [heq]
    exact hs
  · rw [heq]
    intro stream hstream
    obtain ⟨task₀, htask₀, hfinished⟩ := hs stream hstream
    have hne : stream.buildId ≠ task.id := hunused.2.2.2.1 stream hstream
    exact ⟨task₀, (setTask_tasks_of_ne hne _).trans htask₀, hfinished⟩

theorem closing_of_logClosed {task : Task} (htask : s.tasks id = some task)
    (hclosed : s.logClosed id = true) : task.harness.isClosing = true := by
  have hended : task.harness.isEnded = true := by
    simp only [State.logClosed, htask, Option.any_some, Bool.and_eq_true] at hclosed
    exact hclosed.2
  unfold Harness.isEnded at hended
  split at hended
  · next hat => rw [hat]; rfl
  · cases hended

theorem Closing.read (hs : Closing s) {i : ℕ} {stream stream' : Stream}
    (hget : s.streams[i]? = some stream)
    (hread : stream.read (s.logClosed stream.buildId) = some stream') :
    Closing { s with streams := s.streams.set i stream' } := by
  intro other hother
  obtain hold | rfl := List.mem_or_eq_of_mem_set hother
  · exact hs other hold
  · obtain ⟨task, htask, hfinished⟩ := hs stream (List.mem_of_getElem? hget)
    obtain ⟨hid, hend⟩ := read_eq_some hread
    rw [hid]
    refine ⟨task, htask, fun hafter => ?_⟩
    obtain hold | hclosed := hend hafter
    · exact hfinished hold
    · exact closing_of_logClosed htask hclosed

theorem Closing.send (hs : Closing s) (h : s.send = some t) : Closing t := by
  obtain ⟨caller, id, task, -, -, htask, rfl | ⟨-, rfl⟩⟩ := send_eq_some h
  · exact hs
  · exact hs.setTask htask fun hclosing => hclosing

theorem Closing.step (hi : Inv s) (hs : Closing s) {i : Step} (hguard : Unwatched s i)
    (h : RomBuild.step service s i = some t) : Closing t := by
  cases changes_of_step h with
  | nothing h =>
    intro stream hstream
    rw [h.tasks]
    exact hs stream (h.streams ▸ hstream)
  | starts hunused => exact hs.startBuild hunused _ _
  | subscribes hactive =>
    intro stream hstream
    obtain hold | hnew := List.mem_append.mp hstream
    · exact hs stream hold
    · rw [List.mem_singleton.mp hnew]
      obtain ⟨task, htask⟩ := hi.active _ hactive
      exact ⟨task, htask, by simp [Stream.Finished]⟩
  | sends h => exact hs.send h
  | reads hget hread => exact hs.read hget hread
  | runs h => exact hs.task hguard h

-- A build that has sent its final entry, with its status `st`: the entry stays or is dropped.
structure Closed (id : ℕ) (st : Option BuildStatus) (s : State) : Prop where
  inv : Inv s
  closing : ∃ task, s.tasks id = some task ∧ task.harness.isClosing = true
  status : s.status id = st ∨ s.status id = none

variable {st : Option BuildStatus}

theorem Closed.startBuild {other : ℕ} (hc : Closed id st s) (hunused : s.Unused other)
    (req : BuildRequest) (env : Environment) :
    Closed id st (service.startBuild s other req env).2 := by
  obtain ⟨task, htask, hclosing⟩ := hc.closing
  have hne : id ≠ other := by
    rintro rfl
    have hnone := hunused.1
    rw [htask] at hnone
    cases hnone
  have hpushed : (s.pushKnown other).status id = st ∨ (s.pushKnown other).status id = none := by
    obtain hsame | hgone := status_pushKnown_of_ne hunused hc.inv.nodup hne
    · rw [hsame]
      exact hc.status
    · exact .inr hgone
  have hinv : Inv (service.startBuild s other req env).2 := hc.inv.startBuild hunused req env
  obtain heq | ⟨-, heq | ⟨task', rfl, heq⟩⟩ := startBuild_cases service s other req env
  · rwa [heq]
  · rw [heq] at hinv ⊢
    exact ⟨hinv, hc.closing, hpushed⟩
  · rw [heq] at hinv ⊢
    exact ⟨hinv, ⟨task, (setTask_tasks_of_ne hne _).trans htask, hclosing⟩, hpushed⟩

theorem Closed.task {other : ℕ} (hc : Closed id st s) {i : TaskStep}
    (h : s.taskStep other i = some t) : Closed id st t := by
  have hinv := hc.inv.task h
  obtain ⟨task, htask, hclosing⟩ := hc.closing
  obtain ⟨task₀, task', effect, htask₀, hstep, -, rfl⟩ := taskStep_eq_some h
  by_cases hne : id = other
  · subst hne
    obtain rfl : task = task₀ := Option.some.inj (htask.symm.trans htask₀)
    obtain ⟨hclosing', heffect⟩ := closing_of_moves (Task.moves_of_step hstep) hclosing
    refine ⟨hinv, ⟨task', by simp, hclosing'⟩, ?_⟩
    obtain rfl | rfl := heffect
    · exact hc.status
    · exact hc.status
  · refine ⟨hinv, ⟨task, ?_, hclosing⟩, ?_⟩
    · rw [apply_tasks, setTask_tasks_of_ne hne, htask]
    · rw [status_apply_of_ne hne]
      exact hc.status

theorem Closed.send (hc : Closed id st s) (h : s.send = some t) : Closed id st t := by
  have hinv := hc.inv.send h
  obtain ⟨task, htask, hclosing⟩ := hc.closing
  obtain ⟨caller, other, task₀, -, -, htask₀, rfl | ⟨-, rfl⟩⟩ := send_eq_some h
  · exact ⟨hinv, hc.closing, hc.status⟩
  · refine ⟨hinv, ?_, hc.status⟩
    by_cases hne : id = other
    · subst hne
      obtain rfl : task = task₀ := Option.some.inj (htask.symm.trans htask₀)
      exact ⟨_, setTask_tasks_self _, hclosing⟩
    · exact ⟨task, (setTask_tasks_of_ne hne _).trans htask, hclosing⟩

theorem Closed.step (hc : Closed id st s) {i : Step} (h : RomBuild.step service s i = some t) :
    Closed id st t := by
  have hinv := hc.inv.step h
  cases changes_of_step h with
  | nothing h =>
    refine ⟨hinv, ?_, ?_⟩
    · rw [h.tasks]
      exact hc.closing
    · rw [State.status, h.known]
      exact hc.status
  | starts hunused => exact hc.startBuild hunused _ _
  | subscribes hactive => exact ⟨hinv, hc.closing, hc.status⟩
  | sends h => exact hc.send h
  | reads hget hread => exact ⟨hinv, hc.closing, hc.status⟩
  | runs h => exact hc.task h

theorem status_of_stillInProgress (h : s.getBuildResult id = .error State.stillInProgress) :
    s.status id = some .inProgress := by
  unfold State.getBuildResult at h
  split at h
  · cases h
  · cases h
  · assumption
  · split at h <;> cases h

-- Once a log stream has ended in a run whose steps are all unwatched, the status of its build is
-- final: whatever comes after, it stays, until the entry is dropped from the history.
theorem status_final_after_stream {steps : List Step}
    (hguard : Transition.Guarded (RomBuild.step service) Unwatched .initial steps) :
    ∀ first u, first <+: steps →
      Transition.path (RomBuild.step service) .initial first = some u →
      ∀ stream ∈ u.streams, stream.ended = true →
        ∀ rest t, Transition.path (RomBuild.step service) u rest = some t →
          (t.status stream.buildId = u.status stream.buildId ∨ t.status stream.buildId = none) ∧
            t.getBuildResult stream.buildId ≠ .error State.stillInProgress := by
  intro first u hfirst hpath stream hstream hended rest t ht
  have hinitial : Closing .initial := by simp [Closing, State.initial]
  obtain ⟨hinv, hs⟩ : Inv u ∧ Closing u := Transition.path_invariant (fun s => Inv s ∧ Closing s)
    (fun s i t hs hi h => ⟨hs.1.step h, hs.2.step hs.1 hi h⟩) ⟨Inv.initial, hinitial⟩
    (hguard.of_isPrefix hfirst) hpath
  obtain ⟨task, htask, hfinished⟩ := hs stream hstream
  have hclosed : Closed stream.buildId (u.status stream.buildId) u :=
    ⟨hinv, ⟨task, htask, hfinished (.inl hended)⟩, .inl rfl⟩
  have hlater := Transition.path_invariant_of_step _ (fun _ _ _ hc h => Closed.step hc h) hclosed ht
  refine ⟨hlater.status, fun hprogress => ?_⟩
  obtain ⟨task', htask', hclosing⟩ := hlater.closing
  obtain ⟨m, hm⟩ := hlater.inv.recorded _ task' htask'
  exact hm.final (.inr (settled_of_closing hclosing)) (status_of_stillInProgress hprogress)

end Steps

open Plain in
def watched : List Step :=
  upToBash 0 ++ [.streamLogs 0, .task 0 (.exits (.ok true))] ++ next 5 0 ++
    [.read 0, .read 0, .read 0]

theorem status_final_after_stream_watched :
    ∃ t, Transition.path (step Plain.service) .initial watched = some t ∧
      ∃ stream ∈ t.streams, stream.buildId = 0 ∧ stream.ended = true ∧
        ∀ rest u, Transition.path (step Plain.service) t rest = some u →
          (u.status stream.buildId = t.status stream.buildId ∨ u.status stream.buildId = none) ∧
            u.getBuildResult stream.buildId ≠ .error State.stillInProgress := by
  obtain ⟨t, hpath, stream, hstream, hid, hended⟩ := Transition.exists_path (step Plain.service)
    .initial watched (fun t => ∃ stream ∈ t.streams, stream.buildId = 0 ∧ stream.ended = true)
    (by decide +kernel)
  have hguard : Transition.Guarded (step Plain.service) Unwatched .initial watched := by
    decide +kernel
  exact ⟨t, hpath, stream, hstream, hid, hended,
    status_final_after_stream hguard watched t List.prefix_rfl hpath stream hstream hended⟩

open Plain in
-- The stream ends at the mark that the stopped command sends. The harness has yet to record it.
def watchedCancel : List Step :=
  upToBash 0 ++ [.streamLogs 0, .cancelBuild 0, .send, .task 0 .receive, .task 0 .stopped, .read 0]

theorem in_progress_after_stream :
    ∃ t, Transition.path (step Plain.service) .initial watchedCancel = some t ∧
      (∃ stream ∈ t.streams, stream.buildId = 0 ∧ stream.ended = true) ∧
      t.getBuildResult 0 = .error State.stillInProgress := by
  obtain ⟨t, hpath, hstream, hstatus⟩ := Transition.exists_path (step Plain.service) .initial
    watchedCancel (fun t => (∃ stream ∈ t.streams, stream.buildId = 0 ∧ stream.ended = true) ∧
      t.status 0 = some .inProgress) (by decide +kernel)
  refine ⟨t, hpath, hstream, ?_⟩
  simp only [State.getBuildResult, hstatus]

end Glider.RomBuild

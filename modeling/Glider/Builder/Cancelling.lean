import Glider.Lib.Transition
import Mathlib.Logic.Function.Basic

namespace Glider.Builder.Cancelling

open Glider.Lib

-- The mutexes inside the handlers: the recursive one of the kernel handler, and that of `BuildState`.
inductive Mutex where
  | state
  | build
  deriving DecidableEq

-- What a handler does as far as it locks, waits or talks about a build.
inductive Op where
  | lock (m : Mutex)
  | unlock (m : Mutex)
  | prepare
  | start (buildId : ℕ)
  | stream (buildId : ℕ)
  | await (buildId : ℕ)
  | cancel (buildId : ℕ)
  deriving DecidableEq

-- A command module: what each callback or command does under `handler_mutex`, and which of them is
-- an authorized press of the "Cancel" button of a build.
structure Module (Job : Type) where
  body : Job → List Op
  cancels : Job → Option ℕ

inductive Phase (Job : Type) where
  | idle
  | queued (job : Job)
  | inside (rest : List Op)

structure State (Job : Type) where
  phase : ℕ → Phase Job
  handlerMutex : Option ℕ
  owner : Mutex → Option ℕ
  depth : Mutex → ℕ
  started : List ℕ
  running : List ℕ

inductive Step (Job : Type) where
  | arrive (t : ℕ) (job : Job)
  | enter (t : ℕ)
  | run (t : ℕ)
  | throw (t : ℕ)
  | leave (t : ℕ)
  | ends (buildId : ℕ)

section Machine

variable {Job : Type}

def State.initial : State Job := ⟨fun _ => .idle, none, fun _ => none, fun _ => 0, [], []⟩

def State.move (s : State Job) (t : ℕ) (phase : Phase Job) : State Job :=
  { s with phase := Function.update s.phase t phase }

-- The service gives every build an id of its own. A wait ends with the build, or when the
-- connection is lost.
def perform (s : State Job) (t : ℕ) : Op → Option (State Job)
  | .lock m =>
    if s.owner m = none ∨ s.owner m = some t then
      some { s with
        owner := Function.update s.owner m (some t)
        depth := Function.update s.depth m (s.depth m + 1) }
    else none
  | .unlock m =>
    some { s with
      owner := Function.update s.owner m (if s.depth m ≤ 1 then none else s.owner m)
      depth := Function.update s.depth m (s.depth m - 1) }
  | .start buildId =>
    if buildId ∈ s.started then none
    else some { s with
      started := buildId :: s.started
      running := buildId :: s.running }
  | _ => some s

-- What is left to unlock when an exception leaves the handler.
def unwind (rest : List Op) : List Op :=
  [Mutex.state, Mutex.build].flatMap fun m =>
    List.replicate (rest.count (.unlock m) - rest.count (.lock m)) (.unlock m)

-- The button of a build is there once it is started.
def step (mod : Module Job) : Transition (State Job) (Step Job)
  | s, .arrive t job =>
    match s.phase t with
    | .idle =>
      if ∀ buildId ∈ mod.cancels job, buildId ∈ s.started then some (s.move t (.queued job))
      else none
    | _ => none
  | s, .enter t =>
    match s.phase t with
    | .queued job =>
      if s.handlerMutex = none then
        some { s.move t (.inside (mod.body job)) with handlerMutex := some t }
      else none
    | _ => none
  | s, .run t =>
    match s.phase t with
    | .inside (op :: rest) => (perform s t op).map fun u => u.move t (.inside rest)
    | _ => none
  | s, .throw t =>
    match s.phase t with
    | .inside rest => some (s.move t (.inside (unwind rest)))
    | _ => none
  | s, .leave t =>
    match s.phase t with
    | .inside [] => some { s.move t .idle with handlerMutex := none }
    | _ => none
  | s, .ends buildId =>
    if buildId ∈ s.running then some { s with running := s.running.filter (· ≠ buildId) }
    else none

end Machine

section Cancel

variable {Job : Type} (mod : Module Job)

-- The thread has started the build and still waits for its end.
def Waits (s : State Job) (t buildId : ℕ) : Prop :=
  ∃ rest, s.phase t = .inside rest ∧ .await buildId ∈ rest ∧ .start buildId ∉ rest

-- A press of the "Cancel" button of a running build waits for the mutex of the thread that waits
-- for the build.
def Stuck (s : State Job) : Prop :=
  ∃ c job buildId t, s.phase c = .queued job ∧ mod.cancels job = some buildId ∧
    buildId ∈ s.running ∧ s.handlerMutex = some t ∧ Waits s t buildId

-- No "Cancel" button is pressed while its build runs and is waited for.
def Unhindered (s : State Job) : Step Job → Prop
  | .arrive _ job => ∀ buildId, mod.cancels job = some buildId →
      ¬(buildId ∈ s.running ∧ ∃ t, Waits s t buildId)
  | _ => True

structure Inv (s : State Job) : Prop where
  holder : ∀ t rest, s.phase t = .inside rest → s.handlerMutex = some t
  known : ∀ c job buildId, s.phase c = .queued job → mod.cancels job = some buildId →
    buildId ∈ s.started

variable {mod} {s u : State Job}

theorem phase_move_self (t : ℕ) (phase : Phase Job) : (s.move t phase).phase t = phase :=
  Function.update_self ..

theorem phase_move_of_ne {t c : ℕ} (h : c ≠ t) (phase : Phase Job) :
    (s.move t phase).phase c = s.phase c := Function.update_of_ne h ..

-- A step after which no press is new and no old build is waited for anew keeps the presses free.
theorem not_stuck_of (hi : Inv mod s) (hs : ¬Stuck mod s)
    (hqueued : ∀ c job, u.phase c = .queued job → s.phase c = .queued job)
    (hwaits : ∀ buildId ∈ s.started, buildId ∈ u.running → ∀ t, Waits u t buildId →
      buildId ∈ s.running ∧ Waits s t buildId) : ¬Stuck mod u := by
  rintro ⟨c, job, buildId, t, hc, hcancels, hrunning, -, hw⟩
  have hknown := hi.known c job buildId (hqueued c job hc) hcancels
  obtain ⟨hrunning', hw'⟩ := hwaits buildId hknown hrunning t hw
  obtain ⟨rest, hinside, -⟩ := id hw'
  exact hs ⟨c, job, buildId, t, hqueued c job hc, hcancels, hrunning', hi.holder t rest hinside, hw'⟩

-- No phase but that of one thread has changed, and that is no press.
theorem queued_of_move {t : ℕ} {phase : Phase Job} (hphase : ∀ job, phase ≠ .queued job) {c : ℕ}
    {job : Job} (h : (s.move t phase).phase c = .queued job) : s.phase c = .queued job := by
  by_cases hc : c = t
  · rw [hc, phase_move_self] at h
    exact absurd h (hphase job)
  · rwa [phase_move_of_ne hc] at h

theorem waits_of_move {t : ℕ} {phase : Phase Job} {t' buildId : ℕ}
    (hphase : ∀ rest, phase = .inside rest → .await buildId ∈ rest → .start buildId ∉ rest →
      Waits s t buildId)
    (h : Waits (s.move t phase) t' buildId) : Waits s t' buildId := by
  obtain ⟨rest, hinside, hawait, hstart⟩ := h
  by_cases ht : t' = t
  · subst ht
    rw [phase_move_self] at hinside
    exact hphase rest hinside hawait hstart
  · rw [phase_move_of_ne ht] at hinside
    exact ⟨rest, hinside, hawait, hstart⟩

theorem Inv.initial : Inv mod State.initial where
  holder := nofun
  known := by
    intro c job buildId hqueued
    cases hqueued

theorem Inv.arrive (hi : Inv mod s) (hs : ¬Stuck mod s) {t : ℕ} {job : Job}
    (h : step mod s (.arrive t job) = some u) :
    Inv mod u ∧ (¬Stuck mod u ↔ Unhindered mod s (.arrive t job)) := by
  simp only [step] at h
  split at h
  case h_2 => cases h
  case h_1 hidle =>
    obtain ⟨hbutton, rfl⟩ := Transition.enabled_eq_some h
    have hwaits : ∀ {t' buildId}, Waits (s.move t (.queued job)) t' buildId → Waits s t' buildId :=
      fun hw => waits_of_move (by rintro rest ⟨⟩) hw
    refine ⟨⟨?_, ?_⟩, ?_, ?_⟩
    · intro t' rest hinside
      by_cases ht : t' = t
      · rw [ht, phase_move_self] at hinside
        cases hinside
      · rw [phase_move_of_ne ht] at hinside
        exact hi.holder t' rest hinside
    · intro c job' buildId hqueued hcancels
      by_cases hc : c = t
      · rw [hc, phase_move_self] at hqueued
        obtain rfl := Phase.queued.inj hqueued
        exact hbutton buildId hcancels
      · rw [phase_move_of_ne hc] at hqueued
        exact hi.known c job' buildId hqueued hcancels
    · -- the press itself is stuck
      rintro hfree buildId hcancels ⟨hrunning, t', rest, hinside, hw⟩
      have ht : t' ≠ t := by
        rintro rfl
        rw [hidle] at hinside
        cases hinside
      refine hfree ⟨t, job, buildId, t', phase_move_self .., hcancels, hrunning,
        hi.holder t' rest hinside, rest, ?_, hw⟩
      rw [phase_move_of_ne ht]
      exact hinside
    · rintro hguard ⟨c, job', buildId, t', hqueued, hcancels, hrunning, hm, hw⟩
      by_cases hc : c = t
      · rw [hc, phase_move_self] at hqueued
        obtain rfl := Phase.queued.inj hqueued
        exact hguard buildId hcancels ⟨hrunning, t', hwaits hw⟩
      · rw [phase_move_of_ne hc] at hqueued
        exact hs ⟨c, job', buildId, t', hqueued, hcancels, hrunning, hm, hwaits hw⟩

theorem Inv.enter (hbody : ∀ job buildId, .await buildId ∈ mod.body job →
      .start buildId ∈ mod.body job) (hi : Inv mod s) (hs : ¬Stuck mod s) {t : ℕ}
    (h : step mod s (.enter t) = some u) : Inv mod u ∧ ¬Stuck mod u := by
  simp only [step] at h
  split at h
  case h_2 => cases h
  case h_1 job hqueued =>
    obtain ⟨hfree, rfl⟩ := Transition.enabled_eq_some h
    have hold : ∀ {c job'}, (s.move t (.inside (mod.body job))).phase c = .queued job' →
      s.phase c = .queued job' := fun hc => queued_of_move (nofun) hc
    refine ⟨⟨?_, ?_⟩, not_stuck_of hi hs (fun _ _ => hold) ?_⟩
    · intro t' rest hinside
      by_cases ht : t' = t
      · rw [ht]
      · have hinside' : s.phase t' = .inside rest := (phase_move_of_ne ht _).symm.trans hinside
        rw [hi.holder t' rest hinside'] at hfree
        cases hfree
    · intro c job' buildId hc hcancels
      exact hi.known c job' buildId (hold hc) hcancels
    · intro buildId _ hrunning t' hw
      refine ⟨hrunning, waits_of_move ?_ hw⟩
      rintro rest ⟨⟩ hawait hstart
      exact absurd (hbody job buildId hawait) hstart

-- What an operation can change besides the two inner mutexes.
theorem perform_eq_some {t : ℕ} {op : Op} (h : perform s t op = some u) :
    u.phase = s.phase ∧ u.handlerMutex = s.handlerMutex ∧
      (∀ buildId ∈ s.started, buildId ∈ u.started ∧ op ≠ .start buildId ∧
        (buildId ∈ u.running → buildId ∈ s.running)) := by
  cases op with
  | lock m =>
    obtain ⟨-, rfl⟩ := Transition.enabled_eq_some h
    exact ⟨rfl, rfl, fun _ hb => ⟨hb, by simp, id⟩⟩
  | start buildId =>
    simp only [perform] at h
    split at h
    · cases h
    · next hnew =>
      obtain rfl := Option.some.inj h
      refine ⟨rfl, rfl, fun other hother => ?_⟩
      have hne : other ≠ buildId := by
        rintro rfl
        exact hnew hother
      refine ⟨List.mem_cons_of_mem _ hother, ?_, ?_⟩
      · rintro ⟨⟩
        exact hne rfl
      · intro hrunning
        exact (List.mem_cons.mp hrunning).resolve_left hne
  | unlock m | prepare | stream buildId | await buildId | cancel buildId =>
    obtain rfl := Option.some.inj h
    exact ⟨rfl, rfl, fun _ hb => ⟨hb, by simp, id⟩⟩

-- A thread that is inside goes on with less to do.
theorem Inv.goOn (hi : Inv mod s) (hs : ¬Stuck mod s) {t : ℕ} {rest rest' : List Op} {v : State Job}
    (ht : s.phase t = .inside rest) (hphase : v.phase = s.phase)
    (hmutex : v.handlerMutex = s.handlerMutex)
    (hless : ∀ buildId ∈ s.started, buildId ∈ v.started ∧
      (buildId ∈ v.running → buildId ∈ s.running) ∧
      (.await buildId ∈ rest' → .start buildId ∉ rest' →
        .await buildId ∈ rest ∧ .start buildId ∉ rest)) :
    Inv mod (v.move t (.inside rest')) ∧ ¬Stuck mod (v.move t (.inside rest')) := by
  have hold : ∀ {c job}, (v.move t (.inside rest')).phase c = .queued job →
      s.phase c = .queued job := by
    intro c job hc
    rw [← hphase]
    exact queued_of_move (nofun) hc
  refine ⟨⟨?_, ?_⟩, not_stuck_of hi hs (fun _ _ => hold) ?_⟩
  · intro t' left hinside
    show v.handlerMutex = some t'
    rw [hmutex]
    by_cases hself : t' = t
    · rw [hself]
      exact hi.holder t rest ht
    · rw [phase_move_of_ne hself, hphase] at hinside
      exact hi.holder t' left hinside
  · intro c job buildId hc hcancels
    exact (hless buildId (hi.known c job buildId (hold hc) hcancels)).1
  · intro buildId hstarted hrunning t' hw
    obtain ⟨-, hrun, hops⟩ := hless buildId hstarted
    have hwaits : Waits v t' buildId := by
      refine waits_of_move ?_ hw
      rintro left ⟨⟩ hawait hstart
      exact ⟨rest, hphase ▸ ht, hops hawait hstart⟩
    obtain ⟨left, hinside, hleft⟩ := hwaits
    exact ⟨hrun hrunning, left, hphase ▸ hinside, hleft⟩

theorem Inv.run (hi : Inv mod s) (hs : ¬Stuck mod s) {t : ℕ}
    (h : step mod s (.run t) = some u) : Inv mod u ∧ ¬Stuck mod u := by
  simp only [step] at h
  split at h
  case h_2 => cases h
  case h_1 op rest hinside =>
    obtain ⟨v, hv, rfl⟩ := Option.map_eq_some_iff.mp h
    obtain ⟨hphase, hmutex, hbuilds⟩ := perform_eq_some hv
    refine hi.goOn hs hinside hphase hmutex ?_
    intro buildId hstarted
    obtain ⟨hkept, hop, hrun⟩ := hbuilds buildId hstarted
    refine ⟨hkept, hrun, fun hawait hstart => ⟨List.mem_cons_of_mem op hawait, ?_⟩⟩
    exact List.not_mem_cons_of_ne_of_not_mem hop.symm hstart

theorem await_notMem_unwind (rest : List Op) (buildId : ℕ) : .await buildId ∉ unwind rest := by
  intro h
  obtain ⟨m, -, hm⟩ := List.mem_flatMap.mp h
  exact absurd (List.eq_of_mem_replicate hm) (by simp)

theorem Inv.throw (hi : Inv mod s) (hs : ¬Stuck mod s) {t : ℕ}
    (h : step mod s (.throw t) = some u) : Inv mod u ∧ ¬Stuck mod u := by
  simp only [step] at h
  split at h
  case h_2 => cases h
  case h_1 rest hinside =>
    obtain rfl := Option.some.inj h
    refine hi.goOn hs hinside rfl rfl fun buildId hstarted => ⟨hstarted, id, ?_⟩
    exact fun hawait => absurd hawait (await_notMem_unwind rest buildId)

theorem Inv.leave (hi : Inv mod s) (hs : ¬Stuck mod s) {t : ℕ}
    (h : step mod s (.leave t) = some u) : Inv mod u ∧ ¬Stuck mod u := by
  simp only [step] at h
  split at h
  case h_2 => cases h
  case h_1 hinside =>
    obtain rfl := Option.some.inj h
    have hold : ∀ {c job}, (s.move t .idle).phase c = .queued job → s.phase c = .queued job :=
      fun hc => queued_of_move (nofun) hc
    refine ⟨⟨?_, ?_⟩, not_stuck_of hi hs (fun _ _ => hold) ?_⟩
    · intro t' rest hinside'
      by_cases ht : t' = t
      · rw [ht] at hinside'
        cases (phase_move_self (s := s) t .idle).symm.trans hinside'
      · -- two threads inside would both hold the mutex
        have hother := hi.holder t' rest ((phase_move_of_ne ht _).symm.trans hinside')
        rw [hi.holder t [] hinside, Option.some.injEq] at hother
        exact absurd hother.symm ht
    · intro c job buildId hc hcancels
      exact hi.known c job buildId (hold hc) hcancels
    · intro buildId _ hrunning t' hw
      exact ⟨hrunning, waits_of_move (by rintro rest ⟨⟩) hw⟩

theorem Inv.ends (hi : Inv mod s) (hs : ¬Stuck mod s) {buildId : ℕ}
    (h : step mod s (.ends buildId) = some u) : Inv mod u ∧ ¬Stuck mod u := by
  obtain ⟨-, rfl⟩ := Transition.enabled_eq_some h
  refine ⟨⟨hi.holder, hi.known⟩, not_stuck_of hi hs (fun _ _ hc => hc) ?_⟩
  intro other _ hrunning t hw
  exact ⟨(List.mem_filter.mp hrunning).1, hw⟩

theorem Inv.step (hbody : ∀ job buildId, .await buildId ∈ mod.body job →
      .start buildId ∈ mod.body job) (i : Step Job) (hi : Inv mod s) (hs : ¬Stuck mod s)
    (h : Cancelling.step mod s i = some u) : Inv mod u ∧ (¬Stuck mod u ↔ Unhindered mod s i) := by
  cases i with
  | arrive t job => exact hi.arrive hs h
  | enter t =>
    obtain ⟨hinv, hfree⟩ := hi.enter hbody hs h
    exact ⟨hinv, iff_of_true hfree trivial⟩
  | run t =>
    obtain ⟨hinv, hfree⟩ := hi.run hs h
    exact ⟨hinv, iff_of_true hfree trivial⟩
  | throw t =>
    obtain ⟨hinv, hfree⟩ := hi.throw hs h
    exact ⟨hinv, iff_of_true hfree trivial⟩
  | leave t =>
    obtain ⟨hinv, hfree⟩ := hi.leave hs h
    exact ⟨hinv, iff_of_true hfree trivial⟩
  | ends buildId =>
    obtain ⟨hinv, hfree⟩ := hi.ends hs h
    exact ⟨hinv, iff_of_true hfree trivial⟩

theorem never_stuck_iff (hbody : ∀ job buildId, .await buildId ∈ mod.body job →
      .start buildId ∈ mod.body job) {steps : List (Step Job)}
    (hp : Transition.path (Cancelling.step mod) .initial steps = some u) :
    (∀ first v, first <+: steps → Transition.path (Cancelling.step mod) .initial first = some v →
      ¬Stuck mod v) ↔ Transition.Guarded (Cancelling.step mod) (Unhindered mod) .initial steps := by
  have hinitial : Inv mod State.initial := Inv.initial
  refine Transition.throughout_iff_guarded ?_ hinitial ?_ hp
  · intro s i t hi hs hstep
    exact hi.step hbody i hs hstep
  · rintro ⟨c, job, buildId, t, hqueued, -⟩
    cases hqueued

end Cancel

section Modules

def locked (m : Mutex) (ops : List Op) : List Op := .lock m :: ops ++ [.unlock m]

-- The ways through `handle_continue`: there is no plan, the preparation fails, or the build is run.
inductive Continue where
  | expired
  | unprepared
  | built (buildId : ℕ)

def handleContinue : Continue → List Op
  | .expired => []
  | .unprepared => [.prepare]
  | .built buildId => [.prepare, .start buildId, .await buildId]

-- Without fragments `handle_select` goes on to `handle_continue`, with the recursive mutex locked.
inductive Select where
  | continue (c : Continue)
  | fragments

def handleSelectInternal : List Op := locked .state []

def handleSelect : Select → List Op
  | .continue c => locked .state (handleContinue c)
  | .fragments => locked .state handleSelectInternal

inductive KernelJob where
  | start
  | stage
  | build (select : Option Select)
  | select (s : Select)
  | enable
  | continue (c : Continue)
  | cancel (buildId : ℕ)
  | abort
  | unknown

def kernelBody : KernelJob → List Op
  | .start => locked .state []
  | .stage => locked .state []
  | .build none => locked .state []
  | .build (some s) => locked .state (handleSelect s)
  | .select s => handleSelect s
  | .enable => locked .state handleSelectInternal
  | .continue c => handleContinue c
  | .cancel buildId => [.cancel buildId]
  | .abort => locked .state []
  | .unknown => []

def kernelbuild : Module KernelJob where
  body := kernelBody
  cancels
    | .cancel buildId => some buildId
    | _ => none

-- `build.running()`, `build.id()`, `build.start()` and `build.finish()` lock for a moment.
def touchBuild : List Op := locked .build []

-- `streamUntilDone` opens the log again as often as it breaks off.
def streamUntilDone (buildId : ℕ) : ℕ → List Op
  | 0 => touchBuild ++ [.await buildId]
  | rounds + 1 => touchBuild ++ [.stream buildId] ++ streamUntilDone buildId rounds

inductive RomJob where
  | start
  | stage
  | confirm (started : Option (ℕ × ℕ))
  | cancel (buildId : ℕ)
  | other

def romBody : RomJob → List Op
  | .start => touchBuild
  | .stage => touchBuild
  | .confirm none => []
  | .confirm (some (buildId, rounds)) =>
    .start buildId :: touchBuild ++ streamUntilDone buildId rounds ++ touchBuild ++
      touchBuild ++ touchBuild
  | .cancel buildId => touchBuild ++ touchBuild ++ [.cancel buildId] ++ touchBuild
  | .other => []

def rombuild : Module RomJob where
  body := romBody
  cancels
    | .cancel buildId => some buildId
    | _ => none

theorem start_of_await_continue {c : Continue} {buildId : ℕ}
    (h : .await buildId ∈ handleContinue c) : .start buildId ∈ handleContinue c := by
  cases c with
  | expired | unprepared => simp [handleContinue] at h
  | built other =>
    obtain rfl : buildId = other := by simpa [handleContinue] using h
    simp [handleContinue]

theorem start_of_await_locked {m : Mutex} {ops : List Op} {buildId : ℕ}
    (hops : .await buildId ∈ ops → .start buildId ∈ ops) (h : .await buildId ∈ locked m ops) :
    .start buildId ∈ locked m ops := by
  have hinner : .await buildId ∈ ops := by simpa [locked] using h
  simp [locked, hops hinner]

theorem start_of_await_select {s : Select} {buildId : ℕ} (h : .await buildId ∈ handleSelect s) :
    .start buildId ∈ handleSelect s := by
  cases s with
  | «continue» c => exact start_of_await_locked start_of_await_continue h
  | fragments => simp [handleSelect, handleSelectInternal, locked] at h

-- Nobody waits for a build that was not started.
theorem start_of_await_kernel (job : KernelJob) (buildId : ℕ)
    (h : .await buildId ∈ kernelbuild.body job) : .start buildId ∈ kernelbuild.body job := by
  cases job with
  | build select =>
    cases select with
    | none => simp [kernelbuild, kernelBody, locked] at h
    | some s => exact start_of_await_locked start_of_await_select h
  | select s => exact start_of_await_select h
  | «continue» c => exact start_of_await_continue h
  | start | stage => simp [kernelbuild, kernelBody, locked] at h
  | enable => simp [kernelbuild, kernelBody, handleSelectInternal, locked] at h
  | cancel other => simp [kernelbuild, kernelBody] at h
  | abort => simp [kernelbuild, kernelBody, locked] at h
  | unknown => simp [kernelbuild, kernelBody] at h

theorem await_mem_streamUntilDone {buildId other rounds : ℕ}
    (h : .await buildId ∈ streamUntilDone other rounds) : buildId = other := by
  induction rounds with
  | zero => simpa [streamUntilDone, touchBuild, locked] using h
  | succ rounds ih =>
    apply ih
    simpa [streamUntilDone, touchBuild, locked] using h

theorem start_of_await_rom (job : RomJob) (buildId : ℕ) (h : .await buildId ∈ rombuild.body job) :
    .start buildId ∈ rombuild.body job := by
  cases job with
  | confirm started =>
    cases started with
    | none => simp [rombuild, romBody] at h
    | some run =>
      obtain ⟨other, rounds⟩ := run
      have hstream : .await buildId ∈ streamUntilDone other rounds := by
        simpa [rombuild, romBody, touchBuild, locked] using h
      obtain rfl := await_mem_streamUntilDone hstream
      simp [rombuild, romBody]
  | start | stage | cancel other => simp [rombuild, romBody, touchBuild, locked] at h
  | other => simp [rombuild, romBody] at h

-- A run of either command is free of such presses exactly if nobody presses "Cancel" while the
-- build runs.
theorem cancel_unhindered_iff {kernelSteps : List (Step KernelJob)} {kernelEnd : State KernelJob}
    {romSteps : List (Step RomJob)} {romEnd : State RomJob}
    (hkernel : Transition.path (step kernelbuild) .initial kernelSteps = some kernelEnd)
    (hrom : Transition.path (step rombuild) .initial romSteps = some romEnd) :
    ((∀ first v, first <+: kernelSteps →
        Transition.path (step kernelbuild) .initial first = some v → ¬Stuck kernelbuild v) ↔
      Transition.Guarded (step kernelbuild) (Unhindered kernelbuild) .initial kernelSteps) ∧
    ((∀ first v, first <+: romSteps →
        Transition.path (step rombuild) .initial first = some v → ¬Stuck rombuild v) ↔
      Transition.Guarded (step rombuild) (Unhindered rombuild) .initial romSteps) :=
  ⟨never_stuck_iff start_of_await_kernel hkernel, never_stuck_iff start_of_await_rom hrom⟩

-- "Cancel" is pressed when the build is over.
def kernelLate : List (Step KernelJob) :=
  [.arrive 0 (.continue (.built 1)), .enter 0, .run 0, .run 0, .ends 1, .run 0, .leave 0,
    .arrive 1 (.cancel 1), .enter 1, .run 1, .leave 1]

def romLate : List (Step RomJob) :=
  [.arrive 0 (.confirm (some (1, 0))), .enter 0, .run 0, .ends 1, .arrive 1 (.cancel 1)]

theorem cancel_unhindered_late :
    (∀ first v, first <+: kernelLate →
      Transition.path (step kernelbuild) .initial first = some v → ¬Stuck kernelbuild v) ∧
    ∀ first v, first <+: romLate →
      Transition.path (step rombuild) .initial first = some v → ¬Stuck rombuild v := by
  obtain ⟨u, hu⟩ : ∃ u, Transition.path (step kernelbuild) .initial kernelLate = some u := ⟨_, rfl⟩
  obtain ⟨v, hv⟩ : ∃ v, Transition.path (step rombuild) .initial romLate = some v := ⟨_, rfl⟩
  obtain ⟨hkernel, hrom⟩ := cancel_unhindered_iff hu hv
  refine ⟨hkernel.mpr ?_, hrom.mpr ?_⟩
  · exact ⟨nofun, trivial, trivial, trivial, trivial, trivial, trivial,
      fun _ _ h => absurd h.1 List.not_mem_nil, trivial, trivial, trivial, trivial⟩
  · exact ⟨nofun, trivial, trivial, trivial, fun _ _ h => absurd h.1 List.not_mem_nil, trivial⟩

-- A build is confirmed, runs, and somebody presses "Cancel".
def kernelCancelled : List (Step KernelJob) :=
  [.arrive 0 (.continue (.built 1)), .enter 0, .run 0, .run 0, .arrive 1 (.cancel 1)]

def romCancelled : List (Step RomJob) :=
  [.arrive 0 (.confirm (some (1, 0))), .enter 0, .run 0, .run 0, .run 0, .run 0, .run 0,
    .arrive 1 (.cancel 1)]

theorem cancel_hindered :
    (∃ u, Transition.path (step kernelbuild) .initial kernelCancelled = some u ∧
      Stuck kernelbuild u) ∧
    ∃ u, Transition.path (step rombuild) .initial romCancelled = some u ∧ Stuck rombuild u := by
  refine ⟨⟨_, rfl, 1, .cancel 1, 1, 0, rfl, rfl, ?_, rfl, _, rfl, ?_, ?_⟩,
    ⟨_, rfl, 1, .cancel 1, 1, 0, rfl, rfl, ?_, rfl, _, rfl, ?_, ?_⟩⟩
  all_goals decide

end Modules

end Glider.Builder.Cancelling

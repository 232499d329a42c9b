import Glider.KernelBuild.Registry

namespace Glider.KernelBuild

open Glider.Lib Glider.Lib.Threads State
open Glider.RomBuild (Path)

abbrev Point := State × List (ℕ × Event Call Op Op.Answer Status)

-- What a thread leaves alone on its way when nobody hears its reports.
structure Beside (t : ℕ) (s s' : Point) : Prop where
  lastId : s'.1.lastId = s.1.lastId
  buildStatuses : s'.1.buildStatuses = s.1.buildStatuses
  contextsLocked : s'.1.contextsLocked = s.1.contextsLocked
  streams : s'.1.streams = s.1.streams
  processes : ∀ u, u ≠ t → s'.1.processes u = s.1.processes u
  finished : finishedIds s'.2 = finishedIds s.2
  history : s.2 ⊆ s'.2

theorem Beside.refl (t : ℕ) (s : Point) : Beside t s s :=
  ⟨rfl, rfl, rfl, rfl, fun _ _ => rfl, rfl, fun _ => id⟩

theorem Beside.trans {t : ℕ} {s s' s'' : Point} (h : Beside t s s') (h' : Beside t s' s'') :
    Beside t s s'' where
  lastId := h'.lastId.trans h.lastId
  buildStatuses := h'.buildStatuses.trans h.buildStatuses
  contextsLocked := h'.contextsLocked.trans h.contextsLocked
  streams := h'.streams.trans h.streams
  processes u hu := (h'.processes u hu).trans (h.processes u hu)
  finished := h'.finished.trans h.finished
  history := fun _ hmem => h'.history (h.history hmem)

-- The statuses meet `fits` where they are pruned.
def AtPrune (fits : List PerBuildIdStatus → Prop) (s : State) : Op → Prop
  | .pruneKernelStatuses => fits s.buildStatuses
  | _ => True

abbrev RunsAlone {α : Type} (service : BuildService) (fits : List PerBuildIdStatus → Prop) (t : ℕ)
    (s : Point) (p : Build α) (s' : Point) (a : α) : Prop :=
  Threads.Runs (system service) (AtPrune fits) t s p s' a

section Single

variable {service : BuildService} {fits : List PerBuildIdStatus → Prop} {t : ℕ}

-- An operation that is answered at once, in a run of a thread on its own.
theorem runs_goes {α : Type} {op : Op} {s s' : Point} {shared : State} {answer : op.Answer}
    {next : op.Answer → Build α} {b : α} (env : Environment) (hfits : AtPrune fits s.1 op)
    (hperform : perform service s.1 t env op = some (shared, answer))
    (h : RunsAlone service fits t (shared, (t, .answers op answer) :: s.2) (next answer) s' b) :
    RunsAlone service fits t s (.call op next) s' b := by
  refine .answers (i := .goes env) hfits ?_ h
  exact Option.map_eq_some_iff.mpr ⟨(shared, answer), hperform, rfl⟩

theorem runs_command {α : Type} {spec : CommandSpec} {s s' : Point} {shared : State}
    {next : Except Status Bool → Build α} {b : α} (i : ProcessStep)
    (hstep : processStep service s.1 t spec i = some (shared, none))
    (h : RunsAlone service fits t (shared, s.2) (.call (.runProcess spec) next) s' b) :
    RunsAlone service fits t s (.call (.runProcess spec) next) s' b := by
  have hact : (system service).act s.1 t (.runProcess spec) (.process i) = some (shared, none) :=
    hstep
  exact .waits trivial hact h

theorem runs_exits {spec : CommandSpec} {s : Point} {shared : State} {result : Except Status Bool}
    (hstep : processStep service s.1 t spec (.exits result) = some (shared, some result)) :
    RunsAlone service fits t s (Build.perform (.runProcess spec))
      (shared, (t, .answers (.runProcess spec) result) :: s.2) result := by
  have hact : (system service).act s.1 t (.runProcess spec) (.process (.exits result)) =
      some (shared, some result) := hstep
  exact .answers trivial hact .pure

end Single

-- From every state the program can come to its end with `a`, and nothing is touched.
def Passes {α : Type} (service : BuildService) (fits : List PerBuildIdStatus → Prop) (t : ℕ)
    (p : Build α) (a : α) : Prop :=
  ∀ s : Point, ∃ s', RunsAlone service fits t s p s' a ∧ Beside t s s' ∧
    s'.1.processes t = s.1.processes t

namespace Passes

variable {α β : Type} {service : BuildService} {fits : List PerBuildIdStatus → Prop} {t : ℕ}
  {env : Environment}

theorem bind {p : Build α} {f : α → Build β} {a : α} {b : β} (hp : Passes service fits t p a)
    (hf : Passes service fits t (f a) b) : Passes service fits t (p >>= f) b := by
  intro s
  obtain ⟨s', hruns, hbeside, hprocess⟩ := hp s
  obtain ⟨s'', hruns', hbeside', hprocess'⟩ := hf s'
  exact ⟨s'', hruns.bind hruns', hbeside.trans hbeside', hprocess'.trans hprocess⟩

theorem pure (a : α) : Passes service fits t (.pure a) a := fun s => ⟨s, .pure, .refl t s, rfl⟩

theorem observe (f : Environment → α) (env : Environment) :
    Passes service fits t (Build.observe f) (f env) :=
  fun s => ⟨(s.1, (t, .answers .observe env) :: s.2), runs_goes env trivial rfl .pure,
    ⟨rfl, rfl, rfl, rfl, fun _ _ => rfl, rfl, List.subset_cons_self ..⟩, rfl⟩

theorem report (henv : env.connected = false) (status : ProgressStatus) (output : String) :
    Passes service fits t (Build.report status output) () := by
  intro s
  have hperform : perform service s.1 t env (.report ⟨status, output, none⟩) =
      some (s.1, ()) := by
    simp [perform, henv]
  exact ⟨(s.1, (t, .answers (.report ⟨status, output, none⟩) ()) :: s.2),
    runs_goes env trivial hperform .pure,
    ⟨rfl, rfl, rfl, rfl, fun _ _ => rfl, rfl, List.subset_cons_self ..⟩, rfl⟩

theorem cloneRepo (henv : env.outcome = .ok ()) (url branch : String) (dir : Path)
    (token : Option String) :
    Passes service fits t (Build.perform (.cloneRepo url branch dir token))
      (.ok () : Except String Unit) := by
  intro s
  have hperform : perform service s.1 t env (.cloneRepo url branch dir token) =
      some (s.1.setSources dir env, .ok ()) := by
    simp [perform, henv]
  exact ⟨(_, (t, .answers (.cloneRepo url branch dir token) (.ok ())) :: s.2),
    runs_goes env trivial hperform .pure,
    ⟨rfl, rfl, rfl, rfl, fun _ _ => rfl, rfl, List.subset_cons_self ..⟩, rfl⟩

end Passes

-- A machine on which nothing stands in the way of a request, and nobody listens.
structure Smooth (service : BuildService) (req : BuildPrepareRequest) (config : KernelConfig)
    (toolchain : Toolchain) (env : Environment) : Prop where
  found : env.kernelConfigs.find? (·.name = req.name) = some config
  device : req.deviceName ∈ config.defconfig.devices
  fragments : (req.configFragments.find? fun fragment =>
    !config.fragments.any fun f => f.name == fragment) = none
  suited : service.toolchains.find? (suits config) = some toolchain
  version : ∀ exe, (env.execVersion exe).isSome = true
  unopened : ∀ dir token, env.gitOpen dir token = false
  isDir : ∀ dir, env.isDir dir = true
  outcome : env.outcome = .ok ()
  quiet : env.connected = false

section Prepare

variable {service : BuildService} {fits : List PerBuildIdStatus → Prop} {req : BuildPrepareRequest}
  {config : KernelConfig} {toolchain : Toolchain} {env env' : Environment} {t : ℕ}

-- The registry with the next build listed.
def State.listed (s : State) : List PerBuildIdStatus :=
  s.buildStatuses ++ [⟨s.lastId + 1, .prepared, true⟩]

-- What a call of `prepare_build` that meets no obstacle comes to.
structure Registers (t : ℕ) (s s' : Point) : Prop where
  lastId : s'.1.lastId = s.1.lastId + 1
  buildStatuses : s'.1.buildStatuses = pruned s.1.listed
  contextsLocked : s'.1.contextsLocked = false
  success : ∃ output, ⟨.success, output, some (s.1.lastId + 1)⟩ ∈ s'.1.streams t
  streams : ∀ u, s.1.streams u ⊆ s'.1.streams u
  processes : ∀ u, u ≠ t → s'.1.processes u = s.1.processes u
  finished : finishedIds s'.2 = finishedIds s.2
  history : s.2 ⊆ s'.2

theorem Beside.listed {s s' : Point} (h : Beside t s s') : s'.1.listed = s.1.listed := by
  rw [State.listed, State.listed, h.buildStatuses, h.lastId]

theorem Registers.of_beside {s s' s'' : Point} (h : Beside t s s') (h' : Registers t s' s'') :
    Registers t s s'' where
  lastId := h'.lastId.trans (congrArg (· + 1) h.lastId)
  buildStatuses := by
    rw [← h.listed]
    exact h'.buildStatuses
  contextsLocked := h'.contextsLocked
  success := by
    rw [← h.lastId]
    exact h'.success
  streams u := by
    rw [← h.streams]
    exact h'.streams u
  processes u hu := (h'.processes u hu).trans (h.processes u hu)
  finished := h'.finished.trans h.finished
  history := fun _ hmem => h'.history (h.history hmem)

def Completes (service : BuildService) (fits : List PerBuildIdStatus → Prop) (t : ℕ)
    (p : Build Unit) : Prop :=
  ∀ s : Point, s.1.processes t = none → s.1.contextsLocked = false → s.1.lastId + 1 < 2 ^ 31 →
    fits s.1.listed → ∃ s', RunsAlone service fits t s p s' () ∧ Registers t s s'

theorem Completes.after {α : Type} {p : Build α} {f : α → Build Unit} {a : α}
    (hp : Passes service fits t p a) (hf : Completes service fits t (f a)) :
    Completes service fits t (p >>= f) := by
  intro s hprocess hlocked hlast hfits
  obtain ⟨s', hruns, hbeside, hsame⟩ := hp s
  obtain ⟨s'', hruns', hregisters⟩ := hf s' (hsame.trans hprocess)
    (hbeside.contextsLocked.trans hlocked) (hbeside.lastId ▸ hlast) (hbeside.listed ▸ hfits)
  exact ⟨s'', hruns.bind hruns', .of_beside hbeside hregisters⟩

theorem subset_put (s : State) (t u : ℕ) (status : BuildStatus) :
    s.streams u ⊆ (s.put t status).streams u := by
  by_cases hu : u = t
  · subst hu
    simp [State.put]
  · simp [State.put, hu]

variable (config toolchain)

theorem runs_register (service : BuildService) (req : BuildPrepareRequest)
    (henv : env'.connected = true) (sourceDir toolchainDir : Path) {s : Point}
    (hlocked : s.1.contextsLocked = false) (hlast : s.1.lastId + 1 < 2 ^ 31)
    (hfits : fits s.1.listed) :
    ∃ s', RunsAlone service fits t s (register req config toolchain sourceDir toolchainDir) s' () ∧
      Registers t s s' := by
  obtain ⟨s, history⟩ := s
  let context : BuildContext :=
    ⟨s.lastId + 1, config, toolchain, sourceDir, toolchainDir, req.deviceName, none, none⟩
  let s₁ : State := { s with lastId := s.lastId + 1 }
  let s₂ := s₁.updateContexts (· ++ [context])
  let s₃ := s₂.updateStatuses (· ++ [⟨s.lastId + 1, .prepared, true⟩])
  let s₄ := s₃.updateStatuses pruned
  have hissue : perform service s t env' .incAndGetBuildId = some (s₁, s.lastId + 1) :=
    if_pos hlast
  have hcontext : perform service s₁ t env' (.pushContext context) = some (s₂, ()) := by
    refine if_neg ?_
    simpa using hlocked
  have hreport (status : BuildStatus) :
      perform service s₄ t env' (.report status) = some (s₄.put t status, ()) := by
    simp [perform, henv]
  have hpruned : AtPrune fits s₃ .pruneKernelStatuses := hfits
  refine ⟨_, runs_goes env' trivial hissue (runs_goes env' trivial hcontext
    (runs_goes env' trivial rfl (runs_goes env' hpruned rfl
      (runs_goes env' trivial (hreport _) .pure)))), ?_⟩
  refine ⟨rfl, rfl, hlocked,
    ⟨s!"Build preparation completed successfully., Build ID: {s.lastId + 1}", ?_⟩,
    fun u => subset_put s₄ t u _, fun _ _ => rfl, rfl, ?_⟩
  · simp [State.put]
  · intro event hmem
    simp only [List.mem_cons]
    tauto

theorem passes_cloneSource (h : Smooth service req config toolchain env) (sourceDir : Path) :
    Passes service fits t (cloneSource req config sourceDir) (.ok ()) := by
  refine .bind (.observe _ env) ?_
  rw [h.unopened]
  have hclone : Passes service fits t (cloneFresh req "clone" config sourceDir) (.ok ()) :=
    .bind (.cloneRepo h.outcome _ _ _ _) (.bind (.report h.quiet _ _) (.pure _))
  exact .bind hclone (.bind (.report h.quiet _ _) (.pure _))

theorem passes_ensureOut (h : Smooth service req config toolchain env) (outPath : Path) :
    Passes service fits t (ensureOut outPath) () := by
  refine .bind (.observe _ env) ?_
  rw [h.isDir]
  exact .pure ()

-- `make` starts, writes `.config` and exits.
theorem runs_configure (service : BuildService) {spec : CommandSpec}
    (hgoal : spec.goal = .defconfig) {s : Point} (hprocess : s.1.processes t = none) :
    ∃ s', RunsAlone service fits t s (Build.perform (.runProcess spec)) s' (.ok true) ∧
      Beside t s s' := by
  obtain ⟨s, history⟩ := s
  have hprocess : s.processes t = none := hprocess
  let s₁ := s.startProcess t spec
  let process : Process :=
    ⟨spec, s.sources spec.dir, s.files (spec.outDir.join ".config"), .running⟩
  let s₂ := s₁.write t (spec.outDir.join ".config") .dotConfig
    (some (service.configure process.sources spec.args))
  have hstarted : s₁.processes t = some process := Function.update_self ..
  have hstart : processStep service s t spec .starts = some (s₁, none) := by
    simp only [processStep, hprocess, s₁]
  have hwrite : processStep service s₁ t spec (.writes "") = some (s₂, none) := by
    simp only [processStep, hstarted, process, State.makeWrites, hgoal, Option.map_some, s₂]
  have hexit : processStep service s₂ t spec (.exits (.ok true)) =
      some (s₂.endProcess t process, some (.ok true)) := by
    have hrunning : s₂.processes t = some process := hstarted
    simp only [processStep, hrunning, process]
  refine ⟨_, runs_command .starts hstart (runs_command (.writes "") hwrite (runs_exits hexit)), ?_⟩
  refine ⟨rfl, rfl, rfl, rfl, fun u hu => ?_, rfl, List.subset_cons_self ..⟩
  exact (Function.update_of_ne hu ..).trans (Function.update_of_ne hu ..)

theorem completes_makeDefconfig (h : Smooth service req config toolchain env)
    (henv : env'.connected = true) (sourceDir toolchainDir : Path) :
    Completes service fits t
      (makeDefconfig service req config toolchain sourceDir toolchainDir) := by
  refine .after (.report h.quiet _ _) (.after (.observe _ env) (.after (.observe _ env)
    (.after (passes_ensureOut config toolchain h _) ?_)))
  intro s hprocess hlocked hlast hfits
  let spec : CommandSpec := {
    goal := .defconfig
    dir := sourceDir
    args := defconfigArgs req config toolchain env.nproc
    env := config.envVars toolchainDir env.pathVariable
    logPath := service.tempDirectory.join s!"output-prepare-{config.name}.log"
    buildId := none
    killRx := none }
  have hgoal : spec.goal = .defconfig := rfl
  obtain ⟨s', hruns, hbeside⟩ := runs_configure service hgoal hprocess
  have hreported : Passes service fits t (Build.report .inProgressConfigure
      "make defconfig completed successfully.") () := .report h.quiet _ _
  obtain ⟨s₁, hreport, hbeside₁, -⟩ := hreported s'
  have hpassed := hbeside.trans hbeside₁
  obtain ⟨s₂, hregister, hregisters⟩ := runs_register config toolchain service req henv sourceDir
    toolchainDir (hpassed.contextsLocked.trans hlocked) (hpassed.lastId ▸ hlast)
    (hpassed.listed ▸ hfits)
  exact ⟨s₂, hruns.bind (hreport.bind hregister), .of_beside hpassed hregisters⟩

theorem completes_prepareSource (h : Smooth service req config toolchain env)
    (henv : env'.connected = true) (toolchainDir : Path) :
    Completes service fits t (prepareSource service req config toolchain toolchainDir) := by
  refine .after (.observe _ env) ?_
  obtain ⟨version, hversion⟩ := Option.isSome_iff_exists.mp
    (h.version ((toolchainDir.join "bin").join toolchain.exeName))
  rw [hversion]
  exact .after (.report h.quiet _ _) (.after (passes_cloneSource config toolchain h _)
    (.after (.report h.quiet _ _) (completes_makeDefconfig config toolchain h henv _ _)))

theorem completes_ensureToolchain (h : Smooth service req config toolchain env)
    (henv : env'.connected = true) :
    Completes service fits t (ensureToolchain service req config toolchain) := by
  refine .after (.observe _ env) ?_
  obtain ⟨version, hversion⟩ := Option.isSome_iff_exists.mp (h.version
    (((service.outputDirectory.join toolchain.name).join "bin").join toolchain.exeName))
  rw [hversion]
  exact .after (.report h.quiet _ _) (.after (.report h.quiet _ _)
    (completes_prepareSource config toolchain h henv _))

theorem completes_checkRequest (h : Smooth service req config toolchain env)
    (henv : env'.connected = true) :
    Completes service fits t (checkRequest service req config) := by
  refine .after (.report h.quiet _ _) ?_
  rw [if_neg (not_not.mpr h.device)]
  refine .after (.report h.quiet _ _) ?_
  rw [h.fragments]
  refine .after (.report h.quiet _ _) ?_
  rw [h.suited]
  exact completes_ensureToolchain config toolchain h henv

variable {config toolchain}

-- A call of `prepare_build` that meets no obstacle registers its build.
theorem completes_prepareBuild (h : Smooth service req config toolchain env)
    (henv : env'.connected = true) : Completes service fits t (prepareBuild service req) := by
  have htask : Completes service fits t (prepareTask service req) := by
    refine .after (.report h.quiet _ _) (.after (.observe _ env) (.after (.report h.quiet _ _) ?_))
    rw [h.found]
    exact completes_checkRequest _ _ h henv
  intro s hprocess hlocked hlast hfits
  obtain ⟨s', hruns, hregisters⟩ := htask s hprocess hlocked hlast hfits
  exact ⟨s', hruns.handle, hregisters⟩

end Prepare

section Sample

def eureka : KernelConfig where
  name := "Eureka Kernel"
  repo := ⟨"kernel_samsung_exynos7885", "EurekaV2"⟩
  arch := .arm64
  imageType := "Image"
  toolchains := ⟨true, true, true⟩
  anykernel := none
  defconfig := ⟨"exynos7885_defconfig", ["a10", "a20"]⟩
  fragments := [⟨"Device Specific", "\x7bdevice\x7d.config"⟩]
  env := [("SOME_ARCH", "arm64")]

def clang : Toolchain := ⟨.clang, 17, none, "clang", .arm64⟩

def sampleService : BuildService where
  toolchains := [clang]
  outputDirectory := "/out"
  tempDirectory := "/tmp"
  statusText e := e.message
  configure sources args := (String.intercalate " " (sources :: args)).toUTF8.toList
  makeOutput sources dotConfig _ := sources.toUTF8.toList ++ dotConfig.getD []
  zipped files dir := (files (dir.join "Image")).getD []

def machine (connected : Bool) : Environment where
  kernelConfigs := [eureka]
  nproc := 8
  pathVariable := "/bin"
  date := "2025-01-01_00-00-00"
  execVersion _ := some "clang version 17"
  cloneToDir _ _ := .ok ()
  pathExists _ := true
  isDir _ := true
  createDir _ := .ok ()
  gitOpen _ _ := false
  getRemoteUrl _ := .ok "kernel_samsung_exynos7885"
  revision := "EurekaV2"
  outcome := .ok ()
  spares _ := false
  connected := connected

def sampleRequest (device : String) : BuildPrepareRequest :=
  ⟨"Eureka Kernel", device, ["Device Specific"], none, false⟩

def goes (t n : ℕ) (env : Environment) : List Step := List.replicate n (.acts t (.goes env))

-- A call of `prepare_build` from its begin to its end, as thread `t`.
def preparing (t : ℕ) (device : String) : List Step :=
  .begins (.prepareBuild (sampleRequest device)) :: goes t 20 (machine true) ++
    [.acts t (.process .starts), .acts t (.process (.writes "")),
      .acts t (.process (.exits (.ok true)))] ++ goes t 6 (machine true) ++ [.ends t]

-- A call of `do_build` from its begin to the start of `make`.
def making (t id : ℕ) : List Step :=
  .begins (.doBuild id) :: goes t 10 (machine true) ++ [.acts t (.process .starts)]

-- `make` fails, and the build is marked before its failure is reported.
def failing (t id : ℕ) : List Step :=
  making t id ++ [.acts t (.process (.exits (.ok false)))] ++ goes t 3 (machine true) ++ [.ends t]

theorem smooth_machine :
    Smooth sampleService (sampleRequest "a10") eureka clang (machine false) where
  found := by decide
  device := by decide
  fragments := by decide
  suited := by decide +kernel
  version _ := rfl
  unopened _ _ := rfl
  isDir _ := rfl
  outcome := rfl
  quiet := rfl

end Sample

end Glider.KernelBuild

import Glider.KernelBuild.Service

namespace Glider.KernelBuild

open Glider.Lib
open Glider.RomBuild (Path)

-- `spec` is the command that made `out/.config`.
inductive PrepareStage where
  | preparing
  | configured (spec : CommandSpec)
  | issued (spec : CommandSpec) (id : ℕ)
  | known (spec : CommandSpec) (id : ℕ)
  | listed (spec : CommandSpec) (id : ℕ)
  deriving DecidableEq

inductive BuildStage where
  | asked
  | valid
  | refused
  | found (context : BuildContext)
  | claimed (context : BuildContext)
  | channelled (context : BuildContext) (kill : ℕ)
  | stored (context : BuildContext) (kill : ℕ)
  | making (context : BuildContext) (kill : ℕ)
  | broken
  | failing (context : BuildContext)
  | logged
  | made (context : BuildContext)
  | uncopied
  | copied (context : BuildContext)
  | zipped (context : BuildContext) (archive : Path)
  | announced (artifact : Path)
  | attached
  | marked (success : Bool)
  deriving DecidableEq

inductive CancelStage where
  | asked
  | valid
  | unfinished
  | sending (kill : ℕ)
  | sent
  | marked
  | refused
  deriving DecidableEq

inductive FetchStage where
  | asked
  | valid
  | finished
  | unfinished
  | found (context : BuildContext)
  | streaming (context : BuildContext)
  | refused
  deriving DecidableEq

-- `delivered` says whether the kill message has found a receiver.
inductive InterruptStage where
  | waiting
  | looked (active : Option (ℕ × ℕ))
  | told (active : Option (ℕ × ℕ)) (delivered : Bool)
  | done
  deriving DecidableEq

inductive Stage where
  | prepare (stage : PrepareStage)
  | build (id : ℕ) (stage : BuildStage)
  | cancel (id : ℕ) (stage : CancelStage)
  | fetch (id : ℕ) (stage : FetchStage)
  | interrupt (stage : InterruptStage)
  deriving DecidableEq

def Call.start : Call → Stage
  | .prepareBuild _ => .prepare .preparing
  | .doBuild id => .build id .asked
  | .cancelBuild id => .cancel id .asked
  | .getArtifact id => .fetch id .asked
  | .ctrlC => .interrupt .waiting

def anykernelDir (context : BuildContext) : Option Path :=
  context.config.anykernel.bind fun anykernel => anykernel.location.map context.workDir.join

-- What may be put on the stream of a call. A failure is reported when the build is marked as
-- failed, when the image could not be copied, or when the call is refused.
def Reports : Stage → BuildStatus → Prop
  | .prepare (.listed _ id), status => status.status = .success ∧ status.buildId = some id
  | .prepare _, status => status.status ≠ .success ∧ status.buildId = none
  | .build id stage, status =>
    status.buildId = some id ∧
      (status.status = .success → (∃ context, stage = .made context) ∨
        ∃ context archive, stage = .zipped context archive) ∧
      (status.status = .failed → stage = .refused ∨ stage = .uncopied ∨ stage = .marked false)
  | _, _ => False

def Runs : Stage → CommandSpec → Prop
  | .prepare .preparing, spec => spec.goal = .defconfig ∧ spec.killRx = none ∧ spec.buildId = none
  | .build id (.making context kill), spec =>
    spec.goal = .build ∧ spec.killRx = some kill ∧ spec.buildId = some id ∧
      spec.dir = context.workDir
  | _, _ => False

-- What each operation needs.
def Allows (service : BuildService) (m : Stage) : Op → Prop
  | .observe => True
  | .report status => Reports m status
  | .checkoutBranch _ _ | .fastForward _ | .cloneRepo _ _ _ _ | .removeDirAll _ =>
    m = .prepare .preparing
  | .runProcess spec => Runs m spec
  | .incAndGetBuildId => ∃ spec, m = .prepare (.configured spec)
  | .pushContext context => context.artifactPath = none ∧ context.killSignal = none ∧
      ∃ spec, m = .prepare (.issued spec context.id) ∧ context.workDir = spec.dir
  | .pushStatus entry => entry.lifecycle = .prepared ∧
      ∃ spec, m = .prepare (.known spec entry.buildId)
  | .pruneKernelStatuses => ∃ spec id, m = .prepare (.listed spec id)
  | .isValidBuildId id => m = .build id .asked ∨ m = .cancel id .asked ∨ m = .fetch id .asked
  | .isBuildFinished id => m = .cancel id .valid ∨ m = .fetch id .valid
  | .findContext id => m = .build id .valid ∨ m = .fetch id .finished
  | .claimPreparedBuild id => ∃ context, m = .build id (.found context)
  | .newKillChannel => ∃ id context, m = .build id (.claimed context)
  | .storeKillSignal id kill => ∃ context, m = .build id (.channelled context kill)
  | .spawn => (∃ id context kill, m = .build id (.stored context kill)) ∨
      ∃ id context, m = .fetch id (.found context)
  | .addArtifactPath id path => m = .build id (.announced path) ∨
      ∃ context, (m = .build id (.failing context) ∨ m = .build id (.made context)) ∧
        path = logFile service context
  | .markBuildFinished id success =>
    success = true ∧ m = .build id .attached ∨
      success = false ∧ (m = .build id .logged ∨ ∃ context, m = .build id (.made context))
  | .copy source dest => ∃ id context dir, m = .build id (.made context) ∧
      anykernelDir context = some dir ∧ source = kernelImage context ∧
      dest = dir.join context.config.imageType
  | .zipDir archive dir => ∃ id context date, m = .build id (.copied context) ∧
      anykernelDir context = some dir ∧ archive = archivePath context date
  | .removeFile path => ∃ id context archive dir, m = .build id (.zipped context archive) ∧
      anykernelDir context = some dir ∧ path = dir.join context.config.imageType
  | .findKillSignal id => m = .cancel id .unfinished
  | .sendKill kill => (∃ id, m = .cancel id (.sending kill)) ∨
      ∃ id, m = .interrupt (.looked (some (id, kill)))
  | .setFinished id => m = .cancel id .sent
  | .fileLen path | .openFile path | .streamFile path =>
    ∃ id context, m = .fetch id (.streaming context) ∧ context.artifactPath = some path
  | .sendChunk chunk => (∀ bytes, chunk ≠ .data bytes) ∧
      ∃ id context, m = .fetch id (.streaming context)
  | .lockContexts => m = .interrupt .waiting
  | .requestShutdown => m = .interrupt (.looked none) ∨
      ∃ active delivered, m = .interrupt (.told active delivered)

def nextPrepare : PrepareStage → (op : Op) → op.Answer → PrepareStage
  | .preparing, .runProcess spec, .ok true => .configured spec
  | .configured spec, .incAndGetBuildId, id => .issued spec id
  | .issued spec id, .pushContext _, _ => .known spec id
  | .known spec id, .pushStatus _, _ => .listed spec id
  | m, _, _ => m

def nextBuild : BuildStage → (op : Op) → op.Answer → BuildStage
  | .asked, .isValidBuildId _, valid => if valid then .valid else .refused
  | .valid, .findContext _, context => context.elim .refused .found
  | .found context, .claimPreparedBuild _, .ok _ => .claimed context
  | .found _, .claimPreparedBuild _, .error _ => .refused
  | .claimed context, .newKillChannel, kill => .channelled context kill
  | .channelled context kill, .storeKillSignal _ _, _ => .stored context kill
  | .stored context kill, .spawn, _ => .making context kill
  | .making context _, .runProcess _, .ok success => if success then .made context else .failing context
  | .making _ _, .runProcess _, .error _ => .broken
  | .failing _, .addArtifactPath _ _, _ => .logged
  | .made _, .addArtifactPath _ _, _ => .logged
  | .made _, .markBuildFinished _ success, _ => .marked success
  | .logged, .markBuildFinished _ success, _ => .marked success
  | .made context, .copy _ _, .ok _ => .copied context
  | .made _, .copy _ _, .error _ => .uncopied
  | .copied context, .zipDir archive _, .ok _ => .zipped context archive
  | .copied _, .zipDir _ _, .error _ => .broken
  | .made context, .report ⟨.success, _, _⟩, _ => .announced (kernelImage context)
  | .zipped _ archive, .report ⟨.success, _, _⟩, _ => .announced archive
  | .announced _, .addArtifactPath _ _, _ => .attached
  | .attached, .markBuildFinished _ success, _ => .marked success
  | m, _, _ => m

def nextCancel : CancelStage → (op : Op) → op.Answer → CancelStage
  | .asked, .isValidBuildId _, valid => if valid then .valid else .refused
  | .valid, .isBuildFinished _, finished => if finished then .refused else .unfinished
  | .unfinished, .findKillSignal _, kill => kill.elim .refused .sending
  | .sending _, .sendKill _, _ => .sent
  | .sent, .setFinished _, _ => .marked
  | m, _, _ => m

def nextFetch : FetchStage → (op : Op) → op.Answer → FetchStage
  | .asked, .isValidBuildId _, valid => if valid then .valid else .refused
  | .valid, .isBuildFinished _, finished => if finished then .finished else .unfinished
  | .finished, .findContext _, context => context.elim .refused .found
  | .found context, .spawn, _ => .streaming context
  | m, _, _ => m

def nextInterrupt : InterruptStage → (op : Op) → op.Answer → InterruptStage
  | .waiting, .lockContexts, active => .looked active
  | .looked active, .sendKill _, delivered => .told active delivered
  | .looked _, .requestShutdown, _ => .done
  | .told _ _, .requestShutdown, _ => .done
  | m, _, _ => m

def next : Stage → (op : Op) → op.Answer → Stage
  | .prepare stage, op, answer => .prepare (nextPrepare stage op answer)
  | .build id stage, op, answer => .build id (nextBuild stage op answer)
  | .cancel id stage, op, answer => .cancel id (nextCancel stage op answer)
  | .fetch id stage, op, answer => .fetch id (nextFetch stage op answer)
  | .interrupt stage, op, answer => .interrupt (nextInterrupt stage op answer)

-- What the answer to an operation can do to the stage of a build.
inductive BuildGoes : BuildStage → (op : Op) → op.Answer → BuildStage → Prop where
  | stays {m : BuildStage} {op : Op} {answer : op.Answer} : BuildGoes m op answer m
  | valid {id : ℕ} : BuildGoes .asked (.isValidBuildId id) true .valid
  | invalid {id : ℕ} : BuildGoes .asked (.isValidBuildId id) false .refused
  | unknown {id : ℕ} : BuildGoes .valid (.findContext id) none .refused
  | finds {id : ℕ} {context : BuildContext} :
      BuildGoes .valid (.findContext id) (some context) (.found context)
  | claims {id : ℕ} {context : BuildContext} {u : Unit} :
      BuildGoes (.found context) (.claimPreparedBuild id) (.ok u) (.claimed context)
  | unclaimed {id : ℕ} {context : BuildContext} {e : Status} :
      BuildGoes (.found context) (.claimPreparedBuild id) (.error e) .refused
  | channels {context : BuildContext} {kill : ℕ} :
      BuildGoes (.claimed context) .newKillChannel kill (.channelled context kill)
  | stores {context : BuildContext} {id kill kill' : ℕ} {u : Unit} :
      BuildGoes (.channelled context kill) (.storeKillSignal id kill') u (.stored context kill)
  | spawns {context : BuildContext} {kill : ℕ} {u : Unit} :
      BuildGoes (.stored context kill) .spawn u (.making context kill)
  | makes {context : BuildContext} {kill : ℕ} {spec : CommandSpec} :
      BuildGoes (.making context kill) (.runProcess spec) (.ok true) (.made context)
  | fails {context : BuildContext} {kill : ℕ} {spec : CommandSpec} :
      BuildGoes (.making context kill) (.runProcess spec) (.ok false) (.failing context)
  | breaks {context : BuildContext} {kill : ℕ} {spec : CommandSpec} {e : Status} :
      BuildGoes (.making context kill) (.runProcess spec) (.error e) .broken
  | logs {m : BuildStage} {context : BuildContext} {id : ℕ} {path : Path} {u : Unit}
      (hm : m = .failing context ∨ m = .made context) :
      BuildGoes m (.addArtifactPath id path) u .logged
  | marks {m : BuildStage} {id : ℕ} {success : Bool} {u : Unit}
      (hm : m = .logged ∨ m = .attached ∨ ∃ context, m = .made context) :
      BuildGoes m (.markBuildFinished id success) u (.marked success)
  | copies {context : BuildContext} {source dest : Path} {u : Unit} :
      BuildGoes (.made context) (.copy source dest) (.ok u) (.copied context)
  | miscopies {context : BuildContext} {source dest : Path} {e : String} :
      BuildGoes (.made context) (.copy source dest) (.error e) .uncopied
  | zips {context : BuildContext} {archive dir : Path} {u : Unit} :
      BuildGoes (.copied context) (.zipDir archive dir) (.ok u) (.zipped context archive)
  | miszips {context : BuildContext} {archive dir : Path} {e : String} :
      BuildGoes (.copied context) (.zipDir archive dir) (.error e) .broken
  | announces {m : BuildStage} {artifact : Path} {output : String} {buildId : Option ℕ} {u : Unit}
      (hm : (∃ context, m = .made context ∧ artifact = kernelImage context) ∨
        ∃ context, m = .zipped context artifact) :
      BuildGoes m (.report ⟨.success, output, buildId⟩) u (.announced artifact)
  | attaches {artifact : Path} {id : ℕ} {path : Path} {u : Unit} :
      BuildGoes (.announced artifact) (.addArtifactPath id path) u .attached

theorem goes_nextBuild (m : BuildStage) (op : Op) (answer : op.Answer) :
    BuildGoes m op answer (nextBuild m op answer) := by
  unfold nextBuild
  split
  case h_1 valid =>
    cases valid with
    | true => exact .valid
    | false => exact .invalid
  case h_2 context =>
    cases context with
    | none => exact .unknown
    | some context => exact .finds
  case h_3 => exact .claims
  case h_4 => exact .unclaimed
  case h_5 => exact .channels
  case h_6 => exact .stores
  case h_7 => exact .spawns
  case h_8 success =>
    cases success with
    | true => exact .makes
    | false => exact .fails
  case h_9 => exact .breaks
  case h_10 => exact .logs (.inl rfl)
  case h_11 => exact .logs (.inr rfl)
  case h_12 => exact .marks (.inr (.inr ⟨_, rfl⟩))
  case h_13 => exact .marks (.inl rfl)
  case h_14 => exact .copies
  case h_15 => exact .miscopies
  case h_16 => exact .zips
  case h_17 => exact .miszips
  case h_18 => exact .announces (.inl ⟨_, rfl, rfl⟩)
  case h_19 => exact .announces (.inr ⟨_, rfl⟩)
  case h_20 => exact .attaches
  case h_21 => exact .marks (.inr (.inl rfl))
  case h_22 => exact .stays

-- How a call comes to its end.
def Ends : Stage → Except Status Unit → Prop
  | .prepare _, result => result = .ok ()
  | .build _ stage, .ok _ => stage = .uncopied ∨ ∃ success, stage = .marked success
  | .build _ stage, .error _ => stage = .refused ∨ stage = .broken
  | .cancel _ stage, .ok _ => stage = .marked
  | .cancel _ stage, .error _ => stage = .refused
  | .fetch _ stage, .ok _ => ∃ context, stage = .streaming context
  | .fetch _ stage, .error e => stage = .refused ∧ e.code = .notFound ∨
      stage = .unfinished ∧ e.code = .failedPrecondition
  | .interrupt stage, result => stage = .done ∧ result = .ok ()

def discipline (service : BuildService) : Threads.Discipline Call Op Op.Answer Status Stage where
  monitor := ⟨Allows service, next⟩
  start := Call.start
  post := Ends

section Prepare

variable {α : Type} {service : BuildService}

abbrev Keeps (service : BuildService) (m : Stage) (p : Build α) : Prop :=
  p.Keeps (discipline service).monitor m

abbrev Meets (service : BuildService) (post : Stage → Except Status α → Prop) (p : Build α)
    (m : Stage) : Prop :=
  p.Meets (discipline service).monitor post m

theorem next_observe (m : Stage) (env : Environment) : next m .observe env = m := by
  cases m with
  | prepare stage => cases stage <;> rfl
  | build id stage | cancel id stage | fetch id stage | interrupt stage => cases stage <;> rfl

theorem keeps_observe {m : Stage} (f : Environment → α) : Keeps service m (Build.observe f) :=
  ⟨trivial, fun env => next_observe m env⟩

theorem keeps_report {status : ProgressStatus} (h : status ≠ .success) (output : String) :
    Keeps service (.prepare .preparing) (Build.report status output) :=
  ⟨⟨h, rfl⟩, fun _ => rfl⟩

-- A git operation is answered with or without an error.
theorem keeps_perform {op : Op} (hallows : Allows service (.prepare .preparing) op)
    (hnext : ∀ answer, nextPrepare .preparing op answer = .preparing) :
    Keeps service (.prepare .preparing) (Build.perform op) :=
  ⟨hallows, fun answer => congrArg Stage.prepare (hnext answer)⟩

-- An error is an early one: nothing has been configured yet.
def Prepares (service : BuildService) (p : Build Unit) : Prop :=
  Meets service (fun m r => match r with
    | .ok _ => ∃ stage, m = .prepare stage
    | .error _ => m = .prepare .preparing) p (.prepare .preparing)

theorem Prepares.of_keeps {p : Build Unit} (h : Keeps service (.prepare .preparing) p) :
    Prepares service p := by
  refine Program.Meets.mono ?_ h
  rintro m (e | a) rfl
  · rfl
  · exact ⟨_, rfl⟩

theorem Prepares.bind {p : Build α} {f : α → Build Unit}
    (hp : Keeps service (.prepare .preparing) p) (hf : ∀ a, Prepares service (f a)) :
    Prepares service (p >>= f) :=
  hp.meets_bind hf fun _ => rfl

theorem Prepares.throw (e : Status) : Prepares service (.throw e) := rfl

theorem prepares_report {status : ProgressStatus} (h : status ≠ .success) (output : String) :
    Prepares service (Build.report status output) := .of_keeps (keeps_report h output)

variable (req : BuildPrepareRequest) (config : KernelConfig) (toolchain : Toolchain)
  (sourceDir toolchainDir : Path)

theorem meets_register {spec : CommandSpec} (hdir : spec.dir = sourceDir) :
    Meets service (fun m r => r = .ok () ∧ ∃ stage, m = .prepare stage)
      (register req config toolchain sourceDir toolchainDir) (.prepare (.configured spec)) :=
  ⟨⟨spec, rfl⟩, fun id => ⟨⟨rfl, rfl, spec, rfl, hdir.symm⟩, fun _ => ⟨⟨rfl, spec, rfl⟩, fun _ =>
    ⟨⟨spec, id, rfl⟩, fun _ => ⟨⟨rfl, rfl⟩, fun _ => ⟨rfl, _, rfl⟩⟩⟩⟩⟩⟩

theorem keeps_ensureOut (outPath : Path) :
    Keeps service (.prepare .preparing) (ensureOut outPath) := by
  refine .bind (keeps_observe _) fun isDir => .ite (.pure ()) (.bind (keeps_observe _) ?_)
  rintro (e | _)
  · exact .throw _
  · exact .pure ()

theorem prepares_makeDefconfig :
    Prepares service (makeDefconfig service req config toolchain sourceDir toolchainDir) := by
  refine .bind (keeps_report (by decide) _) fun _ => .bind (keeps_observe _) fun nproc =>
    .bind (keeps_observe _) fun path => .bind (keeps_ensureOut _) fun _ => ?_
  refine ⟨⟨rfl, rfl, rfl⟩, fun result => ?_⟩
  cases result with
  | error e => rfl
  | ok success =>
    cases success with
    | false => exact prepares_report (by decide) _
    | true =>
      refine ⟨⟨by decide, rfl⟩, fun _ => ?_⟩
      refine Program.Meets.mono ?_ (meets_register req config toolchain sourceDir toolchainDir rfl)
      rintro m r ⟨rfl, hstage⟩
      exact hstage

theorem keeps_cloneFresh (what : String) :
    Keeps service (.prepare .preparing) (cloneFresh req what config sourceDir) := by
  refine .bind (keeps_perform rfl fun _ => rfl) ?_
  rintro (e | _)
  · exact .bind (keeps_report (by decide) _) fun _ => .pure _
  · exact .bind (keeps_report (by decide) _) fun _ => .pure _

theorem keeps_updateExisting :
    Keeps service (.prepare .preparing) (updateExisting req config sourceDir) := by
  refine .bind (keeps_report (by decide) _) fun _ => .bind (keeps_perform rfl fun _ => rfl) ?_
  rintro (e | _)
  · exact .bind (keeps_report (by decide) _) fun _ => .pure _
  · refine .bind (keeps_perform rfl fun _ => rfl) ?_
    rintro (e | _)
    · exact .ite (.bind (keeps_report (by decide) _) fun _ => .pure _)
        (.bind (keeps_report (by decide) _) fun _ => .pure _)
    · exact .bind (keeps_report (by decide) _) fun _ => .pure _

theorem keeps_reclone (url : String) :
    Keeps service (.prepare .preparing) (reclone req url config sourceDir) := by
  refine .bind (keeps_report (by decide) _) fun _ => .bind (keeps_perform rfl fun _ => rfl) ?_
  rintro (e | _)
  · exact .bind (keeps_report (by decide) _) fun _ => .pure _
  · exact keeps_cloneFresh req config sourceDir _

theorem keeps_cloneSource :
    Keeps service (.prepare .preparing) (cloneSource req config sourceDir) := by
  refine .bind (keeps_observe _) fun opened => .ite (.bind (keeps_observe _) ?_)
    (.bind (keeps_cloneFresh req config sourceDir _) ?_)
  · rintro (e | url)
    · exact .bind (keeps_report (by decide) _) fun _ => .pure _
    · exact .ite (keeps_updateExisting req config sourceDir) (keeps_reclone req config sourceDir url)
  · rintro (e | _)
    · exact .pure _
    · exact .bind (keeps_report (by decide) _) fun _ => .pure _

theorem prepares_prepareSource :
    Prepares service (prepareSource service req config toolchain toolchainDir) := by
  refine .bind (keeps_observe _) fun version => ?_
  split
  · exact .throw _
  · refine .bind (keeps_report (by decide) _) fun _ =>
      .bind (keeps_cloneSource req config _) ?_
    rintro (e | _)
    · exact prepares_report (by decide) _
    · exact .bind (keeps_report (by decide) _) fun _ =>
        prepares_makeDefconfig req config toolchain _ toolchainDir

theorem prepares_ensureToolchain :
    Prepares service (ensureToolchain service req config toolchain) := by
  refine .bind (keeps_observe _) ?_
  rintro (_ | version)
  · refine .bind (keeps_report (by decide) _) fun _ => .bind (keeps_report (by decide) _) fun _ =>
      .bind (keeps_observe _) ?_
    rintro (e | _)
    · exact prepares_report (by decide) _
    · exact .bind (keeps_report (by decide) _) fun _ =>
        prepares_prepareSource req config toolchain _
  · exact .bind (keeps_report (by decide) _) fun _ => .bind (keeps_report (by decide) _) fun _ =>
      prepares_prepareSource req config toolchain _

theorem prepares_checkRequest : Prepares service (checkRequest service req config) := by
  refine .bind (keeps_report (by decide) _) fun _ => ?_
  split
  · exact prepares_report (by decide) _
  · refine .bind (keeps_report (by decide) _) fun _ => ?_
    split
    · exact prepares_report (by decide) _
    · refine .bind (keeps_report (by decide) _) fun _ => ?_
      split
      · exact prepares_ensureToolchain req config _
      · exact prepares_report (by decide) _

theorem prepares_prepareTask : Prepares service (prepareTask service req) := by
  refine .bind (keeps_report (by decide) _) fun _ => .bind (keeps_observe _) fun configs =>
    .bind (keeps_report (by decide) _) fun _ => ?_
  split
  · exact prepares_checkRequest req _
  · exact prepares_report (by decide) _

theorem meets_prepareBuild :
    Meets service Ends (prepareBuild service req) (.prepare .preparing) := by
  refine Program.meets_handle.mpr (Program.Meets.mono ?_ (prepares_prepareTask req))
  rintro m (e | a) hm
  · obtain rfl := hm
    exact ⟨⟨nofun, rfl⟩, fun _ => rfl⟩
  · obtain ⟨stage, rfl⟩ := hm
    rfl

end Prepare

section DoBuild

variable {α : Type} {service : BuildService} {id : ℕ} {m : BuildStage}

theorem next_progress {status : ProgressStatus} (h : status ≠ .success) (output : String)
    (buildId : Option ℕ) : nextBuild m (.report ⟨status, output, buildId⟩) () = m := by
  cases status with
  | success => exact absurd rfl h
  | _ => cases m <;> rfl

theorem meets_of_eq {post : Stage → Except Status α → Prop} {p : Build α} {m m' : Stage}
    (h : m = m') (hp : Meets service post p m') : Meets service post p m := h ▸ hp

-- A report on the way changes nothing.
theorem meets_progress {post : Stage → Except Status α → Prop} {status : ProgressStatus}
    {f : Unit → Build α} (hsuccess : status ≠ .success) (hfailed : status ≠ .failed)
    (output : String) (hf : Meets service post (f ()) (.build id m)) :
    Meets service post (Build.reportBuildId id status output >>= f) (.build id m) := by
  refine ⟨⟨rfl, fun h => absurd h hsuccess, fun h => absurd h hfailed⟩, fun _ => ?_⟩
  exact meets_of_eq (congrArg (Stage.build id) (next_progress hsuccess output (some id))) hf

theorem meets_observe {β : Type} {post : Stage → Except Status α → Prop} {f : Environment → β}
    {g : β → Build α} {m : Stage} (hg : ∀ b, Meets service post (g b) m) :
    Meets service post (Build.observe f >>= g) m :=
  ⟨trivial, fun env => meets_of_eq (next_observe m env) (hg (f env))⟩

theorem meets_failure (h : m = .uncopied ∨ m = .marked false) (output : String) :
    Meets service Ends (Build.reportBuildId id .failed output) (.build id m) := by
  refine ⟨⟨rfl, nofun, fun _ => .inr h⟩, fun _ => ?_⟩
  refine meets_of_eq (congrArg (Stage.build id) (next_progress (by decide) output (some id))) ?_
  obtain rfl | rfl := h
  · exact .inl rfl
  · exact .inr ⟨false, rfl⟩

theorem meets_refusal (output : String) (e : Status) :
    Meets service Ends (do Build.reportBuildId id .failed output; .throw e)
      (.build id .refused) :=
  ⟨⟨rfl, nofun, fun _ => .inl rfl⟩, fun _ => .inl rfl⟩

variable {context : BuildContext}

theorem meets_succeed {artifact : Path}
    (h : m = .made context ∧ artifact = kernelImage context ∨ m = .zipped context artifact) :
    Meets service Ends (succeed id artifact) (.build id m) := by
  have hnext (output : String) :
      nextBuild m (.report ⟨.success, output, some id⟩) () = .announced artifact := by
    obtain ⟨rfl, rfl⟩ | rfl := h
    · rfl
    · rfl
  refine ⟨⟨rfl, fun _ => ?_, nofun⟩, fun _ => ?_⟩
  · obtain ⟨rfl, -⟩ | rfl := h
    · exact .inl ⟨context, rfl⟩
    · exact .inr ⟨context, artifact, rfl⟩
  · refine meets_of_eq (congrArg (Stage.build id) (hnext _)) ?_
    exact ⟨.inl rfl, fun _ => ⟨.inl ⟨rfl, rfl⟩, fun _ => .inr ⟨true, rfl⟩⟩⟩

theorem meets_failWithLog (h : m = .failing context ∨ m = .made context) (output : String) :
    Meets service Ends (failWithLog service id context output) (.build id m) := by
  have hnext : nextBuild m (.addArtifactPath id (logFile service context)) () = .logged := by
    obtain rfl | rfl := h
    · rfl
    · rfl
  refine ⟨.inr ⟨context, ?_, rfl⟩, fun _ => ?_⟩
  · obtain rfl | rfl := h
    · exact .inl rfl
    · exact .inr rfl
  · refine meets_of_eq (congrArg (Stage.build id) hnext) ?_
    exact ⟨.inr ⟨rfl, .inl rfl⟩, fun _ => meets_failure (.inr rfl) output⟩

theorem meets_packageIn {dir : Path} (hdir : anykernelDir context = some dir) :
    Meets service Ends (packageIn id context dir) (.build id (.made context)) := by
  refine meets_observe fun found => ?_
  cases found with
  | false =>
    exact ⟨.inr ⟨rfl, .inr ⟨context, rfl⟩⟩, fun _ => meets_failure (.inr rfl) _⟩
  | true =>
    refine ⟨⟨id, context, dir, rfl, hdir, rfl, rfl⟩, fun copied => ?_⟩
    cases copied with
    | error e => exact meets_failure (.inl rfl) _
    | ok _ =>
      refine meets_observe fun date => meets_progress (by decide) (by decide) _ ?_
      refine ⟨⟨id, context, date, rfl, hdir, rfl⟩, fun zipped => ?_⟩
      cases zipped with
      | error e => exact .inr rfl
      | ok _ =>
        refine meets_progress (by decide) (by decide) _ ?_
        exact ⟨⟨id, context, _, dir, rfl, hdir, rfl⟩, fun _ => meets_succeed (.inr rfl)⟩

theorem meets_package : Meets service Ends (package id context) (.build id (.made context)) := by
  unfold package
  split
  · exact meets_progress (by decide) (by decide) _
      (meets_progress (by decide) (by decide) _ (meets_succeed (.inl ⟨rfl, rfl⟩)))
  · next location hanykernel =>
    refine meets_progress (by decide) (by decide) _ (meets_packageIn ?_)
    rw [anykernelDir, hanykernel]
    rfl
  · exact meets_succeed (.inl ⟨rfl, rfl⟩)

theorem meets_buildTask (kill : ℕ) :
    Meets service Ends (buildTask service id context kill) (.build id (.making context kill)) := by
  refine meets_progress (by decide) (by decide) _
    (meets_observe fun nproc => meets_observe fun path => ?_)
  refine ⟨⟨rfl, rfl, rfl, rfl⟩, fun result => ?_⟩
  cases result with
  | error e => exact .inr rfl
  | ok success =>
    cases success with
    | false => exact meets_failWithLog (.inl rfl) _
    | true =>
      refine meets_progress (by decide) (by decide) _ (meets_observe fun found => ?_)
      cases found with
      | false => exact meets_failWithLog (.inr rfl) _
      | true => exact meets_progress (by decide) (by decide) _ meets_package

theorem meets_doBuild : Meets service Ends (doBuild service id) (.build id .asked) := by
  refine meets_progress (by decide) (by decide) _ ⟨.inl rfl, fun valid => ?_⟩
  cases valid with
  | false => exact meets_refusal _ _
  | true =>
    refine ⟨.inl rfl, fun context => ?_⟩
    cases context with
    | none => exact meets_refusal _ _
    | some context =>
      refine ⟨⟨context, rfl⟩, fun claimed => ?_⟩
      cases claimed with
      | error e => exact .inl rfl
      | ok _ =>
        exact ⟨⟨id, context, rfl⟩, fun kill => ⟨⟨context, rfl⟩, fun _ =>
          ⟨.inl ⟨id, context, kill, rfl⟩, fun _ => meets_buildTask kill⟩⟩⟩

end DoBuild

section Calls

variable {service : BuildService} {id : ℕ} {context : BuildContext}

theorem meets_cancelBuild : Meets service Ends (cancelBuild id) (.cancel id .asked) := by
  refine ⟨.inr (.inl rfl), fun valid => ?_⟩
  cases valid with
  | false => rfl
  | true =>
    refine ⟨.inl rfl, fun finished => ?_⟩
    cases finished with
    | true => rfl
    | false =>
      refine ⟨rfl, fun kill => ?_⟩
      cases kill with
      | none => rfl
      | some kill => exact ⟨.inl ⟨id, rfl⟩, fun _ => ⟨rfl, fun _ => rfl⟩⟩

theorem meets_streamArtifact :
    Meets service Ends (streamArtifact id context) (.fetch id (.streaming context)) := by
  unfold streamArtifact
  split
  · exact ⟨⟨nofun, id, context, rfl⟩, fun _ => ⟨context, rfl⟩⟩
  · next path hpath =>
    refine ⟨⟨id, context, rfl, hpath⟩, fun length => ?_⟩
    cases length with
    | error e => exact ⟨⟨nofun, id, context, rfl⟩, fun _ => ⟨context, rfl⟩⟩
    | ok totalSize =>
      refine ⟨⟨nofun, id, context, rfl⟩, fun connected => ?_⟩
      cases connected with
      | false => exact ⟨context, rfl⟩
      | true =>
        refine ⟨⟨id, context, rfl, hpath⟩, fun opened => ?_⟩
        cases opened with
        | error e => exact ⟨⟨nofun, id, context, rfl⟩, fun _ => ⟨context, rfl⟩⟩
        | ok _ => exact ⟨⟨id, context, rfl, hpath⟩, fun _ => ⟨context, rfl⟩⟩

theorem meets_getArtifact : Meets service Ends (getArtifact id) (.fetch id .asked) := by
  refine ⟨.inr (.inr rfl), fun valid => ?_⟩
  cases valid with
  | false => exact .inl ⟨rfl, rfl⟩
  | true =>
    refine ⟨.inr rfl, fun finished => ?_⟩
    cases finished with
    | false => exact .inr ⟨rfl, rfl⟩
    | true =>
      refine ⟨.inr rfl, fun context => ?_⟩
      cases context with
      | none => exact .inl ⟨rfl, rfl⟩
      | some context => exact ⟨.inr ⟨id, context, rfl⟩, fun _ => meets_streamArtifact⟩

theorem meets_ctrlC : Meets service Ends ctrlC (.interrupt .waiting) := by
  refine ⟨rfl, fun active => ?_⟩
  cases active with
  | none => exact ⟨.inl rfl, fun _ => ⟨rfl, rfl⟩⟩
  | some active =>
    exact ⟨.inr ⟨active.1, rfl⟩, fun delivered => ⟨.inr ⟨_, delivered, rfl⟩, fun _ => ⟨rfl, rfl⟩⟩⟩

-- Every call keeps to the discipline.
theorem governs (service : BuildService) : (discipline service).Governs (system service) := by
  intro call
  cases call with
  | prepareBuild req => exact meets_prepareBuild req
  | doBuild id => exact meets_doBuild
  | cancelBuild id => exact meets_cancelBuild
  | getArtifact id => exact meets_getArtifact
  | ctrlC => exact meets_ctrlC

end Calls

end Glider.KernelBuild

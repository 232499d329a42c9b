import Glider.RomBuild.Harness

namespace Glider.RomBuild

open Glider.Lib

-- How far a build has come: its `bash` command has succeeded, and the success is recorded.
inductive Phase where
  | building
  | built
  | marked
  deriving DecidableEq

-- No command is run after `bash`, and nothing is uploaded or called a success before it.
def monitor (id : ℕ) : Program.Monitor Op Op.Answer Phase where
  allows
    | _, .observe => True
    | _, .sendLog _ _ => True
    | m, .runProcess _ => m = .building
    | m, .recordFailure _ => m = .building
    | m, .pushUpload task => m = .built ∧ task.buildId = id
    | m, .recordSuccess => m = .built
  next
    | m, .runProcess spec, .ok true => if spec.program = "bash" then .built else m
    | _, .recordSuccess, _ => .marked
    | m, _, _ => m

-- The phases with what is recorded in them: `failing` comes after a recorded failure.
inductive Stage where
  | building
  | failing
  | built
  | marked

def Stage.phase : Stage → Phase
  | .building | .failing => .building
  | .built => .built
  | .marked => .marked

-- After a recorded failure nothing is run or recorded any more.
def conduct (id : ℕ) : Program.Monitor Op Op.Answer Stage where
  allows
    | _, .observe => True
    | _, .sendLog _ _ => True
    | m, .runProcess _ => m = .building
    | m, .recordFailure _ => m = .building
    | m, .pushUpload task => m = .built ∧ task.buildId = id
    | m, .recordSuccess => m = .built
  next
    | m, .runProcess spec, .ok true => if spec.program = "bash" then .built else m
    | _, .recordFailure _, _ => .failing
    | _, .recordSuccess, _ => .marked
    | m, _, _ => m

theorem next_bash {id : ℕ} {m : Stage} {spec : CommandSpec} (hbash : spec.program = "bash") :
    (conduct id).next m (.runProcess spec) (.ok true) = .built := if_pos hbash

-- A part of the pipeline in the course of which the build comes no further.
abbrev Keeps {α : Type} (id : ℕ) (m : Stage) (p : Pipeline α) : Prop := p.Keeps (conduct id) m

-- A part that leaves the build where it is, or ends with an error before `bash` has succeeded.
def Strict {α : Type} (id : ℕ) (p : Pipeline α) : Prop :=
  p.Meets (conduct id) (fun m r => match r with
    | .ok _ => m = .building
    | .error _ => m.phase = .building) .building

namespace Strict

variable {α β : Type} {id : ℕ} {p q : Pipeline α} {f : α → Pipeline β}

theorem of_keeps (h : Keeps id .building p) : Strict id p := by
  refine Program.Meets.mono ?_ h
  rintro m (e | a) rfl
  · rfl
  · rfl

theorem meets_bind (hp : Strict id p) {post : Stage → Except BuildError β → Prop}
    (hf : ∀ a, (f a).Meets (conduct id) post .building)
    (herror : ∀ m e, m.phase = .building → post m (.error e)) :
    (p >>= f).Meets (conduct id) post .building := by
  rw [Program.meets_bind]
  refine hp.mono ?_
  rintro m (e | a) hm
  · exact herror m e hm
  · obtain rfl := hm
    exact hf a

theorem bind (hp : Strict id p) (hf : ∀ a, Strict id (f a)) : Strict id (p >>= f) :=
  hp.meets_bind hf fun _ _ hm => hm

theorem ite {c : Prop} [Decidable c] (hp : Strict id p) (hq : Strict id q) :
    Strict id (if c then p else q) := by
  split
  · exact hp
  · exact hq

end Strict

section Calls

variable {α : Type} {id : ℕ} {m : Stage}

theorem keeps_observe (f : Environment → α) : Keeps id m (Pipeline.observe f) :=
  ⟨trivial, fun _ => rfl⟩

theorem keeps_sendLog (level : LogLevel) (message : String) :
    Keeps id m (Pipeline.sendLog level message) := ⟨trivial, fun _ => rfl⟩

theorem keeps_orInternal (what : String) (x : Except String α) :
    Keeps id m (Pipeline.orInternal what x) := by
  cases x with
  | ok a => exact .pure a
  | error e => exact .throw _

theorem keeps_attempt (what : String) (f : Environment → Except String α) :
    Keeps id m (Pipeline.attempt what f) :=
  .bind (keeps_observe f) fun x => keeps_orInternal what x

theorem meets_recordFailure (content : String) :
    (Pipeline.recordFailure content).Meets (conduct id) (fun m _ => m.phase = .building)
      .building :=
  ⟨rfl, fun _ => rfl⟩

theorem keeps_runProcess {spec : CommandSpec} (hrepo : spec.program ≠ "bash") :
    Keeps id .building (Pipeline.runProcess spec) := by
  refine ⟨rfl, fun outcome => ?_⟩
  cases outcome with
  | error e => rfl
  | ok success =>
    cases success with
    | false => rfl
    | true => exact if_neg hrepo

end Calls

section Stages

variable {id : ℕ} {m : Stage} (t : BuildTask)

theorem keeps_checkManifests : Keeps id m t.checkManifests := by
  refine .bind (keeps_observe _) fun found => .ite ?_ (.bind (keeps_sendLog ..) fun _ => .pure _)
  refine .bind (keeps_sendLog ..) fun _ => .bind (keeps_attempt ..) fun repo => ?_
  refine .bind (keeps_orInternal ..) fun repoUrl => .bind (keeps_orInternal ..) fun branchName => ?_
  refine .bind (keeps_sendLog ..) fun _ => ?_
  exact .ite (.bind (keeps_sendLog ..) fun _ => .pure _) (.pure _)

theorem strict_recordLogFile (errorFile : Path) (e : BuildError) :
    Strict id (BuildTask.recordLogFile errorFile >>= fun _ => (.throw e : Pipeline Unit)) := by
  refine ⟨trivial, fun env => ⟨trivial, fun _ => ?_⟩⟩
  exact ⟨rfl, fun _ => rfl⟩

theorem strict_repoInit : Strict id t.repoInit := by
  refine .bind (.of_keeps (keeps_sendLog ..)) fun _ => ?_
  refine .bind (.of_keeps (keeps_runProcess (by simp))) fun success => ?_
  exact .ite (strict_recordLogFile ..) (.of_keeps (.pure _))

theorem keeps_fastForward (repo : Repo) : Keeps id m (BuildTask.fastForward repo) := by
  refine .bind (keeps_sendLog ..) fun _ => ?_
  split
  · exact .pure _
  · exact keeps_sendLog ..

theorem keeps_checkoutLocalManifest (repo : Repo) : Keeps id m (t.checkoutLocalManifest repo) := by
  refine .bind (keeps_orInternal ..) fun branch => .ite ?_ ?_
  · refine .bind (keeps_sendLog ..) fun _ => ?_
    exact .bind (keeps_orInternal ..) fun _ => keeps_fastForward repo
  · exact .bind (keeps_sendLog ..) fun _ => keeps_fastForward repo

theorem keeps_openLocalManifest (url : String) : Keeps id m (t.openLocalManifest url) := by
  refine .bind (keeps_observe _) fun opened => ?_
  split
  case h_1 repo =>
    refine .bind (keeps_orInternal ..) fun remote => .ite (.bind (keeps_sendLog ..) fun _ => ?_) ?_
    · exact .bind (keeps_attempt ..) fun _ => keeps_attempt ..
    · exact .bind (keeps_sendLog ..) fun _ => keeps_checkoutLocalManifest t repo
  case h_2 => exact .bind (keeps_sendLog ..) fun _ => keeps_attempt ..

theorem keeps_updateModules (subRepoPath : Path) : Keeps id m (t.updateModules subRepoPath) := by
  refine .bind (keeps_attempt ..) fun subRepo => ?_
  split
  · exact .pure _
  · exact .bind (keeps_sendLog ..) fun _ => .throw _

theorem keeps_syncSubmodule (path : Path) (attributes : List (String × String)) :
    Keeps id .building (t.syncSubmodule path attributes) := by
  refine .bind (keeps_sendLog ..) fun _ => ?_
  split
  · refine .bind (keeps_runProcess (by simp)) fun _ => ?_
    exact .ite (keeps_updateModules t _) (keeps_sendLog ..)
  · exact keeps_sendLog ..

theorem keeps_syncElement (path : Path) (event : Except String XmlEvent) :
    Keeps id .building (t.syncElement path event) := by
  unfold BuildTask.syncElement
  split
  · exact .ite (.forM fun _ _ => .ite (keeps_syncSubmodule t ..) (.pure _)) (.pure _)
  · exact .pure _
  · exact keeps_sendLog ..

theorem keeps_syncManifestFile (path : Path) : Keeps id .building (t.syncManifestFile path) := by
  refine .ite (.bind (keeps_attempt ..) fun content => ?_) (.pure _)
  exact .bind (keeps_observe _) fun events => .forM fun event _ => keeps_syncElement t path event

theorem keeps_prepareStandard (url : String) : Keeps id .building (t.prepareStandard url) := by
  refine .bind (keeps_openLocalManifest t url) fun _ => ?_
  exact .bind (keeps_attempt ..) fun files => .forM fun file _ => keeps_syncManifestFile t file

theorem keeps_writeRecovery (cloneMappings : List CloneMapping) :
    Keeps id m (t.writeRecovery cloneMappings) :=
  .bind (keeps_attempt ..) fun _ =>
    .bind (.forM fun _ _ => keeps_attempt ..) fun _ => keeps_sendLog ..

theorem keeps_prepareRecovery (cloneMappings : List CloneMapping) :
    Keeps id m (t.prepareRecovery cloneMappings) := by
  refine .bind (keeps_observe _) fun found => .ite ?_ (keeps_writeRecovery t cloneMappings)
  exact .bind (keeps_attempt ..) fun _ => keeps_writeRecovery t cloneMappings

theorem keeps_prepareLocalManifest : Keeps id .building t.prepareLocalManifest := by
  refine .bind (keeps_sendLog ..) fun _ => ?_
  split
  · exact keeps_prepareStandard t _
  · exact keeps_prepareRecovery t _

theorem strict_repoSync : Strict id t.repoSync := by
  refine .bind (.of_keeps (keeps_sendLog ..)) fun _ => ?_
  refine .bind (.of_keeps (keeps_runProcess (by simp))) fun success => ?_
  refine .ite (.of_keeps (keeps_sendLog ..)) (.bind (.of_keeps (keeps_sendLog ..)) fun _ => ?_)
  exact strict_recordLogFile ..

theorem strict_syncSources : Strict id t.syncSources := by
  have hsync : Strict id (t.prepareLocalManifest >>= fun _ => t.repoSync) :=
    .bind (.of_keeps (keeps_prepareLocalManifest t)) fun _ => strict_repoSync t
  refine .bind (.of_keeps (keeps_sendLog ..)) fun _ => ?_
  refine .bind (.of_keeps (keeps_observe _)) fun found => .ite ?_ (.of_keeps (.throw _))
  refine .bind (.of_keeps (keeps_sendLog ..)) fun _ => ?_
  refine .bind (.of_keeps (keeps_checkManifests t)) fun reinit => ?_
  exact .ite (.bind (strict_repoInit t) fun _ => hsync) hsync

theorem keeps_raiseLimits : Keeps id m BuildTask.raiseLimits := by
  refine .bind (keeps_attempt ..) fun limits => .bind (keeps_sendLog ..) fun _ => ?_
  refine .ite (keeps_sendLog ..) (.bind (keeps_sendLog ..) fun _ => ?_)
  refine .bind (keeps_observe _) fun done => ?_
  exact .ite (keeps_sendLog ..) (.throw _)

theorem keeps_setupRbe : Keeps id m t.setupRbe := by
  refine .ite (.bind (keeps_sendLog ..) fun _ => ?_) (.pure _)
  exact .bind (keeps_attempt ..) fun path => .bind (keeps_sendLog ..) fun _ => .pure _

theorem keeps_findVendor (dirs : List Path) : Keeps id m (BuildTask.findVendor dirs) := by
  induction dirs with
  | nil => exact .pure _
  | cons dir rest ih =>
    exact .bind (keeps_observe _) fun found => .ite (.bind (keeps_sendLog ..) fun _ => .pure _) ih

theorem keeps_detectVendor : Keeps id m t.detectVendor := by
  refine .bind (keeps_attempt ..) fun dirs => .bind (keeps_findVendor dirs) fun vendor => .ite ?_ ?_
  · exact .bind (keeps_sendLog ..) fun _ => .bind (keeps_sendLog ..) fun _ => .pure _
  · exact .bind (keeps_sendLog ..) fun _ => .pure _

theorem keeps_releaseIn (what : String) (listing : Path) (extension : String)
    (skipped : List String) (unread : String) (release : Option String) :
    Keeps id m (BuildTask.releaseIn what listing extension skipped unread release) := by
  refine .bind (keeps_attempt ..) fun files => ?_
  split
  · exact .bind (keeps_sendLog ..) fun _ => .pure _
  · exact .pure _

theorem keeps_findRelease (paths : List Path) (release : Option String) :
    Keeps id m (BuildTask.findRelease paths release) := by
  induction paths generalizing release with
  | nil => exact .pure _
  | cons path rest ih =>
    refine .bind (keeps_observe _) fun mapped => ?_
    refine .ite (.bind (keeps_sendLog ..) fun _ => .pure _) ?_
    refine .bind (.bind (keeps_observe _) fun found => .ite (keeps_releaseIn ..) (.pure _)) ?_
    intro release
    refine .bind (.bind (keeps_observe _) fun found => .ite (keeps_releaseIn ..) (.pure _)) ?_
    exact ih

theorem keeps_detectRelease (vendor : String) : Keeps id m (t.detectRelease vendor) := by
  refine .bind (keeps_findRelease ..) fun release => ?_
  split
  · exact .bind (keeps_sendLog ..) fun _ => .pure _
  · exact .bind (keeps_sendLog ..) fun _ => .pure _

theorem keeps_cleanBuild : Keeps id m t.cleanBuild := by
  refine .ite (.bind (keeps_sendLog ..) fun _ => .bind (keeps_observe _) fun found => ?_) (.pure _)
  exact .ite (.bind (keeps_sendLog ..) fun _ => keeps_attempt ..) (.pure _)

theorem keeps_removeOldArtifacts : Keeps id m t.removeOldArtifacts := by
  refine .bind (keeps_observe _) fun found => ?_
  split
  · exact .bind (keeps_sendLog ..) fun _ => .forM fun _ _ => keeps_attempt ..
  · exact keeps_sendLog ..

theorem meets_recordBuildLog (outputFile : Path) :
    (t.recordBuildLog outputFile).Meets (conduct id) (fun m _ => m.phase = .building)
      .building := by
  refine (keeps_sendLog ..).meets_bind (fun _ => ?_) fun _ => rfl
  refine (keeps_observe _).meets_bind (fun content => ?_) fun _ => rfl
  split
  · refine (keeps_sendLog ..).meets_bind (fun _ => ?_) fun _ => rfl
    refine (keeps_observe _).meets_bind (fun content => ?_) fun _ => rfl
    split
    · exact (keeps_sendLog ..).meets_bind (fun _ => meets_recordFailure _) fun _ => rfl
    · exact meets_recordFailure _
  · exact meets_recordFailure _

theorem keeps_selectArtifact (artifacts : List Path) :
    Keeps id m (BuildTask.selectArtifact artifacts) := by
  have hfirst : Keeps id m (BuildTask.firstArtifact artifacts) := by
    cases artifacts with
    | nil => exact .bind (keeps_sendLog ..) fun _ => .pure _
    | cons path rest => exact .pure _
  refine .bind (keeps_sendLog ..) fun _ => .bind (.forM fun _ _ => keeps_sendLog ..) fun _ => ?_
  exact .ite (.bind (keeps_sendLog ..) fun _ => hfirst) hfirst

theorem keeps_scheduleUpload (artifact : BuildArtifact) :
    Keeps t.id .built (t.scheduleUpload artifact) := by
  have hpush : ∀ method, Keeps t.id .built (Pipeline.pushUpload ⟨method, t.id, artifact⟩) :=
    fun method => ⟨⟨rfl, rfl⟩, fun _ => rfl⟩
  unfold BuildTask.scheduleUpload
  split
  · exact keeps_sendLog ..
  · exact .bind (keeps_sendLog ..) fun _ => hpush _
  · exact .bind (keeps_sendLog ..) fun _ => hpush _
  · exact .bind (keeps_sendLog ..) fun _ => hpush _
  · exact keeps_sendLog ..

theorem keeps_upload : Keeps t.id .built t.upload := by
  refine .ite (.bind (keeps_observe _) fun found => ?_) (keeps_sendLog ..)
  split
  · refine .bind (keeps_selectArtifact _) fun path => .bind (keeps_sendLog ..) fun _ => ?_
    split
    · exact keeps_scheduleUpload t _
    · exact .throw _
  · exact keeps_sendLog ..

end Stages

-- A build that ends well has succeeded in its `bash` command and is recorded so.
def Concluded : Phase → Except BuildError Unit → Prop
  | m, .ok _ => m = .marked
  | _, .error _ => True

-- And one that ends with an error is not.
def Decided : Stage → Except BuildError Unit → Prop
  | m, .ok _ => m = .marked
  | m, .error _ => m ≠ .marked

theorem meets_build (t : BuildTask) (rbeEnvPath : Option Path) (vendor : String)
    (release : Option String) {post : Stage → Except BuildError Unit → Prop}
    (hok : post .built (.ok ())) (herror : ∀ m e, m.phase = .building → post m (.error e)) :
    (t.build rbeEnvPath vendor release).Meets (conduct t.id) post .building := by
  have hbuilding : ∀ e, post .building (.error e) := fun e => herror _ e rfl
  refine (Program.Keeps.forM fun _ _ => keeps_sendLog ..).meets_bind (fun _ => ?_) hbuilding
  rw [Program.meets_bind]
  refine ⟨rfl, fun outcome => ?_⟩
  cases outcome with
  | error e => exact hbuilding e
  | ok success =>
    cases success with
    | true =>
      rw [next_bash rfl]
      exact ⟨trivial, fun _ => hok⟩
    | false =>
      refine (keeps_sendLog ..).meets_bind (fun _ => ?_) hbuilding
      rw [Program.meets_bind]
      refine (meets_recordBuildLog t _).mono ?_
      rintro m (e | a) hm
      · exact herror m e hm
      · exact herror m _ hm

theorem meets_buildAndUpload (t : BuildTask) :
    t.buildAndUpload.Meets (conduct t.id) Decided .building := by
  have hend : (do t.upload; Pipeline.recordSuccess).Meets (conduct t.id) Decided .built :=
    (keeps_upload t).meets_bind (fun _ => ⟨rfl, fun _ => rfl⟩) fun _ => nofun
  have herror : ∀ e, Decided .building (.error e) := fun _ => nofun
  refine keeps_raiseLimits.meets_bind (fun _ => ?_) herror
  refine (keeps_sendLog ..).meets_bind (fun _ => ?_) herror
  refine (keeps_setupRbe t).meets_bind (fun rbeEnvPath => ?_) herror
  refine (keeps_detectVendor t).meets_bind (fun vendor => ?_) herror
  refine (keeps_detectRelease t vendor).meets_bind (fun release => ?_) herror
  refine (keeps_cleanBuild t).meets_bind (fun _ => ?_) herror
  refine (keeps_removeOldArtifacts t).meets_bind (fun _ => ?_) herror
  rw [Program.meets_bind]
  refine meets_build t rbeEnvPath vendor release hend fun m e hm => ?_
  rintro rfl
  cases hm

theorem decides_pipeline (t : BuildTask) :
    t.pipeline.Meets (conduct t.id) Decided .building := by
  unfold BuildTask.pipeline
  split
  · refine (strict_syncSources t).meets_bind (fun _ => meets_buildAndUpload t) fun m e hm => ?_
    rintro rfl
    cases hm
  · exact meets_buildAndUpload t

-- Without the recorded failures.
theorem meets_pipeline (t : BuildTask) :
    t.pipeline.Meets (monitor t.id) Concluded .building := by
  refine Program.Meets.map Stage.phase ?_ ?_ ?_ (decides_pipeline t)
  · rintro m op h
    cases op with
    | observe | sendLog level message => trivial
    | runProcess spec | recordFailure content =>
      obtain rfl : m = .building := h
      rfl
    | pushUpload task =>
      obtain ⟨rfl, hid⟩ := h
      exact ⟨rfl, hid⟩
    | recordSuccess =>
      obtain rfl : m = .built := h
      rfl
  · rintro m op answer h
    cases op with
    | observe | sendLog level message => rfl
    | runProcess spec =>
      match answer with
      | .error e => rfl
      | .ok false => rfl
      | .ok true =>
        by_cases hbash : spec.program = "bash"
        · simp [monitor, conduct, hbash, Stage.phase]
        · simp [monitor, conduct, hbash]
    | recordFailure content =>
      obtain rfl : m = .building := h
      rfl
    | pushUpload task | recordSuccess => rfl
  · rintro m (e | a) h
    · trivial
    · obtain rfl : m = .marked := h
      rfl

end Glider.RomBuild

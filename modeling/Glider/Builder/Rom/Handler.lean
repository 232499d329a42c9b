import Glider.Builder.Staging
import Mathlib.Data.List.Sort

namespace Glider.Builder.Rom

open Glider.Lib
open Bytes (ascii)
open Staging (checked refuse)

-- The arithmetic of the program that is left open: how a JSON number is read, and `float`.
structure Numbers (F : Type) where
  int : Bytes → Int
  float : Bytes → F
  ofBool : Bool → F
  near : F → F → Bool
  eq : F → F → Bool
  le : F → F → Bool
  text : F → Bytes

structure Device where
  codename : Bytes
  marketName : Bytes
  deriving DecidableEq

structure AndroidVersion (F : Type) where
  version : F
  name : Bytes
  deriving DecidableEq

structure ROMBranch (F : Type) where
  branch : Bytes
  romName : Bytes
  androidVersion : AndroidVersion F
  deriving DecidableEq

-- The parser leaves none of its pointers empty.
structure LocalManifest (F : Type) where
  name : Bytes
  rom : ROMBranch F
  devices : List Device
  deriving DecidableEq

inductive Variant where
  | user
  | userDebug
  | eng
  deriving DecidableEq

def Variant.name : Variant → Bytes
  | .user => ascii "user"
  | .userDebug => ascii "userdebug"
  | .eng => ascii "eng"

inductive UploadMethod where
  | localFile
  | stream
  | goFile
  deriving DecidableEq

structure PerBuildData (F : Type) where
  device : Option Device
  localManifest : Option (LocalManifest F)
  variant : Variant
  deriving DecidableEq

structure Options where
  doRepoSync : Bool
  uploadMethod : Option UploadMethod
  doUseRbe : Bool
  doCleanBuild : Option Bool
  useCcache : Option Bool
  parallelJobs : Option Int
  forceCheckout : Option Bool
  deriving DecidableEq

structure Plan (F : Type) where
  perBuild : PerBuildData F
  options : Options
  deriving DecidableEq

variable {F : Type}

def PerBuildData.empty : PerBuildData F := ⟨none, none, .user⟩

namespace Plan

def initial : Plan F := ⟨.empty, ⟨true, none, false, none, none, none, none⟩⟩

def resetBuild (p : Plan F) : Plan F := { p with perBuild := .empty }

-- What `start` and "Back" forget.
def forget (p : Plan F) : Plan F :=
  ⟨.empty, { p.options with
    doCleanBuild := none
    useCcache := none
    parallelJobs := none
    forceCheckout := none }⟩

end Plan

-- The two messages with a "Confirm" button: the summary of a staged plan, and the last page of the
-- selection.
inductive Review (F : Type) where
  | staged (device : Device) (rom : Bytes) (version : F) (variant manifest : Bytes)
      (options : Options)
  | chosen (variant device rom : Bytes) (version : F)

section Texts

def describe (value : Bool) : Bytes := if value then ascii "Enabled" else ascii "Disabled"

def describeUpload : Option UploadMethod → Bytes
  | none => ascii "Disabled"
  | some .goFile => ascii "GoFile"
  | some .stream => ascii "Stream to Telegram"
  | some .localFile => ascii "Save to local file"

def orDefault (value : Option Bytes) : Bytes := value.getD (ascii "Server default")

def forceWarning : Bytes :=
  ascii "\nWARNING: force checkout may overwrite remote source changes."

def Review.text (num : Numbers F) : Review F → Bytes
  | .staged device rom version variant manifest options =>
    ascii "Review Android build request:\nDevice: " ++ device.marketName ++ ascii " (" ++
      device.codename ++ ascii ")\nROM: " ++ rom ++ ascii "\nAndroid: " ++ num.text version ++
      ascii "\nVariant: " ++ variant ++ ascii "\nManifest: " ++ manifest ++
      ascii "\nRepo sync: " ++ describe options.doRepoSync ++ ascii "\nClean build: " ++
      orDefault (options.doCleanBuild.map describe) ++ ascii "\nccache: " ++
      orDefault (options.useCcache.map describe) ++ ascii "\nRBE: " ++
      describe options.doUseRbe ++ ascii "\nUpload: " ++ describeUpload options.uploadMethod ++
      ascii "\nParallel jobs: " ++
      orDefault (options.parallelJobs.map fun n => ascii (toString n)) ++
      ascii "\nForce checkout: " ++ describe (options.forceCheckout.getD false) ++
      (if options.forceCheckout.getD false then forceWarning else []) ++
      ascii "\n\nNo build will start until you confirm."
  | .chosen variant device rom version =>
    ascii "Build variant: " ++ variant ++ ascii "\nDevice: " ++ device ++ ascii "\nRom: " ++ rom ++
      ascii "\nAndroid version: " ++ num.text version

end Texts

section Stage

variable (num : Numbers F) (rbeKey : Option Bytes) (plan : Json)

-- What a plan asks for.
structure Requested (F : Type) where
  device : Bytes
  rom : Bytes
  version : F
  variant : Bytes
  manifest : Option Bytes

def optionalString (key : String) : Except Bytes (Option Bytes) :=
  if plan.contains (ascii key) then some <$> plan.atString (ascii key) else .ok none

def atNumber {α : Type} (key : String) (ofText : Bytes → α) (ofBool : Bool → α) :
    Except Bytes α := do
  let value ← plan.at? (ascii key)
  value.getNumber ofText ofBool

def requested : Except Bytes (Requested F) := do
  let device ← plan.atString (ascii "device")
  let rom ← plan.atString (ascii "rom")
  let version ← atNumber plan "android_version" num.float num.ofBool
  let variant ← plan.atString (ascii "variant")
  let manifest ← optionalString plan "manifest"
  return ⟨device, rom, version, variant, manifest⟩

def hasDevice (manifest : LocalManifest F) (codename : Bytes) : Bool :=
  manifest.devices.any fun device => device.codename.equalsIgnoreCase codename

def candidate (r : Requested F) (manifest : LocalManifest F) : Bool :=
  hasDevice manifest r.device && manifest.rom.romName.equalsIgnoreCase r.rom &&
    num.near manifest.rom.androidVersion.version r.version &&
    r.manifest.all fun name => manifest.name.equalsIgnoreCase name

def sortedUnique (texts : List Bytes) : List Bytes := texts.dedup.insertionSort (· ≤ ·)

def noPlanFound (manifests : List (LocalManifest F)) (r : Requested F) : Bytes :=
  let available := sortedUnique ((manifests.filter fun m => hasDevice m r.device).map fun m =>
    m.rom.romName ++ ascii " Android " ++ num.text m.rom.androidVersion.version ++ ascii " (" ++
      m.name ++ ascii ")")
  ascii "No compatible ROM plan found for device '" ++ r.device ++ ascii "', ROM '" ++ r.rom ++
    ascii "', Android " ++ num.text r.version ++
    (r.manifest.elim [] fun name => ascii ", manifest '" ++ name ++ ascii "'") ++
    ascii ". Compatible choices for this device: " ++
    (if available.isEmpty then ascii "(none configured)" else join "; " available)

def ambiguousText (names : List Bytes) : Bytes :=
  ascii "More than one local manifest matches. Specify manifest as one of: " ++
    join ", " (sortedUnique names)

def giveUp {α : Type} (text : Bytes) : Staging (Plan F) α := do
  modify Plan.resetBuild
  refuse text

def writeBuild (write : PerBuildData F → PerBuildData F) : Staging (Plan F) Unit :=
  modify fun p => { p with perBuild := write p.perBuild }

def writeOptions (write : Options → Options) : Staging (Plan F) Unit :=
  modify fun p => { p with options := write p.options }

def variantOf (text : Bytes) : Option Variant :=
  if text.equalsIgnoreCase (ascii "user") then some .user
  else if text.equalsIgnoreCase (ascii "userdebug") then some .userDebug
  else if text.equalsIgnoreCase (ascii "eng") then some .eng
  else none

def stageVariant (text : Bytes) : Staging (Plan F) Unit :=
  match variantOf text with
  | some variant => writeBuild fun b => { b with variant }
  | none => giveUp (ascii "Unknown build variant. Choose user, userdebug, or eng.")

def requireRbeKey (doUseRbe : Bool) : Staging (Plan F) Unit :=
  if doUseRbe && rbeKey.isNone then
    giveUp (ascii "RBE was requested but no BuildBuddy API key is configured.")
  else pure ()

def optional {α : Type} (key : String) (get : Json → Except Bytes α) : Except Bytes (Option α) :=
  if plan.contains (ascii key) then do
    let value ← plan.at? (ascii key)
    some <$> get value
  else .ok none

def stageUpload (text : Bytes) : Staging (Plan F) Unit :=
  if text.equalsIgnoreCase (ascii "local") then
    writeOptions fun o => { o with uploadMethod := some .localFile }
  else if text.equalsIgnoreCase (ascii "stream") then
    writeOptions fun o => { o with uploadMethod := some .stream }
  else if text.equalsIgnoreCase (ascii "gofile") then
    writeOptions fun o => { o with uploadMethod := some .goFile }
  else if text.equalsIgnoreCase (ascii "none") then pure ()
  else giveUp (ascii "Unknown upload method. Choose none, local, stream, or gofile.")

def stageOptions : Staging (Plan F) Unit := do
  let doRepoSync ← checked (plan.value (ascii "repo_sync") true Json.getBool)
  writeOptions fun o => { o with doRepoSync }
  let doUseRbe ← checked (plan.value (ascii "use_rbe") false Json.getBool)
  writeOptions fun o => { o with doUseRbe }
  requireRbeKey rbeKey doUseRbe
  let doCleanBuild ← checked (optional plan "clean_build" Json.getBool)
  writeOptions fun o => { o with doCleanBuild }
  let useCcache ← checked (optional plan "use_ccache" Json.getBool)
  writeOptions fun o => { o with useCcache }
  let parallelJobs ← checked (optional plan "parallel_jobs" (Json.getNumber num.int intOfBool))
  writeOptions fun o => { o with parallelJobs }
  let forceCheckout ← checked (optional plan "force_checkout" Json.getBool)
  writeOptions fun o => { o with forceCheckout }
  writeOptions fun o => { o with uploadMethod := none }
  let upload ← checked (plan.valueString (ascii "upload") (ascii "none"))
  stageUpload upload

def summary (device : Device) (manifest : LocalManifest F) (variant : Bytes) (p : Plan F) :
    Review F :=
  .staged device manifest.rom.romName manifest.rom.androidVersion.version
    (variant.map Bytes.asciiToLower) manifest.name p.options

-- The part of `stage` that writes.
def stageManifest (manifest : LocalManifest F) (r : Requested F) :
    Staging (Plan F) (Review F) := do
  writeBuild fun _ => ⟨none, some manifest, .user⟩
  match manifest.devices.find? fun device => device.codename.equalsIgnoreCase r.device with
  | none => refuse (ascii "The selected manifest lost its device entry.")
  | some device => do
      writeBuild fun b => { b with device := some device }
      stageVariant r.variant
      stageOptions num rbeKey plan
      let p ← get
      return summary device manifest r.variant p

def stage (running : Bool) (manifests : List (LocalManifest F)) : Staging (Plan F) (Review F) := do
  if running then refuse (ascii "A ROM build is already running.")
  else do
    let r ← checked (requested num plan)
    match manifests.filter (candidate num r) with
    | [] => refuse (noPlanFound num manifests r)
    | first :: rest =>
      if rest.all fun m => m.name.equalsIgnoreCase first.name then
        stageManifest num rbeKey plan first r
      else refuse (ambiguousText ((first :: rest).map LocalManifest.name))

end Stage

structure Settings where
  doRepoSync : Bool
  doUpload : Bool
  useRbeService : Bool
  doCleanBuild : Option Bool
  useCcache : Option Bool
  rbeApiToken : Option Bytes

structure BuildRequest (F : Type) where
  configName : Bytes
  targetDevice : Bytes
  romName : Bytes
  romAndroidVersion : F
  buildVariant : Variant
  githubToken : Option Bytes
  uploadMethod : Option UploadMethod
  parallelJobs : Option Int
  forceCheckout : Option Bool

-- What "Confirm" sends: first the settings, then the request.
structure Order (F : Type) where
  settings : Settings
  request : BuildRequest F

inductive Content (F : Type) where
  | main
  | settings
  | manifests (names : List Bytes)
  | devices (codenames : List Bytes)
  | roms (names : List Bytes)
  | versions (versions : List F)
  | types
  | review (r : Review F)
  | failed (text : Bytes)
  | cleanable (rom build : Bool)
  | notice (text : Bytes)
  | progress
  | text (text : Bytes)

structure Shown (F : Type) where
  message : ℕ
  content : Content F

inductive Clean where
  | directories
  | rom
  | build
  deriving DecidableEq

inductive Button (F : Type) where
  | repoSync
  | back
  | cancel
  | settings
  | sendSystemInfo
  | build
  | confirm
  | upload
  | pinMessage
  | useRbe
  | repoSyncOnly
  | cleanDirectories (what : Clean)
  | localManifest (name : Bytes)
  | device (codename : Bytes)
  | rom (name : Bytes)
  | androidVersion (version : F)
  | type (variant : Variant)
  deriving DecidableEq

-- "Retry" is `confirm`, "Tick RepoSync" is `repoSyncOnly`.
def buttons : Content F → List (Button F)
  | .main => [.build, .sendSystemInfo, .settings, .cancel, .cleanDirectories .directories]
  | .settings => [.repoSync, .upload, .pinMessage, .useRbe, .back]
  | .manifests names => names.map .localManifest ++ [.back]
  | .devices codenames => codenames.map .device ++ [.back]
  | .roms names => names.map .rom ++ [.back]
  | .versions versions => versions.map .androidVersion ++ [.back]
  | .types => [.type .user, .type .userDebug, .type .eng, .back]
  | .review (.staged ..) => [.confirm, .cancel]
  | .review (.chosen ..) => [.confirm, .back]
  | .failed _ => [.back, .confirm, .repoSyncOnly]
  | .cleanable rom build =>
    (if rom then [.cleanDirectories .rom] else []) ++
      (if rom && build then [.cleanDirectories .build] else []) ++ [.back]
  | .notice _ => [.back]
  | .progress => [.cancel]
  | .text _ => []

-- How a build ends that "Confirm" waits for. The last case is an exception that leaves the build
-- running.
inductive Outcome where
  | failed (text : Bytes)
  | finished (text : Bytes)
  | interrupted

structure Remote where
  outcome : Outcome
  cancelled : Bool
  pinned : Bool
  systemInfo : Bytes
  cleaned : Bool
  -- An error of the service, or which directories there are to clean.
  directories : Except Bytes (Bool × Bool)

structure ROMBuildQueryHandler (F : Type) where
  manifests : List (LocalManifest F)
  plan : Plan F
  didpin : Bool
  lookup : List (LocalManifest F)
  codename : Bytes
  sentMessage : Option ℕ
  messages : ℕ
  running : Bool

structure Config where
  rbeKey : Option Bytes
  githubToken : Option Bytes

abbrev Reaction (F : Type) := Lib.Reaction (ROMBuildQueryHandler F) Bytes (Shown F) (Order F)

section Press

variable (num : Numbers F) (cfg : Config) (remote : Remote) (h : ROMBuildQueryHandler F) (message : ℕ)

def edit (h : ROMBuildQueryHandler F) (content : Content F) (said : List Bytes) : Reaction F :=
  ⟨h, said, some ⟨message, content⟩, none⟩

def settingsOf (o : Options) : Settings where
  doRepoSync := o.doRepoSync
  doUpload := o.uploadMethod.isSome
  useRbeService := o.doUseRbe
  doCleanBuild := o.doCleanBuild
  useCcache := o.useCcache
  rbeApiToken := if o.doUseRbe then cfg.rbeKey else none

def requestOf (device : Device) (manifest : LocalManifest F) (p : Plan F) : BuildRequest F where
  configName := manifest.name
  targetDevice := device.codename
  romName := manifest.rom.romName
  romAndroidVersion := manifest.rom.androidVersion.version
  buildVariant := p.perBuild.variant
  githubToken := cfg.githubToken
  uploadMethod := p.options.uploadMethod
  parallelJobs := p.options.parallelJobs
  forceCheckout := p.options.forceCheckout

def afterBuild : ROMBuildQueryHandler F × Content F :=
  match remote.outcome with
  | .failed text => (h, .failed text)
  | .finished text => ({ h with sentMessage := none }, .text text)
  | .interrupted => ({ h with running := true }, .progress)

-- The settings read the key first, then the request reads the plan.
def handleConfirm : Option (Reaction F) :=
  if h.plan.options.doUseRbe = true ∧ cfg.rbeKey = none then none
  else match h.plan.perBuild.device, h.plan.perBuild.localManifest with
  | some device, some manifest =>
    some ⟨(afterBuild remote h).1, [ascii "Starting build..."],
      some ⟨message, (afterBuild remote h).2⟩,
      some ⟨settingsOf cfg h.plan.options, requestOf cfg device manifest h.plan⟩⟩
  | _, _ => none

def setOptions (write : Options → Options) : ROMBuildQueryHandler F :=
  { h with plan := { h.plan with options := write h.plan.options } }

def nowText (key : String) (value : Bytes) : Bytes := ascii key ++ ascii " is now " ++ value

def toggleRepoSync : ROMBuildQueryHandler F :=
  setOptions h fun o => { o with doRepoSync := !o.doRepoSync }

def repoSyncText (h : ROMBuildQueryHandler F) : Bytes :=
  nowText "Repo sync" (describe h.plan.options.doRepoSync)

def handleRepoSync : Reaction F :=
  edit message (toggleRepoSync h) .settings [repoSyncText (toggleRepoSync h)]

def handleRepoSyncOnly : Reaction F :=
  ⟨toggleRepoSync h, [repoSyncText (toggleRepoSync h)], none, none⟩

def nextUpload : Option UploadMethod → Option UploadMethod
  | none => some .goFile
  | some .goFile => some .stream
  | some .stream => some .localFile
  | some .localFile => none

def handleUpload : Reaction F :=
  let h := setOptions h fun o => { o with uploadMethod := nextUpload o.uploadMethod }
  edit message h .settings [nowText "Uploading" (describeUpload h.plan.options.uploadMethod)]

def handleUseRbe : Reaction F :=
  match cfg.rbeKey with
  | none => ⟨h, [ascii "No BuildBuddy API key set in config!"], none, none⟩
  | some _ =>
    let h := setOptions h fun o => { o with doUseRbe := !o.doUseRbe }
    edit message h .settings [nowText "Use RBE" (describe h.plan.options.doUseRbe)]

def handlePinMessage : Reaction F :=
  if remote.pinned then
    edit message { h with didpin := true } .settings
      [ascii "Trying to pin this message...", ascii "Pinned message"]
  else
    ⟨h, [ascii "Trying to pin this message...", ascii "Failed to pin message"], none, none⟩

def handleBack : Reaction F :=
  edit message { h with
    plan := h.plan.forget
    lookup := []
    codename := [] } .main []

def handleCancel : Reaction F :=
  if h.running then
    if remote.cancelled then
      ⟨{ h with running := false }, [ascii "Task successfully cancelled!"], none, none⟩
    else ⟨h, [ascii "Failed to cancel build on server"], none, none⟩
  else ⟨{ h with sentMessage := none }, [], none, none⟩

def handleSendSystemInfo : Reaction F := edit message h (.notice remote.systemInfo) []

def handleBuild : Reaction F :=
  edit message { h with lookup := h.manifests }
    (.manifests (sortedUnique (h.manifests.map LocalManifest.name))) []

def handleLocalManifest (name : Bytes) : Reaction F :=
  let lookup := h.lookup.filter fun m => m.name = name
  edit message { h with lookup }
    (.devices (sortedUnique ((lookup.flatMap LocalManifest.devices).map Device.codename))) []

def handleDevice (codename : Bytes) : Reaction F :=
  let lookup := h.lookup.filter fun m => m.devices.any fun device => device.codename = codename
  edit message { h with
    lookup
    codename } (.roms (lookup.map fun m => m.rom.romName).eraseDups) []

def handleRom [DecidableEq F] (name : Bytes) : Reaction F :=
  let lookup := h.lookup.filter fun m => m.rom.romName = name
  edit message { h with lookup } (.versions ((lookup.map fun m =>
    m.rom.androidVersion.version).dedup.insertionSort fun a b => num.le a b = true)) []

def tooManyText (n : ℕ) : Bytes :=
  ascii "Failed to assemble local manifest. Found " ++ ascii (toString n) ++ ascii " manifests"

def handleAndroidVersion (version : F) : Reaction F :=
  match h.lookup.filter fun m => num.eq m.rom.androidVersion.version version with
  | [manifest] =>
    let chosen := { h.plan.perBuild with localManifest := some manifest }
    match manifest.devices.find? fun device => device.codename = h.codename with
    | none =>
      edit message { h with
        lookup := [manifest]
        plan := { h.plan with perBuild := chosen } }
        (.text (ascii "Failed to assemble local manifest")) []
    | some device =>
      edit message { h with
        lookup := []
        plan := { h.plan with perBuild := { chosen with device := some device } } } .types []
  | lookup => edit message { h with lookup } (.text (tooManyText lookup.length)) []

def handleType (variant : Variant) : Option (Reaction F) :=
  let perBuild := { h.plan.perBuild with variant }
  match perBuild.device, perBuild.localManifest with
  | some device, some manifest =>
    some (edit message { h with plan := { h.plan with perBuild } }
      (.review (.chosen variant.name device.codename manifest.rom.romName
        manifest.rom.androidVersion.version)) [])
  | _, _ => none

def showDirectories (said : List Bytes) : Reaction F :=
  match remote.directories with
  | .error text => edit message h (.notice text) said
  | .ok (rom, build) => edit message h (.cleanable rom build) said

def waitText : Bytes := ascii "Wait... cleaning may take some time..."

def handleCleanDirectories : Clean → Reaction F
  | .directories => showDirectories remote h message []
  | .rom =>
    if remote.cleaned then showDirectories remote h message [waitText]
    else edit message h (.notice (ascii "Failed to clean ROM directory")) []
  | .build =>
    if remote.cleaned then showDirectories remote h message [waitText]
    else edit message h (.notice (ascii "Failed to clean build directory")) [waitText]

def dispatch [DecidableEq F] : Button F → Option (Reaction F)
  | .repoSync => some (handleRepoSync h message)
  | .back => some (handleBack h message)
  | .cancel => some (handleCancel remote h)
  | .settings => some (edit message h .settings [])
  | .sendSystemInfo => some (handleSendSystemInfo remote h message)
  | .build => some (handleBuild h message)
  | .confirm => handleConfirm cfg remote h message
  | .upload => some (handleUpload h message)
  | .pinMessage => some (handlePinMessage remote h message)
  | .useRbe => some (handleUseRbe cfg h message)
  | .repoSyncOnly => some (handleRepoSyncOnly h)
  | .cleanDirectories what => some (handleCleanDirectories remote h message what)
  | .localManifest name => some (handleLocalManifest h message name)
  | .device codename => some (handleDevice h message codename)
  | .rom name => some (handleRom num h message name)
  | .androidVersion version => some (handleAndroidVersion num h message version)
  | .type variant => handleType h message variant

-- Only the buttons of the last message count.
def onCallbackQuery [DecidableEq F] (shown : Shown F) (button : Button F) : Option (Reaction F) :=
  if h.sentMessage = some shown.message then dispatch num cfg remote h shown.message button
  else some ⟨h, [], none, none⟩

end Press

inductive Command where
  | start
  | stage (plan : Json)

namespace ROMBuildQueryHandler

variable (num : Numbers F) (cfg : Config) (h : ROMBuildQueryHandler F)

def initial (manifests : List (LocalManifest F)) : ROMBuildQueryHandler F :=
  ⟨manifests, .initial, false, [], [], none, 0, false⟩

-- A new message takes the place of the old one.
def send (plan : Plan F) (content : Content F) : Reaction F :=
  ⟨{ h with
      plan
      sentMessage := some h.messages
      messages := h.messages + 1 }, [], some ⟨h.messages, content⟩, none⟩

def start : Reaction F :=
  if h.running then ⟨h, [ascii "No no no. A build is currently running"], none, none⟩
  else h.send h.plan.forget .main

def stage (plan : Json) : Reaction F :=
  match Rom.stage num cfg.rbeKey plan h.running h.manifests h.plan with
  | .ok review p => h.send p (.review review)
  | .error (.refused text) p => ⟨{ h with plan := p }, [text], none, none⟩
  | .error (.threw what) p =>
    ⟨{ h with plan := p }, [ascii "Invalid ROM build plan: " ++ what], none, none⟩

end ROMBuildQueryHandler

def handler [DecidableEq F] (num : Numbers F) (cfg : Config) :
    Keyboard.Handler (ROMBuildQueryHandler F) Bytes Command (Button F) Remote (Shown F) (Order F)
      (Plan F) where
  plan := ROMBuildQueryHandler.plan
  buttons shown := buttons shown.content
  command h
    | .start => h.start
    | .stage plan => h.stage num cfg plan
  press h shown button remote := onCallbackQuery num cfg remote h shown button

end Glider.Builder.Rom

import Glider.Builder.Staging

namespace Glider.Builder.Kernel

open Glider.Lib
open Bytes (ascii)
open Staging (checked refuse)

structure Fragment where
  name : Bytes
  defaultEnabled : Bool
  deriving DecidableEq

-- The fragments are in the order in which the map is iterated.
structure KernelConfig where
  name : Bytes
  devices : List Bytes
  fragments : List (Bytes × Fragment)
  deriving DecidableEq

structure Intermidates where
  current : Option KernelConfig
  device : Bytes
  fragmentPreference : List (Bytes × Bool)
  cloneDepth : Int
  failOnFetch : Bool
  buildId : Int
  deriving DecidableEq

namespace Intermidates

def empty : Intermidates := ⟨none, [], [], 1, false, 0⟩

-- Assignment through `operator[]`.
def prefer (i : Intermidates) (name : Bytes) (enabled : Bool) : Intermidates :=
  { i with
    fragmentPreference :=
      if i.fragmentPreference.any (·.1 = name) then
        i.fragmentPreference.map fun p => if p.1 = name then (name, enabled) else p
      else i.fragmentPreference ++ [(name, enabled)] }

def preferred (i : Intermidates) (name : Bytes) : Bool :=
  ((i.fragmentPreference.find? (·.1 = name)).map Prod.snd).getD false

def enabledFragments (i : Intermidates) : List Bytes :=
  (i.fragmentPreference.filter Prod.snd).map Prod.fst

end Intermidates

-- What the review message shows.
structure Review where
  kernel : Bytes
  device : Bytes
  fragments : List Bytes
  cloneDepth : Int
  failOnFetch : Bool

namespace Review

def of (config : KernelConfig) (i : Intermidates) : Review :=
  ⟨config.name, i.device, i.enabledFragments, i.cloneDepth, i.failOnFetch⟩

def text (r : Review) : Bytes :=
  ascii "Review kernel build request:\nKernel: " ++ r.kernel ++ ascii "\nDevice: " ++ r.device ++
    ascii "\nEnabled fragments: " ++
    (if r.fragments.isEmpty then ascii "(none)" else join ", " r.fragments) ++
    ascii "\nClone depth: " ++ ascii (toString r.cloneDepth) ++ ascii "\nFail on fetch: " ++
    boolText r.failOnFetch ++ ascii "\n\nNo build will start until you confirm."

end Review

section Stage

def unknownConfig (configs : List KernelConfig) (name : Bytes) : Bytes :=
  ascii "Unknown kernel configuration '" ++ name ++ ascii "'. Available: " ++
    join ", " (configs.map KernelConfig.name)

def unsupportedDevice (config : KernelConfig) (device : Bytes) : Bytes :=
  ascii "Device '" ++ device ++ ascii "' is not supported by " ++ config.name ++
    ascii ". Available: " ++ join ", " config.devices

def unknownFragment (config : KernelConfig) (fragment : Bytes) : Bytes :=
  ascii "Unknown fragment '" ++ fragment ++ ascii "' for " ++ config.name ++
    ascii ". Available: " ++ join ", " (config.fragments.map fun f => f.2.name)

-- A reply after which the plan is reset.
def giveUp {α : Type} (text : Bytes) : Staging Intermidates α := do
  set Intermidates.empty
  refuse text

def applyFragment (config : KernelConfig) (enabled : Bool) (value : Json) :
    Staging Intermidates Unit := do
  let requested ← checked value.getString
  match config.fragments.find? fun f => f.2.name.equalsIgnoreCase requested with
  | none => giveUp (unknownFragment config requested)
  | some f => modify fun i => i.prefer f.2.name enabled

def applyValues (config : KernelConfig) (enabled : Bool) : List Json → Staging Intermidates Unit
  | [] => pure ()
  | value :: rest => do
      applyFragment config enabled value
      applyValues config enabled rest

def applyFragments (config : KernelConfig) (plan : Json) (field : String) (enabled : Bool) :
    Staging Intermidates Unit :=
  match plan.find (ascii field) with
  | none => pure ()
  | some values => applyValues config enabled values.items

def defaultPreferences (config : KernelConfig) (i : Intermidates) : Intermidates :=
  config.fragments.foldl (fun i f => i.prefer f.1 f.2.defaultEnabled) i

-- The part of `stage` after the configuration is found.
def stageConfig (int : Bytes → Int) (config : KernelConfig) (plan : Json) :
    Staging Intermidates Review := do
  modify fun i => { i with current := some config }
  let requestedDevice ← checked (plan.atString (ascii "device"))
  match config.devices.find? fun device => device.equalsIgnoreCase requestedDevice with
  | none => giveUp (unsupportedDevice config requestedDevice)
  | some device => do
      modify fun i => defaultPreferences config { i with device }
      applyFragments config plan "enable_fragments" true
      applyFragments config plan "disable_fragments" false
      let cloneDepth ← checked (plan.value (ascii "clone_depth") 1 (Json.getNumber int intOfBool))
      modify fun i => { i with cloneDepth }
      let failOnFetch ← checked (plan.value (ascii "fail_on_fetch") false Json.getBool)
      modify fun i => { i with failOnFetch }
      let i ← get
      return Review.of config i

def stage (int : Bytes → Int) (configs : List KernelConfig) (plan : Json) :
    Staging Intermidates Review := do
  set Intermidates.empty
  let kernelName ← checked (plan.atString (ascii "kernel"))
  match configs.find? fun config => config.name.equalsIgnoreCase kernelName with
  | none => refuse (unknownConfig configs kernelName)
  | some config => stageConfig int config plan

end Stage

structure BuildPrepareRequest where
  name : Bytes
  deviceName : Bytes
  configFragments : List Bytes
  cloneDepth : Int
  failOnFetch : Bool
  githubToken : Option Bytes

-- A row of the fragment selection has the label, whether it is enabled, and the name.
inductive Shown where
  | menu (configs : List Bytes)
  | devices (devices : List Bytes)
  | fragments (device : Bytes) (rows : List (Bytes × Bool × Bytes))
  | review (r : Review)
  | progress (buildId : Int)
  | text (content : Bytes)

inductive Button where
  | build (kernelName : Bytes)
  | select (device : Bytes)
  | enable (fragment : Bytes)
  | continue
  | cancel (buildId : Int)
  | abort
  deriving DecidableEq

-- "Done" and "Confirm build" are both `continue`.
def buttons : Shown → List Button
  | .menu configs => configs.map .build
  | .devices devices => devices.map .select
  | .fragments _ rows => rows.map (fun row => .enable row.2.2) ++ [.continue]
  | .review _ => [.continue, .abort]
  | .progress buildId => [.cancel buildId]
  | .text _ => []

-- The answers of the build service: the id of a prepared build, whether a build was cancelled, and
-- what the message of the build ends with. Where the last edit got lost its keyboard stays.
structure Remote where
  prepared : Option Int
  cancelled : Bool
  report : Bytes
  left : Option Int

abbrev Reaction (σ : Type) := Lib.Reaction σ Bytes Shown BuildPrepareRequest

section Press

variable (gitToken : Option Bytes) (remote : Remote)

def prepareRequest (config : KernelConfig) (i : Intermidates) : BuildPrepareRequest :=
  ⟨config.name, i.device, i.enabledFragments, i.cloneDepth, i.failOnFetch, gitToken⟩

def expired (i : Intermidates) : Reaction Intermidates :=
  ⟨i, [ascii "Build plan expired."], some (.text (ascii "Kernel build plan is no longer available.")),
    none⟩

def lastShown : Shown :=
  match remote.left with
  | some buildId => .progress buildId
  | none => .text remote.report

def handleContinue (i : Intermidates) : Reaction Intermidates :=
  match i.current with
  | none => expired i
  | some config =>
    if i.device = [] then expired i
    else
      ⟨{ i with buildId := remote.prepared.getD i.buildId }, [ascii "Starting build..."],
        some (lastShown remote), some (prepareRequest gitToken config i)⟩

def fragmentRows (config : KernelConfig) (i : Intermidates) : List (Bytes × Bool × Bytes) :=
  config.fragments.map fun f => (f.1, i.preferred f.1, f.2.name)

-- Reading through `operator[]` leaves an entry behind.
def touchFragments (config : KernelConfig) (i : Intermidates) : Intermidates :=
  config.fragments.foldl (fun i f => i.prefer f.1 (i.preferred f.1)) i

def handleSelectInternal (i : Intermidates) : Option (Reaction Intermidates) :=
  match i.current with
  | none => none
  | some config =>
    some ⟨touchFragments config i, [], some (.fragments i.device (fragmentRows config i)), none⟩

def selectDefaults (config : KernelConfig) (i : Intermidates) : Intermidates :=
  config.fragments.foldl (fun i f => i.prefer f.2.name f.2.defaultEnabled) i

def handleSelect (i : Intermidates) (device : Bytes) : Option (Reaction Intermidates) :=
  match i.current with
  | none => none
  | some config =>
    if config.fragments.isEmpty then some (handleContinue gitToken remote { i with device })
    else handleSelectInternal (selectDefaults config { i with device })

-- The loop over the configurations; more than one of them may have the name.
def handleBuild (kernelName : Bytes) :
    List KernelConfig → Intermidates → Option Shown → Option (Reaction Intermidates)
  | [], i, shown => some ⟨i, [], shown, none⟩
  | config :: rest, i, shown =>
    if config.name = kernelName then
      match config.devices with
      | [device] =>
        handleSelect gitToken remote { i with
          current := some config
          device } device
      | devices =>
        handleBuild kernelName rest { i with current := some config } (some (.devices devices))
    else handleBuild kernelName rest i shown

def enableText (i : Intermidates) (fragment : Bytes) : Bytes :=
  fragment ++ ascii ": Now enabled is " ++ boolText (i.preferred fragment)

def handleEnable (i : Intermidates) (fragment : Bytes) : Option (Reaction Intermidates) :=
  let i := i.prefer fragment (!i.preferred fragment)
  (handleSelectInternal i).map fun r => { r with said := [enableText i fragment] }

def handleCancel (i : Intermidates) : Reaction Intermidates :=
  if remote.cancelled then
    ⟨i, [ascii "Build cancelled!"], some (.text (ascii "Build cancelled!")), none⟩
  else ⟨i, [ascii "Error when cancelling build"], none, none⟩

def handleAbort : Reaction Intermidates :=
  ⟨.empty, [ascii "Build request cancelled."],
    some (.text (ascii "Kernel build request cancelled.")), none⟩

def handleCallbackQuery (configs : List KernelConfig) (i : Intermidates) :
    Button → Option (Reaction Intermidates)
  | .build kernelName => handleBuild gitToken remote kernelName configs i none
  | .select device => handleSelect gitToken remote i device
  | .enable fragment => handleEnable i fragment
  | .continue => some (handleContinue gitToken remote i)
  | .cancel _ => some (handleCancel remote i)
  | .abort => some handleAbort

end Press

structure KernelBuildHandler where
  configs : List KernelConfig
  intermidiates : Intermidates

inductive Command where
  | start (reloaded : List KernelConfig)
  | stage (plan : Json)

namespace KernelBuildHandler

def start (reloaded : List KernelConfig) : Reaction KernelBuildHandler :=
  if reloaded.isEmpty then
    ⟨⟨reloaded, .empty⟩, [ascii "No kernel configurations found."], none, none⟩
  else ⟨⟨reloaded, .empty⟩, [], some (.menu (reloaded.map KernelConfig.name)), none⟩

def stage (int : Bytes → Int) (h : KernelBuildHandler) (plan : Json) :
    Reaction KernelBuildHandler :=
  match Kernel.stage int h.configs plan h.intermidiates with
  | .ok review i => ⟨⟨h.configs, i⟩, [], some (.review review), none⟩
  | .error (.refused text) i => ⟨⟨h.configs, i⟩, [text], none, none⟩
  | .error (.threw what) i =>
    ⟨⟨h.configs, i⟩, [ascii "Invalid kernel build plan: " ++ what], none, none⟩

-- What a review is about; the id of the last build is not part of it.
def plan (h : KernelBuildHandler) : Intermidates := { h.intermidiates with buildId := 0 }

end KernelBuildHandler

def handler (int : Bytes → Int) (gitToken : Option Bytes) :
    Keyboard.Handler KernelBuildHandler Bytes Command Button Remote Shown BuildPrepareRequest
      Intermidates where
  plan := KernelBuildHandler.plan
  buttons := buttons
  command h
    | .start reloaded => KernelBuildHandler.start reloaded
    | .stage plan => h.stage int plan
  press h _ button remote :=
    (handleCallbackQuery gitToken remote h.configs h.intermidiates button).map fun r =>
      { r with next := ⟨h.configs, r.next⟩ }

end Glider.Builder.Kernel

import Glider.Lib.Assoc
import Glider.Lib.Json
import Glider.Lib.Threads

namespace Glider.Llm.BuilderLaunch

open Glider.Lib
open Bytes (ascii)

abbrev Object := Assoc Bytes Json

inductive Tool where
  | kernel
  | rom
  deriving DecidableEq

def Tool.name : Tool → Bytes
  | .kernel => ascii "kernelbuild"
  | .rom => ascii "rombuild"

def Tool.ofName (name : Bytes) : Option Tool :=
  if name = Tool.kernel.name then some .kernel
  else if name = Tool.rom.name then some .rom
  else none

-- What of a message identifies the admin.
structure Message where
  chat : Option ℤ
  sender : Option ℤ

def keyFor : Option Message → String
  | some ⟨some chat, some sender⟩ => s!"{chat}:{sender}"
  | _ => ""

-- The JSON library: how an object is written, and `get<int>()` of a number that is an integer.
structure Library where
  dump : Object → Except Bytes Bytes
  integer : Bytes → Option ℤ

def requiredFields : Tool → List Bytes
  | .kernel => [ascii "kernel", ascii "device"]
  | .rom => [ascii "device", ascii "rom", ascii "android_version", ascii "variant"]

def missing : Option Json → Bool
  | none | some .null | some (.string []) => true
  | _ => false

def missingFields (tool : Tool) (plan : Object) : List Bytes :=
  (requiredFields tool).filter fun field => missing (plan.find? field)

section Validate

variable (library : Library) (plan : Object)

-- A check that fails gives the text of its error.
def check (field : String) (good : Json → Bool) (error : String) : Option Bytes :=
  if (plan.find? (ascii field)).all good then none else some (ascii error)

def requireString (field : String) : Option Bytes :=
  check plan field (fun j => j.string?.isSome) s!"{field} must be a string."

def requireStrings (field : String) : Option Bytes :=
  check plan field (fun j => j.array?.any fun items => items.all fun item => item.string?.isSome)
    s!"{field} must be an array of strings."

def atLeast (bound : ℤ) : Json → Bool
  | .number text => (library.integer text).any fun n => bound ≤ n
  | _ => false

def isNumber : Json → Bool
  | .number _ => true
  | _ => false

def validateCommon : Tool → Option Bytes
  | .kernel =>
    (requireString plan "kernel").or <| (requireString plan "device").or <|
      (requireStrings plan "enable_fragments").or <|
      (requireStrings plan "disable_fragments").or <|
      check plan "clone_depth" (atLeast library 0) "clone_depth must be a non-negative integer."
  | .rom =>
    (requireString plan "device").or <| (requireString plan "rom").or <|
      (requireString plan "variant").or <| (requireString plan "manifest").or <|
      (check plan "android_version" isNumber "android_version must be numeric.").or <|
      check plan "parallel_jobs" (atLeast library 1) "parallel_jobs must be a positive integer."

end Validate

structure PendingPlans where
  kernel : Object
  rom : Object

namespace PendingPlans

def empty : PendingPlans := ⟨.empty, .empty⟩

def get (pending : PendingPlans) : Tool → Object
  | .kernel => pending.kernel
  | .rom => pending.rom

def set (pending : PendingPlans) (plan : Object) : Tool → PendingPlans
  | .kernel => { pending with kernel := plan }
  | .rom => { pending with rom := plan }

end PendingPlans

-- The critical sections of the executor, and the command that it invokes with the plan.
inductive Op where
  | merge (key : String) (tool : Tool) (input : Object)
  | invokeCommand (tool : Tool) (message : Option Message) (plan : Object)
  | clear (key : String) (tool : Tool)

abbrev Op.Answer : Op → Type
  | .merge _ _ _ => Except Bytes Object
  | .invokeCommand _ _ _ => Except Bytes Bool
  | .clear _ _ => Unit

abbrev Launch := Program Op Op.Answer Bytes

structure Reply where
  text : Bytes
  isError : Bool

structure Call where
  message : Option Message
  name : Bytes
  input : Json

-- An object of the JSON library has no key twice: the first member with a key counts.
def objectOf : Json → Option Object
  | .object members => some (Assoc.empty.insertAll members.reverse)
  | _ => none

def reset : Bytes := ascii "reset"

def staged (plan : Object) : Object := plan.insert (ascii "source") (.string (ascii "llm"))

def orThrow {α : Type} : Except Bytes α → Launch α
  | .ok a => .pure a
  | .error e => .throw e

def joinedBy (separator : String) (texts : List Bytes) : Bytes :=
  List.intercalate (ascii separator) texts

def stagePlan (library : Library) (message : Option Message) (tool : Tool) (plan : Object) :
    Launch Reply := do
  let _ ← orThrow (library.dump (staged plan))
  if !(← orThrow (← Program.perform (Op.invokeCommand tool message (staged plan)))) then
    pure ⟨ascii "Failed to stage the " ++ tool.name ++
      ascii " plan. The command may be unavailable, unauthorized, or busy.", true⟩
  else
    Program.perform (Op.clear (keyFor message) tool)
    let text ← orThrow (library.dump (staged plan))
    pure ⟨ascii "Staged the complete " ++ tool.name ++ ascii " plan in Telegram: " ++ text ++
      ascii (". The admin must review and confirm the final request there before execution."), false⟩

def updatePlan (library : Library) (message : Option Message) (tool : Tool) (input : Object) :
    Launch Reply := do
  let plan ← orThrow (← Program.perform (Op.merge (keyFor message) tool input))
  match validateCommon library plan tool with
  | some validationError => pure ⟨validationError, true⟩
  | none =>
    if missingFields tool plan ≠ [] then do
      let text ← orThrow (library.dump plan)
      pure ⟨tool.name ++ ascii " plan updated but is incomplete. Current plan: " ++ text ++
        ascii ". Missing required fields: " ++ joinedBy ", " (missingFields tool plan) ++
        ascii ". Ask the admin only for those fields, then call " ++ tool.name ++
        ascii " again with the answer.", false⟩
    else stagePlan library message tool plan

-- What `makeExecutor` returns, as one call of it.
def executor (library : Library) (call : Call) : Launch Reply :=
  match Tool.ofName call.name with
  | none => pure ⟨ascii "Unknown builder tool: " ++ call.name, true⟩
  | some tool =>
    match objectOf call.input with
    | none => pure ⟨tool.name ++ ascii " expects a JSON object.", true⟩
    | some input =>
      if keyFor call.message = "" then
        pure ⟨ascii "Builder tools require an authenticated Telegram user/chat.", true⟩
      else updatePlan library call.message tool input

-- `registry()`.
structure State where
  plans : String → Option PendingPlans

namespace State

def initial : State := ⟨fun _ => none⟩

variable (s : State) (key : String)

def pending : PendingPlans := (s.plans key).getD .empty

def plan (tool : Tool) : Object := (s.pending key).get tool

def setPending (pending : Option PendingPlans) : State := ⟨Function.update s.plans key pending⟩

-- `input.value("reset", false)`.
def resets (input : Object) : Except Bytes Bool :=
  match input.find? reset with
  | some value => value.getBool
  | none => .ok false

def suppliedFields (input : Object) : List (Bytes × Json) :=
  input.members.filter fun p => p.1 ≠ reset

def merge (tool : Tool) (input : Object) : State × Except Bytes Object :=
  match resets input with
  | .error e => (s.setPending key (some (s.pending key)), .error e)
  | .ok clears =>
    let target := if clears then .empty else s.plan key tool
    let target := target.insertAll (suppliedFields input)
    (s.setPending key (some ((s.pending key).set target tool)), .ok target)

def clear (tool : Tool) : State :=
  match s.plans key with
  | none => s
  | some pending =>
    let pending := pending.set .empty tool
    if pending.kernel.isEmpty && pending.rom.isEmpty then s.setPending key none
    else s.setPending key (some pending)

end State

-- How an invocation ends is up to the command.
def act (s : State) : (op : Op) → Except Bytes Bool → Option (State × Option op.Answer)
  | .merge key tool input, _ =>
    let (s, plan) := s.merge key tool input
    some (s, some plan)
  | .invokeCommand _ _ _, outcome => some (s, some outcome)
  | .clear key tool, _ => some (s.clear key tool, some ())

def system (library : Library) : System State Call (Except Bytes Bool) Op Op.Answer Bytes where
  program call := do
    let _ ← executor library call
    pure ()
  begins s _ _ := some s
  act s _ op outcome := act s op outcome
  ends s _ := s
  hangsUp _ _ := none

abbrev World := Threads State Call Op Op.Answer Bytes

abbrev Step := Move Call (Except Bytes Bool)

abbrev History := List (ℕ × Event Call Op Op.Answer Bytes)

def step (library : Library) : Transition World Step := Threads.step (system library)

def World.initial : World := Threads.initial State.initial

end Glider.Llm.BuilderLaunch

import Glider.KernelBuild.Preparing
import Glider.Lib.UnixPath

namespace Glider.KernelBuild

open Glider.Lib
open UnixPath (components isAbsolute parent)

-- The statuses that the calls on configurations end with.
inductive Refusal where
  | invalidArgument (message : String)
  | notFound (message : String)
  deriving DecidableEq

def validateConfigName (name : String) : Except Refusal Unit :=
  let path := name.toList
  if path = [] then .error (.invalidArgument "Config name cannot be empty")
  else if isAbsolute path then
    .error (.invalidArgument "Config name must be a relative path component")
  else if (components path).length ≠ 1 ∨ (parent path).isSome then
    .error (.invalidArgument "Config name must be a single path component")
  else if name = "." ∨ name = ".." then .error (.invalidArgument "Config name is not allowed")
  else .ok ()

section Requests

variable (fromStr : String → Except String KernelConfig)

def checkConfig (jsonContent : String) : Except Refusal KernelConfig :=
  match fromStr jsonContent with
  | .error e => .error (.invalidArgument s!"Bad JSON: {e}")
  | .ok config => do
      validateConfigName config.name
      return config

def addConfig (jsonContent : String) (configs : List KernelConfig) :
    Except Refusal String × List KernelConfig :=
  match checkConfig fromStr jsonContent with
  | .error refusal => (.error refusal, configs)
  | .ok config => (.ok "Config saved successfully", configs ++ [config])

def updateConfig (jsonContent : String) (configs : List KernelConfig) :
    Except Refusal String × List KernelConfig :=
  match checkConfig fromStr jsonContent with
  | .error refusal => (.error refusal, configs)
  | .ok config =>
    if configs.any (·.name = config.name) then
      (.ok "Config updated successfully",
        changeFirst KernelConfig.name config.name (fun _ => config) configs)
    else (.error (.notFound "Config not found"), configs)

end Requests

-- A name that is a single normal component.
def IsComponent (name : String) : Prop :=
  name ≠ "" ∧ name ≠ "." ∧ name ≠ ".." ∧ '/' ∉ name.toList

instance (name : String) : Decidable (IsComponent name) := inferInstanceAs (Decidable (_ ∧ _))

-- Joined to a directory, the name leads further down.
def StaysInside (name : String) : Prop :=
  ∀ dir, ∃ names : List UnixPath.Path, names ≠ [] ∧
    components (UnixPath.join dir name.toList) = components dir ++ names.map .normal

-- What validation is for.
structure NamesGuarded (name : String) : Prop where
  exact : validateConfigName name = .ok () ↔ IsComponent name
  stores : IsComponent name → ∀ fromStr json config configs, fromStr json = .ok config →
    config.name = name →
      addConfig fromStr json configs = (.ok "Config saved successfully", configs ++ [config])
  replaces : IsComponent name → ∀ fromStr json config configs, fromStr json = .ok config →
    config.name = name → (∃ known ∈ configs, known.name = name) →
      updateConfig fromStr json configs = (.ok "Config updated successfully",
        changeFirst KernelConfig.name name (fun _ => config) configs)
  inside : validateConfigName name = .ok () → StaysInside name

-- A relative path with one component has a parent, so no name gets through.
theorem validateConfigName_ne_ok (name : String) : validateConfigName name ≠ .ok () := by
  unfold validateConfigName
  intro hok
  by_cases hempty : name.toList = []
  · simp [hempty] at hok
  by_cases habsolute : isAbsolute name.toList = true
  · simp [hempty, habsolute] at hok
  by_cases hparts : (components name.toList).length ≠ 1 ∨ (parent name.toList).isSome = true
  · rw [if_neg hempty, if_neg habsolute, if_pos hparts] at hok
    cases hok
  · obtain ⟨hlength, hparent⟩ := not_or.mp hparts
    obtain ⟨c, hc⟩ := List.length_eq_one_iff.mp (not_not.mp hlength)
    have hsome := UnixPath.parent_of_single (Bool.eq_false_iff.mpr habsolute) hc
    exact hparent (by rw [hsome]; rfl)

theorem namesGuarded_iff (name : String) :
    NamesGuarded name ↔ name = "" ∨ name = "." ∨ name = ".." ∨ '/' ∈ name.toList := by
  have hbad : ¬IsComponent name ↔ name = "" ∨ name = "." ∨ name = ".." ∨ '/' ∈ name.toList := by
    unfold IsComponent
    tauto
  rw [← hbad]
  constructor
  · intro h hcomponent
    exact validateConfigName_ne_ok name (h.exact.mpr hcomponent)
  · intro hnot
    exact ⟨⟨fun hok => absurd hok (validateConfigName_ne_ok name), fun h => absurd h hnot⟩,
      fun h => absurd h hnot, fun h => absurd h hnot,
      fun hok => absurd hok (validateConfigName_ne_ok name)⟩

-- A plain name is refused, and with it the configuration.
theorem eureka_refused :
    ¬NamesGuarded eureka.name ∧
      addConfig (fun _ => .ok eureka) "" [] =
        (.error (.invalidArgument "Config name must be a single path component"), []) := by
  refine ⟨fun h => ?_, by decide⟩
  have hcomponent : IsComponent eureka.name := by decide
  have hrefused : validateConfigName eureka.name ≠ .ok () := by decide
  exact hrefused (h.exact.mpr hcomponent)

end Glider.KernelBuild

import Glider.Builder.Kernel.Handler

namespace Glider.Builder.Kernel

open Glider.Lib
open Bytes (ascii)

-- A review fits the plan it shows.
def Fits (plan : Intermidates) : Shown → Prop
  | .review r => ∃ config, plan.current = some config ∧ r = Review.of config plan
  | _ => True

-- Target and options are those of the review whose button was pressed.
structure Matches (r : Review) (request : BuildPrepareRequest) : Prop where
  name : request.name = r.kernel
  device : request.deviceName = r.device
  fragments : request.configFragments = r.fragments
  cloneDepth : request.cloneDepth = r.cloneDepth
  failOnFetch : request.failOnFetch = r.failOnFetch

def Agrees : Shown → Button → BuildPrepareRequest → Prop
  | .review r, .continue, request => Matches r request
  | _, _, _ => True

def Shown.isReview : Shown → Bool
  | .review _ => true
  | _ => false

def Button.selects : Button → Bool
  | .select _ => true
  | .enable _ => true
  | _ => false

-- "Confirm build" belongs to the present plan, or there is none; a device or a fragment is selected
-- while there is a configuration.
def Allowed (h : KernelBuildHandler) (shown : Shown) (button : Button) (fresh : Bool) : Prop :=
  (shown.isReview = true ∧ button = .continue →
    fresh = true ∨ h.intermidiates.current = none ∨ h.intermidiates.device = []) ∧
  (button.selects = true → h.intermidiates.current ≠ none)

instance (h : KernelBuildHandler) (shown : Shown) (button : Button) (fresh : Bool) :
    Decidable (Allowed h shown button fresh) :=
  inferInstanceAs (Decidable (_ ∧ _))

section Stage

variable {config : KernelConfig} {i i' : Intermidates}

theorem current_applyFragment {enabled : Bool} {value : Json} {u : Unit}
    (h : applyFragment config enabled value i = .ok u i') : i'.current = i.current := by
  obtain ⟨requested, t, ht, h⟩ := Staging.bind_eq_ok.mp h
  obtain ⟨-, rfl⟩ := Staging.checked_eq_ok.mp ht
  cases hf : config.fragments.find? fun f => f.2.name.equalsIgnoreCase requested with
  | none =>
    simp only [hf] at h
    cases h
  | some f =>
    simp only [hf] at h
    rw [← Staging.modify_eq_ok.mp h]
    rfl

theorem current_applyValues {enabled : Bool} {values : List Json} {u : Unit}
    (h : applyValues config enabled values i = .ok u i') : i'.current = i.current := by
  induction values generalizing i with
  | nil =>
    obtain ⟨-, rfl⟩ := Staging.pure_eq_ok.mp h
    rfl
  | cons value rest ih =>
    obtain ⟨_, t, ht, h⟩ := Staging.bind_eq_ok.mp h
    rw [ih h, current_applyFragment ht]

theorem current_applyFragments {plan : Json} {field : String} {enabled : Bool} {u : Unit}
    (h : applyFragments config plan field enabled i = .ok u i') : i'.current = i.current := by
  unfold applyFragments at h
  cases hvalues : plan.find (ascii field) with
  | none =>
    simp only [hvalues] at h
    obtain ⟨-, rfl⟩ := Staging.pure_eq_ok.mp h
    rfl
  | some values =>
    simp only [hvalues] at h
    exact current_applyValues h

theorem current_foldl {α : Type*} {write : Intermidates → α → Intermidates}
    (h : ∀ i a, (write i a).current = i.current) (l : List α) (i : Intermidates) :
    (l.foldl write i).current = i.current := by
  induction l generalizing i with
  | nil => rfl
  | cons a rest ih => rw [List.foldl_cons, ih, h]

theorem current_defaultPreferences (config : KernelConfig) (i : Intermidates) :
    (defaultPreferences config i).current = i.current := by
  apply current_foldl
  intro i f
  rfl

theorem current_selectDefaults (config : KernelConfig) (i : Intermidates) :
    (selectDefaults config i).current = i.current := by
  apply current_foldl
  intro i f
  rfl

-- A staged plan is the one that is shown.
theorem stageConfig_eq_ok {int : Bytes → Int} {plan : Json} {review : Review}
    (h : stageConfig int config plan i = .ok review i') :
    i'.current = some config ∧ review = Review.of config i' := by
  obtain ⟨_, t, ht, h⟩ := Staging.bind_eq_ok.mp h
  have hcurrent : t.current = some config := by rw [← Staging.modify_eq_ok.mp ht]
  obtain ⟨requested, t', ht', h⟩ := Staging.bind_eq_ok.mp h
  obtain ⟨-, rfl⟩ := Staging.checked_eq_ok.mp ht'
  cases hdevice : config.devices.find? fun device => device.equalsIgnoreCase requested with
  | none =>
    simp only [hdevice] at h
    cases h
  | some device =>
    simp only [hdevice] at h
    obtain ⟨_, t₁, h₁, h⟩ := Staging.bind_eq_ok.mp h
    obtain ⟨_, t₂, h₂, h⟩ := Staging.bind_eq_ok.mp h
    obtain ⟨_, t₃, h₃, h⟩ := Staging.bind_eq_ok.mp h
    obtain ⟨_, t₄, h₄, h⟩ := Staging.bind_eq_ok.mp h
    obtain ⟨-, rfl⟩ := Staging.checked_eq_ok.mp h₄
    obtain ⟨_, t₅, h₅, h⟩ := Staging.bind_eq_ok.mp h
    obtain ⟨_, t₆, h₆, h⟩ := Staging.bind_eq_ok.mp h
    obtain ⟨-, rfl⟩ := Staging.checked_eq_ok.mp h₆
    obtain ⟨_, t₇, h₇, h⟩ := Staging.bind_eq_ok.mp h
    obtain ⟨t₈, _, h₈, h⟩ := Staging.bind_eq_ok.mp h
    obtain ⟨rfl, rfl⟩ := Staging.get_eq_ok.mp h₈
    obtain ⟨rfl, rfl⟩ := Staging.pure_eq_ok.mp h
    refine ⟨?_, rfl⟩
    rw [← Staging.modify_eq_ok.mp h₇, ← Staging.modify_eq_ok.mp h₅]
    show t₃.current = some config
    rw [current_applyFragments h₃, current_applyFragments h₂, ← Staging.modify_eq_ok.mp h₁,
      current_defaultPreferences]
    exact hcurrent

theorem stage_eq_ok {int : Bytes → Int} {configs : List KernelConfig} {plan : Json}
    {review : Review} (h : stage int configs plan i = .ok review i') :
    ∃ config, i'.current = some config ∧ review = Review.of config i' := by
  obtain ⟨_, t, -, h⟩ := Staging.bind_eq_ok.mp h
  obtain ⟨kernelName, t', -, h⟩ := Staging.bind_eq_ok.mp h
  cases hconfig : configs.find? fun config => config.name.equalsIgnoreCase kernelName with
  | none =>
    simp only [hconfig] at h
    cases h
  | some config =>
    simp only [hconfig] at h
    exact ⟨config, stageConfig_eq_ok h⟩

end Stage

section Press

variable {gitToken : Option Bytes} {remote : Remote} {i : Intermidates}

theorem handleContinue_cases :
    (∃ config, i.current = some config ∧ i.device ≠ [] ∧ handleContinue gitToken remote i =
      ⟨{ i with buildId := remote.prepared.getD i.buildId }, [ascii "Starting build..."],
        some (lastShown remote), some (prepareRequest gitToken config i)⟩) ∨
    (i.current = none ∨ i.device = []) ∧ handleContinue gitToken remote i = expired i := by
  unfold handleContinue
  split
  · next hcurrent => exact .inr ⟨.inl hcurrent, rfl⟩
  · next config hcurrent =>
    split
    · next hdevice => exact .inr ⟨.inr hdevice, rfl⟩
    · next hdevice => exact .inl ⟨config, hcurrent, hdevice, rfl⟩

-- No press renders a review.
theorem fits_handleContinue (plan : Intermidates) :
    ∀ m ∈ (handleContinue gitToken remote i).shown, Fits plan m := by
  obtain ⟨config, -, -, heq⟩ | ⟨-, heq⟩ := @handleContinue_cases gitToken remote i
  · rw [heq]
    rintro m ⟨⟩
    unfold lastShown
    split
    · trivial
    · trivial
  · rw [heq]
    rintro m ⟨⟩
    trivial

theorem fits_handleSelectInternal (plan : Intermidates) {r : Reaction Intermidates}
    (h : handleSelectInternal i = some r) : ∀ m ∈ r.shown, Fits plan m := by
  unfold handleSelectInternal at h
  cases hcurrent : i.current with
  | none => simp [hcurrent] at h
  | some config =>
    simp only [hcurrent, Option.some.injEq] at h
    subst h
    rintro m ⟨⟩
    trivial

theorem fits_handleSelect (plan : Intermidates) {device : Bytes} {r : Reaction Intermidates}
    (h : handleSelect gitToken remote i device = some r) : ∀ m ∈ r.shown, Fits plan m := by
  unfold handleSelect at h
  cases hcurrent : i.current with
  | none => simp [hcurrent] at h
  | some config =>
    simp only [hcurrent] at h
    split at h
    · obtain rfl := Option.some.inj h
      exact fits_handleContinue plan
    · exact fits_handleSelectInternal plan h

theorem fits_handleBuild (plan : Intermidates) {kernelName : Bytes} {configs : List KernelConfig}
    {shown : Option Shown} {r : Reaction Intermidates} (hshown : ∀ m ∈ shown, Fits plan m)
    (h : handleBuild gitToken remote kernelName configs i shown = some r) :
    ∀ m ∈ r.shown, Fits plan m := by
  induction configs generalizing i shown with
  | nil =>
    obtain rfl := Option.some.inj h
    exact hshown
  | cons config rest ih =>
    unfold handleBuild at h
    split at h
    · split at h
      · exact fits_handleSelect plan h
      · refine ih ?_ h
        rintro m ⟨⟩
        trivial
    · exact ih hshown h

theorem fits_handleCallbackQuery (plan : Intermidates) {configs : List KernelConfig}
    {button : Button} {r : Reaction Intermidates}
    (h : handleCallbackQuery gitToken remote configs i button = some r) :
    ∀ m ∈ r.shown, Fits plan m := by
  cases button with
  | build kernelName => exact fits_handleBuild plan (by simp) h
  | select device => exact fits_handleSelect plan h
  | enable fragment =>
    obtain ⟨r', hr', rfl⟩ := Option.map_eq_some_iff.mp h
    have hfits := fits_handleSelectInternal plan hr'
    exact hfits
  | «continue» =>
    obtain rfl := Option.some.inj h
    exact fits_handleContinue plan
  | cancel buildId =>
    obtain rfl := Option.some.inj h
    unfold handleCancel
    split
    · rintro m ⟨⟩
      trivial
    · simp
  | abort =>
    obtain rfl := Option.some.inj h
    rintro m ⟨⟩
    trivial

-- With a configuration there is nothing unset to read.
theorem exists_handleSelectInternal (h : i.current ≠ none) :
    ∃ r, handleSelectInternal i = some r := by
  unfold handleSelectInternal
  split
  · next hcurrent => exact absurd hcurrent h
  · exact ⟨_, rfl⟩

theorem exists_handleSelect {device : Bytes} (h : i.current ≠ none) :
    ∃ r, handleSelect gitToken remote i device = some r := by
  unfold handleSelect
  split
  · next hcurrent => exact absurd hcurrent h
  · split
    · exact ⟨_, rfl⟩
    · refine exists_handleSelectInternal ?_
      rw [current_selectDefaults]
      exact h

theorem exists_handleBuild {kernelName : Bytes} {configs : List KernelConfig}
    {shown : Option Shown} :
    ∃ r, handleBuild gitToken remote kernelName configs i shown = some r := by
  induction configs generalizing i shown with
  | nil => exact ⟨_, rfl⟩
  | cons config rest ih =>
    unfold handleBuild
    split
    · split
      · exact exists_handleSelect (by simp)
      · exact ih
    · exact ih

-- "Confirm build" of a fitting review sends what it shows.
theorem agrees_handleContinue {h : KernelBuildHandler} {r : Review}
    (hfits : Fits h.plan (.review r)) :
    ∀ request ∈ (handleContinue gitToken remote h.intermidiates).sent, Matches r request := by
  obtain ⟨config, hcurrent, -, heq⟩ | ⟨-, heq⟩ :=
    @handleContinue_cases gitToken remote h.intermidiates
  · obtain ⟨config', hcurrent', rfl⟩ := hfits
    obtain rfl : config' = config := Option.some.inj (hcurrent'.symm.trans hcurrent)
    rw [heq]
    rintro request ⟨⟩
    exact ⟨rfl, rfl, rfl, rfl, rfl⟩
  · rw [heq]
    rintro request ⟨⟩

theorem agrees_of_ne_continue {shown : Shown} {button : Button} {request : BuildPrepareRequest}
    (hne : button ≠ .continue) : Agrees shown button request := by
  unfold Agrees
  split
  · exact absurd rfl hne
  · trivial

-- An allowed press reads nothing unset, and where it confirms a review it sends what that shows.
theorem press_of_allowed {h : KernelBuildHandler} {shown : Shown} {button : Button} {fresh : Bool}
    (hfresh : fresh = true → Fits h.plan shown) (hallowed : Allowed h shown button fresh) :
    ∃ r, handleCallbackQuery gitToken remote h.configs h.intermidiates button = some r ∧
      ∀ request ∈ r.sent, Agrees shown button request := by
  cases button with
  | build kernelName =>
    obtain ⟨r, hr⟩ := @exists_handleBuild gitToken remote h.intermidiates kernelName h.configs none
    exact ⟨r, hr, fun _ _ => agrees_of_ne_continue (by simp)⟩
  | select device =>
    obtain ⟨r, hr⟩ := @exists_handleSelect gitToken remote _ device (hallowed.2 rfl)
    exact ⟨r, hr, fun _ _ => agrees_of_ne_continue (by simp)⟩
  | enable fragment =>
    have hcurrent : (h.intermidiates.prefer fragment
      (!h.intermidiates.preferred fragment)).current ≠ none := hallowed.2 rfl
    obtain ⟨r, hr⟩ := exists_handleSelectInternal hcurrent
    exact ⟨_, Option.map_eq_some_iff.mpr ⟨r, hr, rfl⟩, fun _ _ => agrees_of_ne_continue (by simp)⟩
  | «continue» =>
    refine ⟨_, rfl, ?_⟩
    cases shown with
    | review r =>
      rcases hallowed.1 ⟨rfl, rfl⟩ with hkept | hnone
      · exact agrees_handleContinue (hfresh hkept)
      · obtain ⟨config, hcurrent, hdevice, -⟩ | ⟨-, heq⟩ :=
          @handleContinue_cases gitToken remote h.intermidiates
        · rcases hnone with hnone | hnone
          · simp [hnone] at hcurrent
          · exact absurd hnone hdevice
        · rw [heq]
          rintro request ⟨⟩
    | _ => exact fun _ _ => trivial
  | cancel buildId => exact ⟨_, rfl, fun _ _ => agrees_of_ne_continue (by simp)⟩
  | abort => exact ⟨_, rfl, fun _ _ => agrees_of_ne_continue (by simp)⟩

end Press

section Run

variable (int : Bytes → Int) (gitToken : Option Bytes)

theorem fits_command (h : KernelBuildHandler) (c : Command) :
    ∀ m ∈ ((handler int gitToken).command h c).shown,
      Fits ((handler int gitToken).plan ((handler int gitToken).command h c).next) m := by
  cases c with
  | start reloaded =>
    simp only [handler, KernelBuildHandler.start]
    split
    · simp
    · rintro m ⟨⟩
      trivial
  | stage plan =>
    simp only [handler, KernelBuildHandler.stage]
    split
    · next review i hstage =>
      obtain ⟨config, hcurrent, rfl⟩ := stage_eq_ok hstage
      rintro m ⟨⟩
      exact ⟨config, hcurrent, rfl⟩
    · simp
    · simp

theorem honest {configs : List KernelConfig}
    {inputs : List (Keyboard.Input Command Button Remote)}
    {s : Keyboard.Session KernelBuildHandler Button Shown BuildPrepareRequest}
    (hg : Transition.Guarded (Keyboard.Session.step (handler int gitToken))
      (Keyboard.Allowed Allowed) (Keyboard.Session.start ⟨configs, .empty⟩) inputs)
    (hp : Transition.path (Keyboard.Session.step (handler int gitToken))
      (Keyboard.Session.start ⟨configs, .empty⟩) inputs = some s) : Keyboard.Honest Agrees s := by
  refine Keyboard.honest_of_guarded (fits_command int gitToken) ?_ ?_ hg hp
  · intro h shown button remote r hr
    obtain ⟨r', hr', rfl⟩ := Option.map_eq_some_iff.mp hr
    exact fits_handleCallbackQuery _ hr'
  · intro h shown button remote fresh _ hfresh hallowed
    obtain ⟨r, hr, hsent⟩ := @press_of_allowed gitToken remote h shown button fresh hfresh hallowed
    exact ⟨_, Option.map_eq_some_iff.mpr ⟨r, hr, rfl⟩, hsent⟩

end Run

end Glider.Builder.Kernel

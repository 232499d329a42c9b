import Glider.Builder.Rom.Handler

namespace Glider.Builder.Rom

open Glider.Lib
open Bytes (ascii)

variable {F : Type}

-- A review fits the plan it shows.
def Review.Of (p : Plan F) : Review F → Prop
  | .staged device rom version variant manifest options => ∃ m,
      p.perBuild.device = some device ∧ p.perBuild.localManifest = some m ∧
        rom = m.rom.romName ∧ version = m.rom.androidVersion.version ∧
        variant = p.perBuild.variant.name ∧ manifest = m.name ∧ options = p.options
  | .chosen variant device rom version => ∃ d m,
      p.perBuild.device = some d ∧ p.perBuild.localManifest = some m ∧ device = d.codename ∧
        rom = m.rom.romName ∧ version = m.rom.androidVersion.version ∧
        variant = p.perBuild.variant.name

def Fits (p : Plan F) (shown : Shown F) : Prop :=
  match shown.content with
  | .review r => r.Of p
  | _ => True

-- Target and options are those of the review, as far as it shows them.
def Matches (order : Order F) : Review F → Prop
  | .staged device rom version variant manifest options =>
    order.request.targetDevice = device.codename ∧ order.request.romName = rom ∧
      order.request.romAndroidVersion = version ∧ order.request.buildVariant.name = variant ∧
      order.request.configName = manifest ∧ order.settings.doRepoSync = options.doRepoSync ∧
      order.settings.doCleanBuild = options.doCleanBuild ∧
      order.settings.useCcache = options.useCcache ∧
      order.settings.useRbeService = options.doUseRbe ∧
      order.settings.doUpload = options.uploadMethod.isSome ∧
      order.request.uploadMethod = options.uploadMethod ∧
      order.request.parallelJobs = options.parallelJobs ∧
      order.request.forceCheckout = options.forceCheckout
  | .chosen variant device rom version =>
    order.request.targetDevice = device ∧ order.request.romName = rom ∧
      order.request.romAndroidVersion = version ∧ order.request.buildVariant.name = variant

def Agrees (shown : Shown F) (button : Button F) (order : Order F) : Prop :=
  match shown.content, button with
  | .review r, .confirm => Matches order r
  | _, _ => True

def PlanSet (h : ROMBuildQueryHandler F) : Prop :=
  h.plan.perBuild.device ≠ none ∧ h.plan.perBuild.localManifest ≠ none

instance (h : ROMBuildQueryHandler F) : Decidable (PlanSet h) :=
  inferInstanceAs (Decidable (_ ∧ _))

def Content.isReview : Content F → Bool
  | .review _ => true
  | _ => false

def Button.isType : Button F → Bool
  | .type _ => true
  | _ => false

def Button.isConfirm : Button F → Bool
  | .confirm => true
  | _ => false

-- A build with RBE has its key.
def KeySet (cfg : Config) (h : ROMBuildQueryHandler F) : Prop :=
  h.plan.options.doUseRbe = true → cfg.rbeKey ≠ none

instance (cfg : Config) (h : ROMBuildQueryHandler F) : Decidable (KeySet cfg h) :=
  inferInstanceAs (Decidable (_ → _))

-- On the last message: "Confirm" belongs to the present plan and has the key it needs; a build is
-- tried again and a variant is chosen while there is a plan.
def Allowed (cfg : Config) (h : ROMBuildQueryHandler F) (shown : Shown F) (button : Button F)
    (fresh : Bool) : Prop :=
  h.sentMessage = some shown.message →
    (shown.content.isReview = true ∧ button.isConfirm = true → fresh = true) ∧
    (shown.content.isReview = false ∧ button.isConfirm = true ∨ button.isType = true →
      PlanSet h) ∧ (button.isConfirm = true → KeySet cfg h)

instance (cfg : Config) (h : ROMBuildQueryHandler F) (shown : Shown F) (button : Button F)
    (fresh : Bool) : Decidable (Allowed cfg h shown button fresh) :=
  inferInstanceAs (Decidable (_ → _ ∧ _ ∧ _))

section Stage

variable {p p' : Plan F}

theorem writeOptions_perBuild {write : Options → Options} {u : Unit}
    (h : (writeOptions write : Staging (Plan F) Unit) p = .ok u p') : p'.perBuild = p.perBuild := by
  rw [← Staging.modify_eq_ok.mp h]

theorem requireRbeKey_perBuild {rbeKey : Option Bytes} {doUseRbe : Bool} {u : Unit}
    (h : requireRbeKey rbeKey doUseRbe p = .ok u p') : p'.perBuild = p.perBuild := by
  unfold requireRbeKey at h
  by_cases hkey : (doUseRbe && rbeKey.isNone) = true
  · rw [if_pos hkey] at h
    cases h
  · rw [if_neg hkey] at h
    obtain ⟨-, rfl⟩ := Staging.pure_eq_ok.mp h
    rfl

theorem stageUpload_perBuild {text : Bytes} {u : Unit} (h : stageUpload text p = .ok u p') :
    p'.perBuild = p.perBuild := by
  unfold stageUpload at h
  split_ifs at h
  · exact writeOptions_perBuild h
  · exact writeOptions_perBuild h
  · exact writeOptions_perBuild h
  · obtain ⟨-, rfl⟩ := Staging.pure_eq_ok.mp h
    rfl
  · cases h

theorem stageOptions_perBuild {num : Numbers F} {rbeKey : Option Bytes} {plan : Json} {u : Unit}
    (h : stageOptions num rbeKey plan p = .ok u p') : p'.perBuild = p.perBuild := by
  obtain ⟨_, p₁, h₁, h⟩ := Staging.bind_eq_ok.mp h
  obtain ⟨-, rfl⟩ := Staging.checked_eq_ok.mp h₁
  obtain ⟨_, p₂, h₂, h⟩ := Staging.bind_eq_ok.mp h
  obtain ⟨_, p₃, h₃, h⟩ := Staging.bind_eq_ok.mp h
  obtain ⟨-, rfl⟩ := Staging.checked_eq_ok.mp h₃
  obtain ⟨_, p₄, h₄, h⟩ := Staging.bind_eq_ok.mp h
  obtain ⟨_, p₅, h₅, h⟩ := Staging.bind_eq_ok.mp h
  obtain ⟨_, p₆, h₆, h⟩ := Staging.bind_eq_ok.mp h
  obtain ⟨-, rfl⟩ := Staging.checked_eq_ok.mp h₆
  obtain ⟨_, p₇, h₇, h⟩ := Staging.bind_eq_ok.mp h
  obtain ⟨_, p₈, h₈, h⟩ := Staging.bind_eq_ok.mp h
  obtain ⟨-, rfl⟩ := Staging.checked_eq_ok.mp h₈
  obtain ⟨_, p₉, h₉, h⟩ := Staging.bind_eq_ok.mp h
  obtain ⟨_, p₁₀, h₁₀, h⟩ := Staging.bind_eq_ok.mp h
  obtain ⟨-, rfl⟩ := Staging.checked_eq_ok.mp h₁₀
  obtain ⟨_, p₁₁, h₁₁, h⟩ := Staging.bind_eq_ok.mp h
  obtain ⟨_, p₁₂, h₁₂, h⟩ := Staging.bind_eq_ok.mp h
  obtain ⟨-, rfl⟩ := Staging.checked_eq_ok.mp h₁₂
  obtain ⟨_, p₁₃, h₁₃, h⟩ := Staging.bind_eq_ok.mp h
  obtain ⟨_, p₁₄, h₁₄, h⟩ := Staging.bind_eq_ok.mp h
  obtain ⟨_, p₁₅, h₁₅, h⟩ := Staging.bind_eq_ok.mp h
  obtain ⟨-, rfl⟩ := Staging.checked_eq_ok.mp h₁₅
  rw [stageUpload_perBuild h, writeOptions_perBuild h₁₄, writeOptions_perBuild h₁₃,
    writeOptions_perBuild h₁₁, writeOptions_perBuild h₉, writeOptions_perBuild h₇,
    requireRbeKey_perBuild h₅, writeOptions_perBuild h₄, writeOptions_perBuild h₂]

theorem name_of_variantOf {text : Bytes} {variant : Variant} (h : variantOf text = some variant) :
    text.map Bytes.asciiToLower = variant.name := by
  unfold variantOf at h
  split_ifs at h with huser hdebug heng
  · obtain rfl := Option.some.inj h
    exact Bytes.equalsIgnoreCase_iff.mp huser
  · obtain rfl := Option.some.inj h
    exact Bytes.equalsIgnoreCase_iff.mp hdebug
  · obtain rfl := Option.some.inj h
    exact Bytes.equalsIgnoreCase_iff.mp heng

theorem stageVariant_eq_ok {text : Bytes} {u : Unit} (h : stageVariant text p = .ok u p') :
    p'.perBuild.device = p.perBuild.device ∧
      p'.perBuild.localManifest = p.perBuild.localManifest ∧
      text.map Bytes.asciiToLower = p'.perBuild.variant.name := by
  unfold stageVariant at h
  cases hvariant : variantOf text with
  | none =>
    simp only [hvariant] at h
    cases h
  | some variant =>
    simp only [hvariant] at h
    rw [← Staging.modify_eq_ok.mp h]
    exact ⟨rfl, rfl, name_of_variantOf hvariant⟩

-- A staged plan is the one that is shown.
theorem stageManifest_eq_ok {num : Numbers F} {rbeKey : Option Bytes} {plan : Json}
    {manifest : LocalManifest F} {r : Requested F} {review : Review F}
    (h : stageManifest num rbeKey plan manifest r p = .ok review p') : review.Of p' := by
  obtain ⟨_, p₁, h₁, h⟩ := Staging.bind_eq_ok.mp h
  cases hdevice : manifest.devices.find? fun device =>
      device.codename.equalsIgnoreCase r.device with
  | none =>
    simp only [hdevice] at h
    cases h
  | some device =>
    simp only [hdevice] at h
    obtain ⟨_, p₂, h₂, h⟩ := Staging.bind_eq_ok.mp h
    obtain ⟨_, p₃, h₃, h⟩ := Staging.bind_eq_ok.mp h
    obtain ⟨_, p₄, h₄, h⟩ := Staging.bind_eq_ok.mp h
    obtain ⟨p₅, _, h₅, h⟩ := Staging.bind_eq_ok.mp h
    obtain ⟨rfl, rfl⟩ := Staging.get_eq_ok.mp h₅
    obtain ⟨rfl, rfl⟩ := Staging.pure_eq_ok.mp h
    obtain ⟨hdev, hman, hname⟩ := stageVariant_eq_ok h₃
    have hkept := stageOptions_perBuild h₄
    rw [← Staging.modify_eq_ok.mp h₂] at hdev hman
    rw [← Staging.modify_eq_ok.mp h₁] at hman
    refine ⟨manifest, ?_, ?_, rfl, rfl, ?_, rfl, rfl⟩
    · rw [hkept, hdev]
    · rw [hkept, hman]
    · rw [hkept, ← hname]

theorem stage_eq_ok {num : Numbers F} {rbeKey : Option Bytes} {plan : Json} {running : Bool}
    {manifests : List (LocalManifest F)} {review : Review F}
    (h : stage num rbeKey plan running manifests p = .ok review p') : review.Of p' := by
  unfold stage at h
  cases running with
  | true => cases h
  | false =>
    simp only [Bool.false_eq_true, if_false] at h
    obtain ⟨r, p₁, h₁, h⟩ := Staging.bind_eq_ok.mp h
    cases hmatches : manifests.filter (candidate num r) with
    | nil =>
      simp only [hmatches] at h
      cases h
    | cons first rest =>
      simp only [hmatches] at h
      split_ifs at h
      · exact stageManifest_eq_ok h
      · cases h

end Stage

section Press

variable {num : Numbers F} {cfg : Config} {remote : Remote} {h : ROMBuildQueryHandler F} {message : ℕ}

-- What a reaction renders fits the plan it leaves.
def Fitting (r : Reaction F) : Prop := ∀ m ∈ r.shown, Fits r.next.plan m

theorem fitting_edit {content : Content F} {said : List Bytes}
    (hfits : Fits h.plan ⟨message, content⟩) : Fitting (edit message h content said) := by
  rintro m ⟨⟩
  exact hfits

theorem fitting_of_none {said : List Bytes} {sent : Option (Order F)} :
    Fitting (⟨h, said, none, sent⟩ : Reaction F) := by
  rintro m ⟨⟩

theorem fitting_handleAndroidVersion {version : F} :
    Fitting (handleAndroidVersion num h message version) := by
  unfold handleAndroidVersion
  split
  · simp only
    split
    · exact fitting_edit trivial
    · exact fitting_edit trivial
  · exact fitting_edit trivial

theorem fitting_showDirectories {said : List Bytes} :
    Fitting (showDirectories remote h message said) := by
  unfold showDirectories
  split
  · exact fitting_edit trivial
  · exact fitting_edit trivial

theorem fitting_handleCleanDirectories {what : Clean} :
    Fitting (handleCleanDirectories remote h message what) := by
  unfold handleCleanDirectories
  split
  · exact fitting_showDirectories
  · split
    · exact fitting_showDirectories
    · exact fitting_edit trivial
  · split
    · exact fitting_showDirectories
    · exact fitting_edit trivial

theorem handleConfirm_eq_some {r : Reaction F} (hr : handleConfirm cfg remote h message = some r) :
    ∃ device manifest, h.plan.perBuild.device = some device ∧
      h.plan.perBuild.localManifest = some manifest ∧
      r = ⟨(afterBuild remote h).1, [ascii "Starting build..."],
        some ⟨message, (afterBuild remote h).2⟩,
        some ⟨settingsOf cfg h.plan.options, requestOf cfg device manifest h.plan⟩⟩ := by
  unfold handleConfirm at hr
  split_ifs at hr
  split at hr
  · next device manifest hdevice hmanifest =>
    exact ⟨device, manifest, hdevice, hmanifest, (Option.some.inj hr).symm⟩
  · cases hr

theorem fitting_handleConfirm {r : Reaction F}
    (hr : handleConfirm cfg remote h message = some r) : Fitting r := by
  obtain ⟨device, manifest, -, -, rfl⟩ := handleConfirm_eq_some hr
  rintro m ⟨⟩
  simp only [afterBuild]
  split
  · trivial
  · trivial
  · trivial

-- The last page of the selection shows the plan as it is now.
theorem fitting_handleType {variant : Variant} {r : Reaction F}
    (hr : handleType h message variant = some r) : Fitting r := by
  unfold handleType at hr
  simp only at hr
  split at hr
  · next device manifest hdevice hmanifest =>
    obtain rfl := Option.some.inj hr
    exact fitting_edit ⟨device, manifest, hdevice, hmanifest, rfl, rfl, rfl, rfl⟩
  · cases hr

theorem fitting_dispatch [DecidableEq F] {button : Button F} {r : Reaction F}
    (hr : dispatch num cfg remote h message button = some r) : Fitting r := by
  cases button with
  | confirm => exact fitting_handleConfirm hr
  | type variant => exact fitting_handleType hr
  | androidVersion version =>
    obtain rfl := Option.some.inj hr
    exact fitting_handleAndroidVersion
  | cleanDirectories what =>
    obtain rfl := Option.some.inj hr
    exact fitting_handleCleanDirectories
  | pinMessage =>
    obtain rfl := Option.some.inj hr
    unfold handlePinMessage
    split
    · exact fitting_edit trivial
    · exact fitting_of_none
  | useRbe =>
    obtain rfl := Option.some.inj hr
    unfold handleUseRbe
    split
    · exact fitting_of_none
    · exact fitting_edit trivial
  | cancel =>
    obtain rfl := Option.some.inj hr
    unfold handleCancel
    split
    · split
      · exact fitting_of_none
      · exact fitting_of_none
    · exact fitting_of_none
  | repoSyncOnly =>
    obtain rfl := Option.some.inj hr
    exact fitting_of_none
  | repoSync =>
    obtain rfl := Option.some.inj hr
    exact fitting_edit trivial
  | back =>
    obtain rfl := Option.some.inj hr
    exact fitting_edit trivial
  | settings | sendSystemInfo | build | upload | localManifest name | device codename | rom name =>
    obtain rfl := Option.some.inj hr
    exact fitting_edit trivial

theorem fitting_onCallbackQuery [DecidableEq F] {shown : Shown F} {button : Button F}
    {r : Reaction F} (hr : onCallbackQuery num cfg remote h shown button = some r) :
    Fitting r := by
  unfold onCallbackQuery at hr
  split at hr
  · exact fitting_dispatch hr
  · obtain rfl := Option.some.inj hr
    exact fitting_of_none

-- With a plan and the key there is nothing unset to read.
theorem exists_handleConfirm (hset : PlanSet h) (hkey : KeySet cfg h) :
    ∃ r, handleConfirm cfg remote h message = some r := by
  obtain ⟨device, hdevice⟩ := Option.ne_none_iff_exists'.mp hset.1
  obtain ⟨manifest, hmanifest⟩ := Option.ne_none_iff_exists'.mp hset.2
  unfold handleConfirm
  rw [if_neg fun hnone => hkey hnone.1 hnone.2, hdevice, hmanifest]
  exact ⟨_, rfl⟩

theorem exists_handleType (variant : Variant) (hset : PlanSet h) :
    ∃ r, handleType h message variant = some r := by
  obtain ⟨device, hdevice⟩ := Option.ne_none_iff_exists'.mp hset.1
  obtain ⟨manifest, hmanifest⟩ := Option.ne_none_iff_exists'.mp hset.2
  simp [handleType, hdevice, hmanifest]

theorem Review.Of.planSet {r : Review F} (hr : r.Of h.plan) : PlanSet h := by
  cases r with
  | staged device rom version variant manifest options =>
    obtain ⟨m, hdevice, hmanifest, -⟩ := hr
    exact ⟨by simp [hdevice], by simp [hmanifest]⟩
  | chosen variant device rom version =>
    obtain ⟨d, m, hdevice, hmanifest, -⟩ := hr
    exact ⟨by simp [hdevice], by simp [hmanifest]⟩

-- "Confirm" of a fitting review sends what it shows.
theorem matches_handleConfirm {review : Review F} (hreview : review.Of h.plan) {r : Reaction F}
    (hr : handleConfirm cfg remote h message = some r) : ∀ order ∈ r.sent, Matches order review := by
  obtain ⟨device, manifest, hdevice, hmanifest, rfl⟩ := handleConfirm_eq_some hr
  rintro order ⟨⟩
  cases review with
  | staged device' rom version variant manifest' options =>
    obtain ⟨m, hdevice', hmanifest', rfl, rfl, rfl, rfl, rfl⟩ := hreview
    obtain rfl : device' = device := Option.some.inj (hdevice'.symm.trans hdevice)
    obtain rfl : m = manifest := Option.some.inj (hmanifest'.symm.trans hmanifest)
    exact ⟨rfl, rfl, rfl, rfl, rfl, rfl, rfl, rfl, rfl, rfl, rfl, rfl, rfl⟩
  | chosen variant device' rom version =>
    obtain ⟨d, m, hdevice', hmanifest', rfl, rfl, rfl, rfl⟩ := hreview
    obtain rfl : d = device := Option.some.inj (hdevice'.symm.trans hdevice)
    obtain rfl : m = manifest := Option.some.inj (hmanifest'.symm.trans hmanifest)
    exact ⟨rfl, rfl, rfl, rfl⟩

theorem agrees_of_ne_confirm {shown : Shown F} {button : Button F} {order : Order F}
    (hne : button ≠ .confirm) : Agrees shown button order := by
  unfold Agrees
  split
  · exact absurd rfl hne
  · trivial

-- An allowed press reads nothing unset, and where it confirms a review it sends what that shows.
theorem press_of_allowed [DecidableEq F] {shown : Shown F} {button : Button F} {fresh : Bool}
    (hfresh : fresh = true → Fits h.plan shown) (hallowed : Allowed cfg h shown button fresh) :
    ∃ r, onCallbackQuery num cfg remote h shown button = some r ∧
      ∀ order ∈ r.sent, Agrees shown button order := by
  unfold onCallbackQuery
  by_cases hmessage : h.sentMessage = some shown.message
  · rw [if_pos hmessage]
    have hok := hallowed hmessage
    obtain ⟨message, content⟩ := shown
    cases button with
    | confirm =>
      have hset : PlanSet h := by
        cases content with
        | review r => exact Review.Of.planSet (hfresh (hok.1 ⟨rfl, rfl⟩))
        | _ => exact hok.2.1 (.inl ⟨rfl, rfl⟩)
      obtain ⟨r, hr⟩ := @exists_handleConfirm F cfg remote h message hset (hok.2.2 rfl)
      refine ⟨r, hr, ?_⟩
      cases content with
      | review review => exact matches_handleConfirm (hfresh (hok.1 ⟨rfl, rfl⟩)) hr
      | _ => exact fun _ _ => trivial
    | type variant =>
      obtain ⟨r, hr⟩ := @exists_handleType F h message variant (hok.2.1 (.inr rfl))
      exact ⟨r, hr, fun _ _ => agrees_of_ne_confirm (by simp)⟩
    | _ => exact ⟨_, rfl, fun _ _ => agrees_of_ne_confirm (by simp)⟩
  · rw [if_neg hmessage]
    exact ⟨⟨h, [], none, none⟩, rfl, by simp⟩

end Press

section Run

variable [DecidableEq F] (num : Numbers F) (cfg : Config)

theorem fits_command (h : ROMBuildQueryHandler F) (c : Command) :
    ∀ m ∈ ((handler num cfg).command h c).shown,
      Fits ((handler num cfg).plan ((handler num cfg).command h c).next) m := by
  cases c with
  | start =>
    simp only [handler, ROMBuildQueryHandler.start]
    split
    · simp
    · rintro m ⟨⟩
      trivial
  | stage plan =>
    simp only [handler, ROMBuildQueryHandler.stage]
    split
    · next review p hstage =>
      rintro m ⟨⟩
      exact stage_eq_ok hstage
    · simp
    · simp

theorem honest {manifests : List (LocalManifest F)}
    {inputs : List (Keyboard.Input Command (Button F) Remote)}
    {s : Keyboard.Session (ROMBuildQueryHandler F) (Button F) (Shown F) (Order F)}
    (hg : Transition.Guarded (Keyboard.Session.step (handler num cfg)) (Keyboard.Allowed (Allowed cfg))
      (Keyboard.Session.start (.initial manifests)) inputs)
    (hp : Transition.path (Keyboard.Session.step (handler num cfg))
      (Keyboard.Session.start (.initial manifests)) inputs = some s) :
    Keyboard.Honest Agrees s := by
  refine Keyboard.honest_of_guarded (fits_command num cfg) ?_ ?_ hg hp
  · intro h shown button remote r hr
    exact fitting_onCallbackQuery hr
  · intro h shown button remote fresh _ hfresh hallowed
    exact press_of_allowed hfresh hallowed

end Run

end Glider.Builder.Rom

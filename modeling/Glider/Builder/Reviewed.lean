import Glider.Builder.Kernel.Reviewed
import Glider.Builder.Rom.Reviewed

namespace Glider.Builder

open Glider.Lib
open Bytes (ascii)
open Keyboard (Session)

-- In a run in which every "Confirm" belongs to the present plan and the selection goes on while there
-- is one, a confirmed build is the one that was reviewed, and nothing unset is read.
theorem confirmed_as_reviewed {F : Type} [DecidableEq F] (int : Bytes → Int)
    (gitToken : Option Bytes) (configs : List Kernel.KernelConfig) (num : Rom.Numbers F)
    (cfg : Rom.Config) (manifests : List (Rom.LocalManifest F)) :
    (∀ inputs s,
      Transition.Guarded (Session.step (Kernel.handler int gitToken))
        (Keyboard.Allowed Kernel.Allowed) (Session.start ⟨configs, .empty⟩) inputs →
      Transition.path (Session.step (Kernel.handler int gitToken))
        (Session.start ⟨configs, .empty⟩) inputs = some s →
      Keyboard.Honest Kernel.Agrees s) ∧
    ∀ inputs s,
      Transition.Guarded (Session.step (Rom.handler num cfg)) (Keyboard.Allowed (Rom.Allowed cfg))
        (Session.start (.initial manifests)) inputs →
      Transition.path (Session.step (Rom.handler num cfg))
        (Session.start (.initial manifests)) inputs = some s →
      Keyboard.Honest Rom.Agrees s :=
  ⟨fun _ _ => Kernel.honest int gitToken, fun _ _ => Rom.honest num cfg⟩

section Stale

def textField (key value : String) : Bytes × Json := (ascii key, .string (ascii value))

def kernelPlan (kernel device : String) : Json :=
  .object [textField "kernel" kernel, textField "device" device]

def pixel : Kernel.KernelConfig := ⟨ascii "pixel", [ascii "marlin", ascii "sailfish"], []⟩

def galaxy : Kernel.KernelConfig := ⟨ascii "galaxy", [ascii "a51"], []⟩

def kernelRemote : Kernel.Remote := ⟨some 1, false, ascii "Build process completed.", none⟩

def number (text : Bytes) : Int := text.foldl (fun n b => 10 * n + (b.toNat - 48)) 0

def romNumbers : Rom.Numbers ℤ where
  int := number
  float := number
  ofBool := intOfBool
  near a b := a = b
  eq a b := a = b
  le a b := a ≤ b
  text n := ascii (toString n)

def romPlan (device variant : String) (more : List (Bytes × Json)) : Json :=
  .object ([textField "device" device, textField "rom" "LineageOS",
    (ascii "android_version", .number (ascii "14")), textField "variant" variant] ++ more)

def lineage : Rom.LocalManifest ℤ where
  name := ascii "lineage"
  rom := ⟨ascii "lineage-21", ascii "LineageOS", ⟨14, ascii "14"⟩⟩
  devices := [⟨ascii "raven", ascii "Pixel 6 Pro"⟩, ⟨ascii "oriole", ascii "Pixel 6"⟩]

def romRemote : Rom.Remote :=
  ⟨.finished (ascii "Build complete!"), false, false, [], false, .ok (false, false)⟩

def kernelHandler := Kernel.handler number none

def romHandler := Rom.handler romNumbers ⟨none, none⟩

-- A second plan is staged, and the first review is confirmed.
def secondKernelPlan : List (Keyboard.Input Kernel.Command Kernel.Button Kernel.Remote) :=
  [.command (.stage (kernelPlan "pixel" "marlin")), .command (.stage (kernelPlan "galaxy" "a51")),
    .press 0 .continue kernelRemote]

-- The menu is opened again, and a device is selected on the old one.
def secondMenu : List (Keyboard.Input Kernel.Command Kernel.Button Kernel.Remote) :=
  [.command (.start [pixel, galaxy]), .press 0 (.build (ascii "pixel")) kernelRemote,
    .command (.start [pixel, galaxy]), .press 1 (.select (ascii "marlin")) kernelRemote]

-- A second plan throws after it has written its target, and the review is confirmed.
def brokenRomPlan : List (Keyboard.Input Rom.Command (Rom.Button ℤ) Rom.Remote) :=
  [.command (.stage (romPlan "raven" "user" [])),
    .command (.stage (romPlan "oriole" "eng" [textField "repo_sync" "yes"])),
    .press 0 .confirm romRemote]

-- A second plan is refused for its variant, and the review is confirmed.
def refusedRomPlan : List (Keyboard.Input Rom.Command (Rom.Button ℤ) Rom.Remote) :=
  [.command (.stage (romPlan "raven" "user" [])), .command (.stage (romPlan "raven" "debug" [])),
    .press 0 .confirm romRemote]

-- A plan is refused for want of a key, and a build is put together on the menu.
def keylessRomPlan : List (Keyboard.Input Rom.Command (Rom.Button ℤ) Rom.Remote) :=
  [.command (.stage (romPlan "raven" "user" [(ascii "use_rbe", .bool true)])), .command .start] ++
    [.build, .localManifest (ascii "lineage"), .device (ascii "raven"), .rom (ascii "LineageOS"),
      .androidVersion 14, .type .user, .confirm].mapIdx fun i button => .press i button romRemote

def kernelStart : Session Kernel.KernelBuildHandler Kernel.Button Kernel.Shown
    Kernel.BuildPrepareRequest := Session.start ⟨[pixel, galaxy], .empty⟩

def romStart : Session (Rom.ROMBuildQueryHandler ℤ) (Rom.Button ℤ) (Rom.Shown ℤ) (Rom.Order ℤ) :=
  Session.start (.initial [lineage])

def reviewedKernel : List (Keyboard.Input Kernel.Command Kernel.Button Kernel.Remote) :=
  [.command (.stage (kernelPlan "pixel" "marlin")), .press 0 .continue kernelRemote]

def reviewedRom : List (Keyboard.Input Rom.Command (Rom.Button ℤ) Rom.Remote) :=
  [.command (.stage (romPlan "raven" "user" [])), .press 0 .confirm romRemote]

theorem confirmed_as_reviewed_pixel_raven :
    (∃ s, Transition.path (Session.step kernelHandler) kernelStart reviewedKernel = some s ∧
      s.answered ≠ [] ∧ Keyboard.Honest Kernel.Agrees s) ∧
    ∃ s, Transition.path (Session.step romHandler) romStart reviewedRom = some s ∧
      s.answered ≠ [] ∧ Keyboard.Honest Rom.Agrees s := by
  obtain ⟨hkernel, hrom⟩ := confirmed_as_reviewed number none [pixel, galaxy] romNumbers ⟨none, none⟩
    [lineage]
  have hsent : ∃ s, Transition.path (Session.step kernelHandler) kernelStart reviewedKernel =
    some s ∧ s.answered ≠ [] := ⟨_, rfl, List.cons_ne_nil _ _⟩
  have hordered : ∃ s, Transition.path (Session.step romHandler) romStart reviewedRom =
    some s ∧ s.answered ≠ [] := ⟨_, rfl, List.cons_ne_nil _ _⟩
  obtain ⟨s, hs, hanswered⟩ := hsent
  obtain ⟨t, ht, hanswered'⟩ := hordered
  exact ⟨⟨s, hs, hanswered, hkernel reviewedKernel s (by decide) hs⟩,
    ⟨t, ht, hanswered', hrom reviewedRom t (by decide) ht⟩⟩

theorem unreviewed_builds :
    (∃ s, Transition.path (Session.step kernelHandler) kernelStart secondKernelPlan = some s ∧
      ¬Keyboard.Honest Kernel.Agrees s) ∧
    (∃ s, Transition.path (Session.step kernelHandler) kernelStart secondMenu = some s ∧
      ¬Keyboard.Honest Kernel.Agrees s) ∧
    (∃ s, Transition.path (Session.step romHandler) romStart brokenRomPlan = some s ∧
      ¬Keyboard.Honest Rom.Agrees s) ∧
    (∃ s, Transition.path (Session.step romHandler) romStart refusedRomPlan = some s ∧
      ¬Keyboard.Honest Rom.Agrees s) ∧
    ∃ s, Transition.path (Session.step romHandler) romStart keylessRomPlan = some s ∧
      ¬Keyboard.Honest Rom.Agrees s := by
  refine ⟨⟨_, rfl, ?_⟩, ⟨_, rfl, ?_⟩, ⟨_, rfl, ?_⟩, ⟨_, rfl, ?_⟩, ⟨_, rfl, ?_⟩⟩
  · intro h
    exact absurd (h.agreed _ List.mem_cons_self).name (by decide)
  · intro h
    exact absurd h.alive (by decide)
  · intro h
    exact absurd (h.agreed _ List.mem_cons_self).1 (by decide)
  · intro h
    exact absurd h.alive (by decide)
  · intro h
    exact absurd h.alive (by decide)

end Stale

end Glider.Builder

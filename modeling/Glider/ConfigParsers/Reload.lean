import Glider.ConfigParsers.Kept
import Glider.Lib.Transition

namespace Glider.ConfigParsers

open Glider.Lib
open Bytes (ascii)

-- `FileWithTimestamp::updated`.
def Loaded.updated (object : Loaded) (mtime : ℕ) : Bool × Loaded :=
  if mtime ≠ object.lastModified then (true, { object with lastModified := mtime })
  else (false, object)

-- A call of `reParse` that has returned or thrown, and the last content that had been accepted.
structure Call where
  result : Except Bytes Bool
  before : KernelConfig
  after : KernelConfig
  accepted : Bytes

structure World where
  content : Bytes
  mtime : ℕ
  object : Loaded
  reading : Bool
  accepted : Bytes
  calls : List Call

-- `reParse` checks the time of the file first and reads the file later.
inductive Step where
  | rewrite (content : Bytes) (mtime : ℕ)
  | check
  | read

variable (source : Source)

def step : Transition World Step
  | w, .rewrite content mtime =>
    if mtime ≠ w.mtime then some { w with content, mtime } else none
  | w, .check =>
    if w.reading then none
    else
      match w.object.updated w.mtime with
      | (true, object) => some { w with object, reading := true }
      | (false, object) =>
        some { w with
          calls := ⟨.ok false, w.object.config, object.config, w.accepted⟩ :: w.calls }
  | w, .read =>
    if w.reading then
      match parseFile source w.content w.object with
      | (.error what, object) =>
        some { w with
          object
          reading := false
          calls := ⟨.error what, w.object.config, object.config, w.accepted⟩ :: w.calls }
      | (.ok (), object) =>
        some { w with
          object
          reading := false
          accepted := w.content
          calls := ⟨.ok true, w.object.config, object.config, w.content⟩ :: w.calls }
    else none

-- The object has been constructed; the file may have been rewritten since.
structure Starts (w : World) : Prop where
  constructed : ∃ mtime, construct source mtime w.accepted = .ok w.object
  reading : w.reading = false
  calls : w.calls = []

-- The object is as one that is constructed from a content.
def AsFresh (c : KernelConfig) (content : Bytes) : Prop :=
  ∀ mtime, ∃ fresh, construct source mtime content = .ok fresh ∧ Same c fresh.config

structure Meets (call : Call) : Prop where
  fresh : AsFresh source call.after call.accepted
  unchanged : ∀ what, call.result = .error what → Same call.after call.before

-- A content that the object takes finds nothing in it that it does not replace; any other content
-- tells nothing new until it fails.
def Heeded (node : Json) (c : KernelConfig) : Prop :=
  match contentOf node with
  | some content =>
    if hasDependencyLoop (c.fragments.insertAll content.fragments) then
      Keeps c (Reading.all node)
    else Takes content c
  | none => Keeps c (Reading.all node)

def Heeds (w : World) : Step → Prop
  | .read => ∀ node, source.parseText w.content = .ok node → Heeded node w.object.config
  | _ => True

variable {source}

section Parse

variable {node : Json} {c c' : KernelConfig}

theorem parse_of_heeded (h : Heeded node c)
    (hparse : parse node c = (.ok true, c')) :
    ∃ fresh, parse node .initial = (.ok true, fresh) ∧ Same c' fresh := by
  obtain ⟨content, hcontent⟩ := contentOf_of_parse (congrArg Prod.fst hparse)
  rw [parse_of_contentOf hcontent] at hparse
  obtain ⟨hloop, rfl⟩ := Prod.mk.inj hparse
  have hloop : hasDependencyLoop (c.fragments.insertAll content.fragments) = false :=
    (Bool.not_eq_true' _).mp (Except.ok.inj hloop)
  unfold Heeded at h
  simp only [hcontent, hloop, Bool.false_eq_true, if_false] at h
  have hsame := h.same_load
  refine ⟨content.load .initial, ?_, hsame⟩
  rw [parse_of_contentOf hcontent]
  have hfresh : hasDependencyLoop (content.load .initial).fragments = false :=
    hasDependencyLoop_mono hloop fun name frag hfind => (hsame.fragments name).trans hfind
  rw [hfresh]
  rfl

theorem eq_of_heeded (h : Heeded node c) (hname : c.underscoredName = underscored c.name)
    (hparse : (parse node c).1 ≠ .ok true) : (parse node c).2 = c := by
  unfold Heeded at h
  split at h
  · next content hcontent =>
    split at h
    · exact parse_keeps hname h
    · next hloop =>
      rw [parse_of_contentOf hcontent] at hparse
      exact absurd (congrArg Except.ok ((Bool.not_eq_true' _).mpr (eq_false_of_ne_true hloop))) hparse
  · exact parse_keeps hname h

end Parse

theorem construct_of_parse {content : Bytes} {root : Json} {fresh : KernelConfig}
    (hroot : source.parseText content = .ok root) (hparse : parse root .initial = (.ok true, fresh))
    (mtime : ℕ) : construct source mtime content = .ok ⟨fresh, content, mtime⟩ := by
  simp only [construct, parseFile, hroot]
  rw [hparse]

theorem parse_of_construct {mtime : ℕ} {content : Bytes} {object : Loaded}
    (h : construct source mtime content = .ok object) :
    ∃ root, source.parseText content = .ok root ∧
      parse root .initial = (.ok true, object.config) := by
  unfold construct parseFile at h
  cases hroot : source.parseText content with
  | error what => rw [hroot] at h; cases h
  | ok root =>
    simp only [hroot] at h
    rcases hparse : parse root .initial with ⟨answer, config⟩
    rw [hparse] at h
    cases answer with
    | error what => cases h
    | ok good =>
      cases good with
      | false => cases h
      | true =>
        obtain rfl := Except.ok.inj h
        exact ⟨root, rfl, hparse⟩

theorem asFresh_of_parse {content : Bytes} {root : Json} {c fresh : KernelConfig}
    (hroot : source.parseText content = .ok root) (hparse : parse root .initial = (.ok true, fresh))
    (hsame : Same c fresh) : AsFresh source c content :=
  fun mtime => ⟨_, construct_of_parse hroot hparse mtime, hsame⟩

theorem underscoredName_of_parse {node : Json} {c c' : KernelConfig}
    (h : parse node c = (.ok true, c')) : c'.underscoredName = underscored c'.name := by
  obtain ⟨content, hcontent⟩ := contentOf_of_parse (congrArg Prod.fst h)
  rw [parse_of_contentOf hcontent] at h
  obtain ⟨-, rfl⟩ := Prod.mk.inj h
  rfl

theorem AsFresh.underscoredName {content : Bytes} {c : KernelConfig}
    (h : AsFresh source c content) : c.underscoredName = underscored c.name := by
  obtain ⟨fresh, hfresh, hsame⟩ := h 0
  obtain ⟨root, -, hparse⟩ := parse_of_construct hfresh
  rw [hsame.underscoredName, hsame.name]
  exact underscoredName_of_parse hparse

structure Inv (source : Source) (w : World) : Prop where
  object : AsFresh source w.object.config w.accepted
  calls : ∀ call ∈ w.calls, Meets source call

theorem inv_of_starts {w : World} (h : Starts source w) : Inv source w := by
  refine ⟨fun mtime => ?_, by simp [h.calls]⟩
  obtain ⟨_, hconstruct⟩ := h.constructed
  obtain ⟨root, hroot, hparse⟩ := parse_of_construct hconstruct
  exact asFresh_of_parse hroot hparse (Same.refl _) mtime

-- What the file gives to an object that heeds it.
theorem parseFile_of_heeded {content : Bytes} {object object' : Loaded}
    {answer : Except Bytes Unit} (h : parseFile source content object = (answer, object'))
    (hheeds : ∀ node, source.parseText content = .ok node → Heeded node object.config)
    (hname : object.config.underscoredName = underscored object.config.name) :
    match answer with
    | .ok () => AsFresh source object'.config content
    | .error _ => object'.config = object.config := by
  unfold parseFile at h
  cases hroot : source.parseText content with
  | error what =>
    rw [hroot] at h
    obtain ⟨rfl, rfl⟩ := Prod.mk.inj h
    rfl
  | ok root =>
    have hheeded := hheeds root hroot
    simp only [hroot] at h
    rcases hparse : parse root object.config with ⟨found, config⟩
    have hsame : found ≠ .ok true → config = object.config := by
      intro hne
      have := eq_of_heeded hheeded hname (by rwa [hparse])
      rwa [hparse] at this
    rw [hparse] at h
    cases found with
    | error what =>
      obtain ⟨rfl, rfl⟩ := Prod.mk.inj h
      exact hsame (nomatch ·)
    | ok good =>
      cases good with
      | false =>
        obtain ⟨rfl, rfl⟩ := Prod.mk.inj h
        exact hsame (by simp)
      | true =>
        obtain ⟨rfl, rfl⟩ := Prod.mk.inj h
        obtain ⟨fresh, hfresh, hsame⟩ := parse_of_heeded hheeded hparse
        exact asFresh_of_parse hroot hfresh hsame

theorem inv_step {w w' : World} {i : Step} (hinv : Inv source w) (hheeds : Heeds source w i)
    (hstep : step source w i = some w') : Inv source w' := by
  have hpush : ∀ call, Meets source call → ∀ call' ∈ call :: w.calls, Meets source call' := by
    intro call hcall call' hmem
    rcases List.mem_cons.mp hmem with rfl | hmem
    · exact hcall
    · exact hinv.calls call' hmem
  cases i with
  | rewrite content mtime =>
    obtain ⟨-, rfl⟩ := Transition.enabled_eq_some hstep
    exact ⟨hinv.object, hinv.calls⟩
  | check =>
    rw [step] at hstep
    split at hstep
    · cases hstep
    · unfold Loaded.updated at hstep
      by_cases hchanged : w.mtime ≠ w.object.lastModified
      · rw [if_pos hchanged] at hstep
        obtain rfl := Option.some.inj hstep
        exact ⟨hinv.object, hinv.calls⟩
      · rw [if_neg hchanged] at hstep
        obtain rfl := Option.some.inj hstep
        exact ⟨hinv.object, hpush _ ⟨hinv.object, fun _ h => nomatch h⟩⟩
  | read =>
    rw [step] at hstep
    split at hstep
    · rcases hparse : parseFile source w.content w.object with ⟨answer, object⟩
      have hresult := parseFile_of_heeded hparse hheeds hinv.object.underscoredName
      rw [hparse] at hstep
      cases answer with
      | error what =>
        obtain rfl := Option.some.inj hstep
        have hobject : AsFresh source object.config w.accepted := hresult ▸ hinv.object
        exact ⟨hobject, hpush _ ⟨hobject, fun _ _ => hresult ▸ Same.refl _⟩⟩
      | ok u =>
        obtain rfl := Option.some.inj hstep
        exact ⟨hresult, hpush _ ⟨hresult, fun _ h => nomatch h⟩⟩
    · cases hstep

theorem reload_as_load (source : Source) (start w : World) (steps : List Step)
    (hstart : Starts source start)
    (hheeds : Transition.Guarded (step source) (Heeds source) start steps)
    (hpath : Transition.path (step source) start steps = some w) :
    ∀ call ∈ w.calls, Meets source call :=
  (Transition.path_invariant (Inv source) (fun _ _ _ hinv hheeds => inv_step hinv hheeds)
    (inv_of_starts hstart) hheeds hpath).calls

section Example

def document (devices : List Bytes) : Json := .object
  [(ascii "name", .string (ascii "eureka")),
    (ascii "repo", .object
      [(ascii "url", .string (ascii "https://kernel")), (ascii "branch", .string (ascii "main"))]),
    (ascii "arch", .string (ascii "arm64")), (ascii "type", .string (ascii "Image")),
    (ascii "toolchains", .object [(ascii "clang", .bool false)]),
    (ascii "defconfig", .object
      [(ascii "scheme", .string (ascii "\x7bdevice\x7d_defconfig")),
        (ascii "devices", .array (devices.map .string))])]

-- The text of a file is its only device, and an empty file has none.
def deviceFile : Source where
  filename := ascii "eureka_kernel.json"
  parseText content := .ok (document (if content = [] then [] else [content]))

def deviceContent (devices : List Bytes) : Content where
  name := ascii "eureka"
  repo := (⟨ascii "https://kernel", ascii "main"⟩, none)
  arch := .arm64
  type := .image
  clangSupport := .none
  anyKernel := .absent
  defconfig := ⟨ascii "\x7bdevice\x7d_defconfig", devices⟩
  fragments := []
  env := []

theorem contentOf_document (content : Bytes) :
    contentOf (document [content]) = some (deviceContent [content]) := rfl

def deviceStart (content : Bytes) (devices : List Bytes) : World where
  content := content
  mtime := 0
  object := ⟨(deviceContent devices).load .initial, content, 0⟩
  reading := false
  accepted := content
  calls := []

theorem reload_as_load_grown : ∃ w,
    Transition.path (step deviceFile) (deviceStart [] [])
      [.rewrite (ascii "a10") 1, .check, .read] = some w ∧ w.calls.length = 1 ∧
    ∀ call ∈ w.calls, Meets deviceFile call := by
  obtain ⟨w, hpath, hcalls⟩ := Transition.exists_path (step deviceFile) (deviceStart [] [])
    [.rewrite (ascii "a10") 1, .check, .read] (fun w => w.calls.length = 1) (by decide +kernel)
  refine ⟨w, hpath, hcalls, reload_as_load deviceFile _ w _ ⟨⟨0, rfl⟩, rfl, rfl⟩ ?_ hpath⟩
  refine ⟨trivial, trivial, ?_, trivial⟩
  intro node hnode
  obtain rfl := Except.ok.inj hnode
  show Heeded (document [ascii "a10"]) _
  unfold Heeded
  rw [contentOf_document]
  exact ⟨fun _ => rfl, rfl, rfl, by decide, by decide⟩

-- A file that is written again with the same text gives the device a second time.
theorem devices_doubled : ¬∀ (source : Source) (start w : World) (steps : List Step),
    Starts source start → Transition.path (step source) start steps = some w →
    ∀ call ∈ w.calls, Meets source call := by
  intro h
  obtain ⟨w, hpath, call, hcall, hdevices⟩ := Transition.exists_path (step deviceFile)
    (deviceStart (ascii "a10") [ascii "a10"]) [.rewrite (ascii "a10") 1, .check, .read]
    (fun w => ∃ call ∈ w.calls, call.after.defconfig.devices = [ascii "a10", ascii "a10"] ∧
      call.accepted = ascii "a10") (by decide +kernel)
  obtain ⟨fresh, hfresh, hsame⟩ :=
    (h deviceFile _ w _ ⟨⟨0, rfl⟩, rfl, rfl⟩ hpath call hcall).fresh 0
  rw [hdevices.2] at hfresh
  have hone : fresh.config.defconfig.devices = [ascii "a10"] := by
    have hconstruct : construct deviceFile 0 (ascii "a10") =
        .ok (deviceStart (ascii "a10") [ascii "a10"]).object := rfl
    obtain rfl := Except.ok.inj (hfresh.symm.trans hconstruct)
    rfl
  rw [← hsame.defconfig, hdevices.1] at hone
  exact absurd hone (by decide)

end Example

end Glider.ConfigParsers

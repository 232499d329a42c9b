import Glider.RomBuild.Scripts

namespace Glider.RomBuild

open Glider.Lib

-- The directory tree, which stays as it is while the release is looked for.
abbrev Tree := Environment

namespace Tree

variable (tree : Tree) (path : Path)

def answers : (op : Op) → op.Answer
  | .observe => tree
  | .runProcess _ => .ok false
  | .sendLog _ _ | .recordFailure _ | .pushUpload _ | .recordSuccess => ()

abbrev eval {α : Type} (p : Pipeline α) : Except BuildError α := Program.eval tree.answers p

def files : List Path := ((tree.readDir path).toOption).getD []

-- The directories that are looked into can be listed.
structure Readable : Prop where
  scl : tree.isDir (path.join "build_config") = true → ∃ files, tree.readDir path = .ok files
  textproto : tree.isDir (path.join "release_configs") = true →
    ∃ files, tree.readDir (path.join "release_configs") = .ok files

-- A file name without its extension.
def stem (extension : String) (file : Path) : String :=
  let name := (file.fileName.getD "").toList
  String.ofList (name.take (name.length - (extension.length + 1)))

def stems (dir : Path) (extension : String) : List String :=
  if tree.isDir dir then
    ((tree.files dir).filter fun file => file.extension == some extension).map (stem extension)
  else []

-- The releases that a location has files for.
def candidates : List String :=
  tree.stems (path.join "build_config") "scl" ++
    (tree.stems (path.join "release_configs") "textproto").filter (· ∉ ["root", "trunk"])

def hasMap : Bool := tree.pathExists (path.join "release_config_map.textproto")

def Informs : Prop := tree.hasMap path = true ∨ tree.candidates path ≠ []

instance : Decidable (tree.Informs path) := inferInstanceAs (Decidable (_ ∨ _))

-- The release is the one that a location stands for.
def Names (release : Option String) : Prop :=
  if tree.hasMap path then release = some "aosp_current"
  else ∃ name ∈ tree.candidates path, release = some name

instance (release : Option String) : Decidable (tree.Names path release) :=
  inferInstanceAs (Decidable (if tree.hasMap path then release = some "aosp_current"
    else ∃ name ∈ tree.candidates path, release = some name))

-- A file that the search stops at. A repeated extension is cut off as a whole.
def bare (extension : String) (file : Path) : String :=
  trimEndMatches (file.fileName.getD "") s!".{extension}"

def counts (extension : String) (skipped : List String) (file : Path) : Bool :=
  file.extension == some extension && !skipped.contains (bare extension file)

-- The first `.scl` file beside `build_config`, and the first `.textproto` file that counts.
def sclFile : Option Path :=
  if tree.isDir (path.join "build_config") then (tree.files path).find? (counts "scl" []) else none

def textprotoFile : Option Path :=
  if tree.isDir (path.join "release_configs") then
    (tree.files (path.join "release_configs")).find? (counts "textproto" ["root", "trunk"])
  else none

end Tree

section Detection

variable {tree : Tree} {path : Path} {release : Option String}

theorem eval_bind {α β : Type} (p : Pipeline α) (f : α → Pipeline β) :
    tree.eval (p >>= f) = tree.eval p >>= fun a => tree.eval (f a) :=
  Program.eval_bind tree.answers p f

theorem eval_observe {α : Type} (f : Environment → α) :
    tree.eval (Pipeline.observe f) = .ok (f tree) := rfl

theorem ok_bind {α β : Type} (a : α) (f : α → Except BuildError β) :
    (.ok a >>= f) = f a := rfl

theorem eval_attempt {α : Type} {what : String} {f : Environment → Except String α} {a : α}
    (h : f tree = .ok a) : tree.eval (Pipeline.attempt what f) = .ok a := by
  rw [Pipeline.attempt, eval_bind, eval_observe, ok_bind, h]
  rfl

theorem releaseNamed_eq (extension : String) (skipped : List String) (files : List Path) :
    BuildTask.releaseNamed extension skipped files =
      (files.find? (Tree.counts extension skipped)).map (Tree.bare extension) := by
  simp only [BuildTask.releaseNamed, List.find?_map, List.find?_filter]
  congr 2
  funext file
  simp [Tree.counts, Tree.bare, beq_eq_decide]

theorem eval_releaseIn {what unread extension : String} {listing : Path} {skipped : List String}
    {files : List Path} (h : tree.readDir listing = .ok files) :
    tree.eval (BuildTask.releaseIn what listing extension skipped unread release) =
      .ok (((files.find? (Tree.counts extension skipped)).map (Tree.bare extension)).or
        release) := by
  rw [BuildTask.releaseIn, eval_bind, eval_attempt h, ok_bind, ← releaseNamed_eq]
  cases BuildTask.releaseNamed extension skipped files with
  | none | some name => rfl

theorem eval_sclRelease (h : tree.Readable path) :
    tree.eval (BuildTask.sclRelease path release) =
      .ok (((tree.sclFile path).map (Tree.bare "scl")).or release) := by
  rw [BuildTask.sclRelease, eval_bind, eval_observe, ok_bind, Tree.sclFile]
  split
  · next hdir =>
    obtain ⟨files, hfiles⟩ := h.scl hdir
    rw [eval_releaseIn hfiles, Tree.files, hfiles]
    rfl
  · rfl

theorem eval_textprotoRelease (h : tree.Readable path) :
    tree.eval (BuildTask.textprotoRelease path release) =
      .ok (((tree.textprotoFile path).map (Tree.bare "textproto")).or release) := by
  dsimp only [BuildTask.textprotoRelease]
  rw [eval_bind, eval_observe, ok_bind, Tree.textprotoFile]
  split
  · next hdir =>
    obtain ⟨files, hfiles⟩ := h.textproto hdir
    rw [eval_releaseIn hfiles, Tree.files, hfiles]
    rfl
  · rfl

-- What a location comes to.
def Tree.taken (tree : Tree) (path : Path) : Option String :=
  ((tree.textprotoFile path).map (bare "textproto")).or ((tree.sclFile path).map (bare "scl"))

-- A location with a map ends the search; another one overrides what was found before.
theorem eval_findRelease_cons (h : tree.Readable path) (rest : List Path) :
    tree.eval (BuildTask.findRelease (path :: rest) release) =
      if tree.hasMap path then .ok (some "aosp_current")
      else tree.eval (BuildTask.findRelease rest ((tree.taken path).or release)) := by
  rw [BuildTask.findRelease, eval_bind, eval_observe, ok_bind, ← Tree.hasMap]
  split
  · rfl
  · rw [eval_bind, eval_sclRelease h, ok_bind, eval_bind, eval_textprotoRelease h, ok_bind,
      Tree.taken, Option.or_assoc]

end Detection

section Search

variable (t : BuildTask) (vendor : String)

def releaseDir : Path := (t.buildDir.join "build").join "release"

def vendorDir : Path := (((t.buildDir.join "vendor").join vendor).join "build").join "release"

-- The choice is sound, complete, and the first location that says anything makes it.
def Detects (tree : Tree) (release : Option String) : Prop :=
  if tree.Informs (releaseDir t) then tree.Names (releaseDir t) release
  else if tree.Informs (vendorDir t vendor) then tree.Names (vendorDir t vendor) release
  else release = none

instance (tree : Tree) (release : Option String) : Decidable (Detects t vendor tree release) :=
  inferInstanceAs (Decidable (if tree.Informs (releaseDir t) then tree.Names (releaseDir t) release
    else if tree.Informs (vendorDir t vendor) then tree.Names (vendorDir t vendor) release
    else release = none))

-- Where there are no maps, four files decide. The first one that is there, from the vendor's
-- `.textproto` file to the `.scl` file of `build/release`, bears the name of a release of `path`.
structure Bears (tree : Tree) (path : Path) : Prop where
  vendorTextproto : ∀ file ∈ tree.textprotoFile (vendorDir t vendor),
    Tree.bare "textproto" file ∈ tree.candidates path
  vendorScl : tree.textprotoFile (vendorDir t vendor) = none →
    ∀ file ∈ tree.sclFile (vendorDir t vendor), Tree.bare "scl" file ∈ tree.candidates path
  textproto : tree.textprotoFile (vendorDir t vendor) = none →
    tree.sclFile (vendorDir t vendor) = none →
      ∀ file ∈ tree.textprotoFile (releaseDir t), Tree.bare "textproto" file ∈ tree.candidates path
  scl : tree.textprotoFile (vendorDir t vendor) = none →
    tree.sclFile (vendorDir t vendor) = none → tree.textprotoFile (releaseDir t) = none →
      ∃ file ∈ tree.sclFile (releaseDir t), Tree.bare "scl" file ∈ tree.candidates path

-- A map of the vendor's counts in spite of a release in `build/release`, and without any release
-- there must be no file to stop at.
def Settles (tree : Tree) : Prop :=
  tree.hasMap (releaseDir t) = false →
    if tree.candidates (releaseDir t) ≠ [] then
      if tree.hasMap (vendorDir t vendor) then "aosp_current" ∈ tree.candidates (releaseDir t)
      else Bears t vendor tree (releaseDir t)
    else tree.hasMap (vendorDir t vendor) = false →
      if tree.candidates (vendorDir t vendor) ≠ [] then Bears t vendor tree (vendorDir t vendor)
      else ∀ path ∈ [releaseDir t, vendorDir t vendor],
        tree.textprotoFile path = none ∧ tree.sclFile path = none

-- What the search comes to: a map in either place, or the file that is taken last.
def settled (tree : Tree) : Option String :=
  if tree.hasMap (releaseDir t) || tree.hasMap (vendorDir t vendor) then some "aosp_current"
  else (tree.taken (vendorDir t vendor)).or (tree.taken (releaseDir t))

variable {t vendor} {tree : Tree}

theorem eval_detectRelease (hfirst : tree.Readable (releaseDir t))
    (hsecond : tree.Readable (vendorDir t vendor)) :
    tree.eval (t.detectRelease vendor) =
      .ok (settled t vendor tree) := by
  have hfind : tree.eval (BuildTask.findRelease [releaseDir t, vendorDir t vendor] none) =
      .ok (settled t vendor tree) := by
    rw [eval_findRelease_cons hfirst, Option.or_none, settled]
    cases tree.hasMap (releaseDir t) with
    | true => rfl
    | false =>
      rw [if_neg Bool.false_ne_true, eval_findRelease_cons hsecond, Bool.false_or]
      split
      · rfl
      · rfl
  unfold BuildTask.detectRelease
  rw [eval_bind]
  change tree.eval (BuildTask.findRelease [releaseDir t, vendorDir t vendor] none) >>= _ = _
  rw [hfind, ok_bind]
  cases settled t vendor tree with
  | none | some name => rfl

theorem names_of_map {release : Option String} {path : Path} (h : tree.hasMap path = true) :
    tree.Names path release ↔ release = some "aosp_current" := by
  rw [Tree.Names, if_pos h]

theorem names_iff {release : Option String} {path : Path} (h : tree.hasMap path = false) :
    tree.Names path release ↔ ∃ name ∈ release, name ∈ tree.candidates path := by
  rw [Tree.Names, h, if_neg Bool.false_ne_true]
  constructor
  · rintro ⟨name, hname, rfl⟩
    exact ⟨name, rfl, hname⟩
  · rintro ⟨name, rfl, hname⟩
    exact ⟨name, hname, rfl⟩

theorem informs_of_map {path : Path} (h : tree.hasMap path = true) : tree.Informs path := .inl h

theorem informs_iff {path : Path} (h : tree.hasMap path = false) :
    tree.Informs path ↔ tree.candidates path ≠ [] := by
  rw [Tree.Informs, h]
  simp

theorem taken_eq_none {path : Path} :
    tree.taken path = none ↔ tree.textprotoFile path = none ∧ tree.sclFile path = none := by
  rw [Tree.taken, Option.or_eq_none_iff, Option.map_eq_none_iff, Option.map_eq_none_iff]

theorem bears_iff {path : Path} : Bears t vendor tree path ↔
    ∃ name ∈ (tree.taken (vendorDir t vendor)).or (tree.taken (releaseDir t)),
      name ∈ tree.candidates path := by
  rw [Tree.taken, Tree.taken]
  constructor
  · rintro ⟨hvendor, hvendorScl, htextproto, hscl⟩
    cases hfile : tree.textprotoFile (vendorDir t vendor) with
    | some file => exact ⟨_, rfl, hvendor file hfile⟩
    | none =>
      cases hsclFile : tree.sclFile (vendorDir t vendor) with
      | some file => exact ⟨_, rfl, hvendorScl hfile file hsclFile⟩
      | none =>
        cases hown : tree.textprotoFile (releaseDir t) with
        | some file => exact ⟨_, rfl, htextproto hfile hsclFile file hown⟩
        | none =>
          obtain ⟨file, hmem, hname⟩ := hscl hfile hsclFile hown
          exact ⟨_, by rw [Option.mem_def.mp hmem]; rfl, hname⟩
  · rintro ⟨name, hname, hmem⟩
    refine ⟨fun file hfile => ?_, fun hnone file hfile => ?_, fun hnone hnone' file hfile => ?_,
      fun hnone hnone' hown => ?_⟩
    · rw [Option.mem_def.mp hfile] at hname
      exact Option.some.inj hname ▸ hmem
    · rw [hnone, Option.mem_def.mp hfile] at hname
      exact Option.some.inj hname ▸ hmem
    · rw [hnone, hnone', Option.mem_def.mp hfile] at hname
      exact Option.some.inj hname ▸ hmem
    · rw [hnone, hnone', hown] at hname
      obtain ⟨file, hfile, rfl⟩ := Option.map_eq_some_iff.mp hname
      exact ⟨file, hfile, hmem⟩

-- Release detection is right just when these files name a release of the location that counts.
theorem detects_iff (hfirst : tree.Readable (releaseDir t))
    (hsecond : tree.Readable (vendorDir t vendor)) :
    (∃ release, tree.eval (t.detectRelease vendor) = .ok release ∧
      Detects t vendor tree release) ↔ Settles t vendor tree := by
  rw [eval_detectRelease hfirst hsecond, settled]
  simp only [Except.ok.injEq, exists_eq_left']
  unfold Detects Settles
  cases hmap : tree.hasMap (releaseDir t) with
  | true =>
    rw [Bool.true_or, if_pos rfl, if_pos (informs_of_map hmap), names_of_map hmap]
    exact iff_of_true rfl nofun
  | false =>
    simp only [Bool.false_or, forall_const, ← informs_iff hmap]
    cases hother : tree.hasMap (vendorDir t vendor) with
    | true =>
      rw [if_pos rfl, if_pos (informs_of_map hother), names_of_map hother]
      split
      · rw [names_iff hmap, if_pos rfl]
        simp
      · exact iff_of_true rfl nofun
    | false =>
      simp only [Bool.false_eq_true, if_false, forall_const, ← informs_iff hother, bears_iff]
      split
      · exact names_iff hmap
      · split
        · exact names_iff hother
        · simp only [List.forall_mem_cons, Option.or_eq_none_iff, taken_eq_none]
          exact and_comm.trans (and_congr_right fun _ => (and_iff_left (by simp)).symm)

end Search

section Sample

-- The release is found in `build/release`.
def apTree : Tree :=
  { Plain.env with
    isDir := fun path => path == "/rom/build/release/release_configs"
    readDir := fun path =>
      if path == "/rom/build/release/release_configs" then .ok [path.join "ap3a.textproto"]
      else .ok [] }

theorem detects_iff_apTree :
    (apTree.eval (ravenTask.detectRelease "lineage")).toOption = some (some "ap3a") ∧
      Settles ravenTask "lineage" apTree := by
  have hdetected : (apTree.eval (ravenTask.detectRelease "lineage")).toOption =
      some (some "ap3a") := by decide +kernel
  refine ⟨hdetected, (detects_iff ⟨fun h => ?_, fun h => ?_⟩ ⟨fun h => ?_, fun h => ?_⟩).mp
    ⟨some "ap3a", ?_, by decide +kernel⟩⟩
  · exact absurd h (by decide +kernel)
  · exact ⟨["/rom/build/release/release_configs/ap3a.textproto"], by decide +kernel⟩
  · exact absurd h (by decide +kernel)
  · exact absurd h (by decide +kernel)
  · revert hdetected
    cases apTree.eval (ravenTask.detectRelease "lineage") with
    | error e => exact nofun
    | ok release => exact fun h => congrArg Except.ok (Option.some.inj h)

-- The vendor has a release too.
def vendorTree : Tree :=
  { apTree with
    isDir := fun path => path == "/rom/build/release/release_configs" ||
      path == "/rom/vendor/lineage/build/release/release_configs"
    readDir := fun path =>
      if path == "/rom/build/release/release_configs" then .ok [path.join "ap3a.textproto"]
      else .ok [path.join "bp1a.textproto"] }

-- A directory `build_config` with the file of a release in it.
def sclTree : Tree :=
  { apTree with
    isDir := fun path => path == "/rom/build/release/build_config" || path == "/rom/build/release"
    readDir := fun path =>
      if path == "/rom/build/release/build_config" then .ok [path.join "ap2a.scl"]
      else .ok ["/rom/build/release/build_config"] }

theorem release_replaced :
    (vendorTree.eval (ravenTask.detectRelease "lineage")).toOption = some (some "bp1a") ∧
      ¬Detects ravenTask "lineage" vendorTree (some "bp1a") ∧
      (sclTree.eval (ravenTask.detectRelease "lineage")).toOption = some none ∧
      ¬Detects ravenTask "lineage" sclTree none :=
  ⟨by decide +kernel, by decide +kernel, by decide +kernel, by decide +kernel⟩

end Sample

end Glider.RomBuild

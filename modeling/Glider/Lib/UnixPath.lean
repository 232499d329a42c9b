import Mathlib.Data.List.Basic

namespace Glider.Lib.UnixPath

-- Paths as Rust reads them on Unix.
abbrev Path := List Char

inductive Component where
  | rootDir
  | curDir
  | parentDir
  | normal (name : Path)

def isAbsolute (path : Path) : Bool := path.head? = some '/'

def component? (piece : Path) : Option Component :=
  if piece = [] ∨ piece = ['.'] then none
  else if piece = ['.', '.'] then some .parentDir
  else some (.normal piece)

-- Repeated and trailing separators do not count, nor does a dot that is not at the beginning.
def components (path : Path) : List Component :=
  match path.splitOn '/' with
  | ['.'] :: rest => .curDir :: rest.filterMap component?
  | pieces => (if isAbsolute path then [.rootDir] else []) ++ pieces.filterMap component?

-- The components without the last one. Only the root and the empty path have no parent.
def parent (path : Path) : Option (List Component) :=
  match (components path).getLast? with
  | none | some .rootDir => none
  | some _ => some (components path).dropLast

def join (path name : Path) : Path :=
  if isAbsolute name then name
  else if path = [] ∨ path.getLast? = some '/' then path ++ name
  else path ++ '/' :: name

section Components

variable {path : Path}

theorem component?_ne_rootDir (piece : Path) : component? piece ≠ some .rootDir := by
  unfold component?
  split
  · simp
  · split <;> simp

theorem rootDir_notMem_filterMap (pieces : List Path) :
    .rootDir ∉ pieces.filterMap component? := by
  intro hmem
  obtain ⟨piece, -, hpiece⟩ := List.mem_filterMap.mp hmem
  exact component?_ne_rootDir piece hpiece

theorem isAbsolute_of_rootDir_mem (h : .rootDir ∈ components path) : isAbsolute path = true := by
  unfold components at h
  split at h
  · next rest hpieces =>
    have hrest := rootDir_notMem_filterMap rest
    simp [hrest] at h
  · cases habsolute : isAbsolute path with
    | true => rfl
    | false =>
      rw [habsolute, if_neg Bool.false_ne_true, List.nil_append] at h
      exact absurd h (rootDir_notMem_filterMap _)

-- The parent of a single component is there, and it is empty.
theorem parent_of_single {c : Component} (hrelative : isAbsolute path = false)
    (h : components path = [c]) : parent path = some [] := by
  have hroot : c ≠ .rootDir := by
    rintro rfl
    have hmem : .rootDir ∈ components path := by
      rw [h]
      exact List.mem_singleton_self _
    have habsolute := isAbsolute_of_rootDir_mem hmem
    rw [hrelative] at habsolute
    cases habsolute
  rw [parent, h]
  cases c with
  | rootDir => exact absurd rfl hroot
  | curDir | parentDir | normal _ => rfl

end Components

end Glider.Lib.UnixPath

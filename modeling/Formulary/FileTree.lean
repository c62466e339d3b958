import Formulary.Entries
import Formulary.Path

/-! Files and directories below the working directory. -/

namespace Formulary

inductive FileFault where
  | notFound
  | isDirectory
  | notDirectory
deriving DecidableEq, Repr

structure FileTree where
  files : Entries Place (List UInt8) := []
  /-- The directories below the working directory, which stay when they become empty. -/
  directories : List Place := []
deriving Repr

namespace FileTree

/-- The working directory and all above it are there. -/
def isDirectory (tree : FileTree) (place : Place) : Bool :=
  place.all (· = "..") || tree.directories.contains place

/-- The place that names lead to, if all but the last stand for directories. -/
def walk (tree : FileTree) (place : Place) : List String → Except FileFault Place
  | [] => .ok place
  | name :: rest =>
    if tree.isDirectory place then tree.walk (place.enter name) rest
    else if (tree.files.get? place).isSome then .error .notDirectory
    else .error .notFound

def find (tree : FileTree) (path : Path) : Except FileFault Place :=
  if path.root.isEmpty then tree.walk [] path.segments else .error .notFound

def read (tree : FileTree) (path : Path) : Except FileFault (List UInt8) := do
  let place ← tree.find path
  match tree.files.get? place with
  | some bytes => return bytes
  | none => .error (if tree.isDirectory place then .isDirectory else .notFound)

def isFile (tree : FileTree) (path : Path) : Bool :=
  match tree.read path with
  | .ok _ => true
  | .error _ => false

theorem walk_eq_foldl {tree : FileTree} {place found : Place} {names : List String}
    (h : tree.walk place names = .ok found) : found = names.foldl Place.enter place := by
  induction names generalizing place with
  | nil => simpa [walk] using h.symm
  | cons name rest ih =>
    unfold walk at h
    split at h
    · exact ih h
    · split at h <;> contradiction

theorem find_eq_place {tree : FileTree} {path : Path} {found : Place} (h : tree.find path = .ok found) :
    found = path.place := by
  unfold find at h
  split at h
  · exact walk_eq_foldl h
  · contradiction

/-- A file that can be read stands at the place of its path. -/
theorem exists_mem_of_read {tree : FileTree} {path : Path} {bytes : List UInt8}
    (h : tree.read path = .ok bytes) : ∃ file ∈ tree.files, file.1 = path.place := by
  unfold read at h
  cases hf : tree.find path with
  | error fault => simp [hf, bind, Except.bind] at h
  | ok place =>
    have hp := find_eq_place hf
    subst hp
    simp only [hf, bind, Except.bind] at h
    split at h
    · rename_i found
      obtain ⟨file, hfile, -⟩ := Option.map_eq_some_iff.1 found
      exact ⟨file, List.mem_of_find?_eq_some hfile, by simpa using List.find?_some hfile⟩
    · contradiction

/-- The places that names lead through. -/
def placesOn (place : Place) : List String → List Place
  | [] => []
  | name :: rest => place.enter name :: placesOn (place.enter name) rest

/-- The tree with a directory at a place. -/
def makeDirectory (tree : FileTree) (place : Place) : Except FileFault FileTree :=
  if tree.isDirectory place then .ok tree
  else if (tree.files.get? place).isSome then .error .notDirectory
  else .ok { tree with directories := tree.directories ++ [place] }

/-- The tree with a file at a path, for which the directories on the way are made. -/
def write (tree : FileTree) (path : Path) (bytes : List UInt8) : Except FileFault FileTree := do
  let tree ← (placesOn [] path.parent.segments).foldlM makeDirectory tree
  if tree.isDirectory path.place then .error .isDirectory
  else return { tree with files := tree.files.put path.place bytes }

def remove (tree : FileTree) (path : Path) : Except FileFault FileTree := do
  let _ ← tree.read path
  return { tree with files := tree.files.erase path.place }

end FileTree

end Formulary

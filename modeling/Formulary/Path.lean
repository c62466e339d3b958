import Formulary.Text.Split

/-!
Paths as they are written, and the places that they lead to. A path keeps its steps upwards; a place is what
remains when they are taken.
-/

namespace Formulary

/-- Names between slashes. The root is empty for a path that starts in the working directory. -/
structure Path where
  root : String := ""
  segments : List String
deriving DecidableEq, Repr

/-- The names from the working directory down. Steps upwards stand only in front, where they lead out of it. -/
abbrev Place := List String

namespace Place

def parent (place : Place) : Place :=
  if place.all (· = "..") then place ++ [".."] else place.dropLast

def enter (place : Place) (name : String) : Place :=
  if name = ".." then place.parent else place ++ [name]

end Place

namespace Path

/-- Slashes at the start; more than two count as one. -/
def rootOf (text : List Char) : String :=
  match (text.takeWhile (· = '/')).length with
  | 0 => ""
  | 2 => "//"
  | _ => "/"

/-- Empty names and names of the directory itself are left out. -/
def segmentsOf (text : List Char) : List String :=
  ((Text.splitOn '/' text).map String.ofList).filter fun name => !name.isEmpty && name != "."

def ofString (text : String) : Path :=
  ⟨rootOf text.toList, segmentsOf text.toList⟩

def display (path : Path) : String :=
  if path.root.isEmpty && path.segments.isEmpty then "."
  else path.root ++ String.intercalate "/" path.segments

def parent (path : Path) : Path :=
  { path with segments := path.segments.dropLast }

/-- The path that `text` means from here, which is `text` itself if it starts at a root. -/
def join (path : Path) (text : String) : Path :=
  let other := ofString text
  if other.root.isEmpty then { path with segments := path.segments ++ other.segments } else other

def place (path : Path) : Place :=
  path.segments.foldl Place.enter []

end Path

end Formulary

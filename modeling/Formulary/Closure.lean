import Formulary.Load

/-!
A recipe with everything that it needs at run time. Each recipe is followed by its dependencies, in the order of
their declaration and each with its own, and no file is loaded twice.
-/

namespace Formulary

/-- Records by the name of their formula. -/
abbrev Records := Entries String Record

structure Resolver where
  rule : VersionRule := Version.ofUrl
  extension : String := ".rb"

/-- A recipe to load; a dependency is wanted under its name by the recipe that declares it. -/
structure Wanted where
  path : Path
  dependency : Option (String × Path) := none

/-- What a resolution came to. Records made before an error are kept. -/
structure Resolution where
  records : Records
  error : Option LoadError := none

namespace Resolver

/-- The files that were not loaded yet. -/
def unvisited (tree : FileTree) (visited : List Place) : Entries Place (List UInt8) :=
  tree.files.filter fun file => !visited.contains file.1

theorem unvisited_cons_lt {tree : FileTree} {visited : List Place} {path : Path} {bytes : List UInt8}
    (hread : tree.read path = .ok bytes) (hnew : visited.contains path.place = false) :
    (unvisited tree (path.place :: visited)).length < (unvisited tree visited).length := by
  obtain ⟨file, hmem, hplace⟩ := FileTree.exists_mem_of_read hread
  have hsub : unvisited tree (path.place :: visited) =
      (unvisited tree visited).filter fun file => !(file.1 == path.place) := by
    unfold unvisited
    rw [List.filter_filter]
    congr 1
    funext file
    by_cases h : file.1 = path.place <;> simp [h]
  have hin : file ∈ unvisited tree visited := by
    simp only [unvisited, List.mem_filter, hmem, hplace, hnew, Bool.not_false, and_self]
  rw [hsub]
  exact List.length_filter_lt_length_iff_exists.2 ⟨file, hin, by simp [hplace]⟩

def dependencyPath (resolver : Resolver) (path : Path) (name : String) : Path :=
  path.parent.join (name ++ resolver.extension)

/-- The dependencies of a record that was loaded from a path. -/
def wantedBy (resolver : Resolver) (path : Path) (record : Record) : List Wanted :=
  (record.dependencies.namesOf .runtime).map fun name =>
    ⟨resolver.dependencyPath path name, some (name, path)⟩

/-- A dependency whose file is not there. -/
def missing? (tree : FileTree) (wanted : Wanted) : Option LoadError :=
  match wanted.dependency with
  | some (name, declaring) =>
    if tree.isFile wanted.path then none
    else some (.ofDefect declaring.display (.missingDependency name wanted.path.display))
  | none => none

/-- Loads what is wanted, the dependencies of each recipe before what is wanted after it. -/
def follow (resolver : Resolver) (tree : FileTree) (visited : List Place) (records : Records) :
    List Wanted → Resolution
  | [] => { records }
  | wanted :: rest =>
    match missing? tree wanted with
    | some error => { records, error }
    | none =>
      if hnew : visited.contains wanted.path.place then resolver.follow tree visited records rest
      else match hread : tree.read wanted.path with
        | .error fault => { records, error := some (.file fault) }
        | .ok bytes =>
          match recordOfBytes resolver.rule (some wanted.path.display) bytes with
          | .error error => { records, error }
          | .ok record =>
            have := unvisited_cons_lt hread (by simpa using hnew)
            resolver.follow tree (wanted.path.place :: visited) (records.put record.name record)
              (resolver.wantedBy wanted.path record ++ rest)
termination_by wanted => ((unvisited tree visited).length, wanted.length)
decreasing_by
  · exact Prod.Lex.right _ (by simp)
  · exact Prod.Lex.left _ _ (by assumption)

/-- The records of a recipe and its closure, put into those that are there. -/
def resolve (resolver : Resolver) (tree : FileTree) (path : Path) (records : Records) : Resolution :=
  resolver.follow tree [] records [⟨path, none⟩]

end Resolver

end Formulary

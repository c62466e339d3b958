import Formulary.Entries

/-! What a recipe depends on, by the role that the dependency plays. -/

namespace Formulary

inductive DependencyKind where
  | runtime
  | build
  | test
  | recommended
  | optional
deriving DecidableEq, Repr

def DependencyKind.name : DependencyKind → String
  | runtime => "runtime"
  | build => "build"
  | test => "test"
  | recommended => "recommended"
  | optional => "optional"

def DependencyKind.ofName? : String → Option DependencyKind
  | "runtime" => some runtime
  | "build" => some build
  | "test" => some test
  | "recommended" => some recommended
  | "optional" => some optional
  | _ => none

/-- The names of each kind in the order of their declaration; kinds in the order of their first use. -/
abbrev Dependencies := Entries DependencyKind (List String)

namespace Dependencies

def namesOf (kind : DependencyKind) (dependencies : Dependencies) : List String :=
  (dependencies.get? kind).getD []

def add (dependencies : Dependencies) (kind : DependencyKind) (name : String) : Dependencies :=
  dependencies.put kind (dependencies.namesOf kind ++ [name])

def addAll (dependencies : Dependencies) (declared : List (DependencyKind × String)) : Dependencies :=
  declared.foldl (fun dependencies (kind, name) => dependencies.add kind name) dependencies

end Dependencies

/-- Requirements on the system, which share the directive of dependencies. -/
def systemRequirements : List String :=
  ["arch", "java", "linux", "macos", "maximum_macos", "osxfuse", "x11", "xcode"]

end Formulary

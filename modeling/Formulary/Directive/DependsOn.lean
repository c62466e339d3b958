import Formulary.Dependency
import Formulary.Directive.Arguments

/-!
The names that a dependency directive declares. A name stands alone, or is the key of a tag or a list of tags.
Symbols among the tags are kinds; strings are lowest versions and are skipped. System requirements are symbols
and declare nothing.
-/

namespace Formulary.Directive

def isRequirement (scalar : Scalar) : Bool :=
  scalar.symbol?.any systemRequirements.contains

/-- One tag as a kind, or as nothing if it is a version. -/
def dependencyKind (directive : Directive) (tag : Value) : Except DirectiveError (Option DependencyKind) :=
  match tag with
  | .scalar (.string _) => return none
  | .scalar (.symbol name) =>
    match DependencyKind.ofName? name with
    | some kind => return some kind
    | none => directive.refuse (.dependencyKind name)
  | value => directive.refuse (.dependencyTag value)

def dependencyKinds (directive : Directive) : List Value → Except DirectiveError (List DependencyKind)
  | [] => return []
  | tag :: rest => do
    let kind ← directive.dependencyKind tag
    return kind.toList ++ (← directive.dependencyKinds rest)

def tags : Value → List Value
  | .list items => items
  | value => [value]

/-- The declarations of one key with its tags. -/
def taggedDependency (directive : Directive) (key : Scalar) (tagged : Value) :
    Except DirectiveError (List (DependencyKind × String)) :=
  match key.text? with
  | none => directive.refuse (.dependencyName (.scalar key))
  | some name =>
    if isRequirement key then return []
    else return (← directive.dependencyKinds (tags tagged)).map (·, name)

def taggedDependencies (directive : Directive) :
    List (Scalar × Value) → Except DirectiveError (List (DependencyKind × String))
  | [] => return []
  | (key, tagged) :: rest =>
    return (← directive.taggedDependency key tagged) ++ (← directive.taggedDependencies rest)

/-- The declarations of one argument. -/
def declaredBy (directive : Directive) : Value → Except DirectiveError (List (DependencyKind × String))
  | .hash entries => directive.taggedDependencies entries
  | .scalar scalar =>
    match scalar.text? with
    | some name => return if isRequirement scalar then [] else [(.runtime, name)]
    | none => directive.refuse (.dependencyName (.scalar scalar))
  | value => directive.refuse (.dependencyName value)

def declaredByAll (directive : Directive) :
    List Value → Except DirectiveError (List (DependencyKind × String))
  | [] => return []
  | value :: rest => return (← directive.declaredBy value) ++ (← directive.declaredByAll rest)

/-- All declarations of a directive, in order. -/
def dependencies (directive : Directive) : Except DirectiveError (List (DependencyKind × String)) := do
  match ← directive.arguments with
  | [] => directive.refuse .noDependencyName
  | values => directive.declaredByAll values

end Formulary.Directive

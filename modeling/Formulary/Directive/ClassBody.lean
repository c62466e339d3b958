import Formulary.Directive.Bottle
import Formulary.Directive.Source

/-!
The directives of a recipe's class. Each statement is read by itself into a declaration, and the declarations
are applied to a draft in order. Method definitions and directives without a place in the record say nothing.
-/

namespace Formulary

inductive Declaration where
  | desc (text : String)
  | homepage (text : String)
  | url (text : String)
  | sha256 (text : String)
  | version (text : String)
  | revision (number : Int)
  | dependencies (declared : List (DependencyKind × String))
  | bottle (bottle : Bottle)
  | head (source : Source)
  | stable (source : Source)
  | nothing

def Draft.apply (draft : Draft) : Declaration → Draft
  | .desc text => { draft with desc := some text }
  | .homepage text => { draft with homepage := some text }
  | .url text => { draft with url := some text }
  | .sha256 text => { draft with sha256 := some text }
  | .version text => { draft with version := some text }
  | .revision number => { draft with revision := some number }
  | .dependencies declared => { draft with dependencies := draft.dependencies.addAll declared }
  | .bottle bottle => { draft with bottle := some bottle }
  | .head source => { draft with head := some source }
  | .stable source => { draft with stable := some source }
  | .nothing => draft

namespace Directive

/-- Directives that are accepted and say nothing about the record. -/
def withoutEffect : List String :=
  ["resource", "mirror", "uses_from_macos", "version_scheme", "test", "patch", "license", "livecheck", "keg_only",
   "conflicts_with", "option", "include", "fails_with", "deprecate!", "disable!"]

def declaration (directive : Directive) : Except DirectiveError Declaration :=
  match directive.name with
  | "desc" => return .desc (← directive.string)
  | "homepage" => return .homepage (← directive.string)
  | "url" => return .url (← directive.string { options := true })
  | "sha256" => return .sha256 (← directive.string)
  | "version" => return .version (← directive.string)
  | "revision" => return .revision (← directive.int)
  | "depends_on" => return .dependencies (← directive.dependencies)
  | "bottle" => return (← directive.bottle).elim .nothing .bottle
  | "head" => return .head (← directive.head)
  | "stable" => return .stable (← directive.stable)
  | name => if withoutEffect.contains name then return .nothing else directive.unknown

/-- A statement of the class. -/
def declarationOf : Node → Except DirectiveError Declaration
  | .methodDef .. => return .nothing
  | node => ofStatement declaration node

def declarations : List Node → Except DirectiveError (List Declaration)
  | [] => return []
  | node :: rest => return (← declarationOf node) :: (← declarations rest)

end Directive

/-- The draft of a recipe by its name and the statements of its class. -/
def Draft.ofBody (name : String) (body : List Node) : Except DirectiveError Draft :=
  return (← Directive.declarations body).foldl Draft.apply { name }

end Formulary

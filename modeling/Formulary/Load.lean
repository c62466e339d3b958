import Formulary.Archive.Version
import Formulary.Directive.ClassBody
import Formulary.FileTree
import Formulary.Grammar
import Formulary.Instruction.Lowering
import Formulary.Recipe
import Formulary.Text.Utf8

/-!
From a recipe's bytes to its record: the text is parsed, the formula class found, its directives read, its install
method lowered, and the fields tied together. The first of these that fails gives the error; a failure says in which
file and line the recipe cannot be used.
-/

namespace Formulary

inductive Defect where
  | malformed (error : Malformed)
  | directive (error : DirectiveError)
  | noFormulaClass
  | noInstallMethod (className : String) (line : Nat)
  | missingDependency (name expectedPath : String)
  | unsupported (fault : Unsupported)

namespace Defect

def message : Defect → String
  | malformed error => error.cause.message
  | directive error => error.message
  | noFormulaClass => "No formula class defined"
  | noInstallMethod className _ => s!"Formula class {className} defines no install method"
  | missingDependency name expectedPath => s!"Dependency '{name}' not found at {expectedPath}"
  | unsupported fault => fault.message

def line? : Defect → Option Nat
  | malformed error => some error.pos.line
  | directive error => error.line?
  | noInstallMethod _ line => some line
  | unsupported fault => fault.line?
  | noFormulaClass | missingDependency _ _ => none

end Defect

/-- A defect of a recipe. A recipe that comes from no file has no path, or an empty one. -/
structure Failure where
  path : Option String
  defect : Defect

namespace Failure

/-- File and line as far as they are known. -/
def place? (failure : Failure) : Option String :=
  match failure.path.filter (!·.isEmpty), failure.defect.line? with
  | none, none => none
  | some path, none => some path
  | none, some line => some s!"line {line}"
  | some path, some line => some s!"{path}:{line}"

def message (failure : Failure) : String :=
  match failure.place? with
  | some place => place ++ ": " ++ failure.defect.message
  | none => failure.defect.message

/-- The path, with a name for recipes that have none. -/
def recipeName (failure : Failure) : String :=
  (failure.path.filter (!·.isEmpty)).getD "<recipe>"

end Failure

/-- Why no record is made: the recipe has a defect, or a number, a URL or the file itself cannot be read. -/
inductive LoadError where
  | recipe (failure : Failure)
  | number (fault : Text.NumberFault)
  | url (fault : UrlFault)
  | file (fault : FileFault)

namespace LoadError

def ofRead (path : Option String) : ReadError → LoadError
  | .malformed error => .recipe ⟨path, .malformed error⟩
  | .number fault => .number fault

def ofDefect (path : Option String) (defect : Defect) : LoadError :=
  .recipe ⟨path, defect⟩

end LoadError

def newline : UInt8 := 10

/-- Line and column of the byte behind the given ones, counted in bytes. -/
def bytePosition (before : List UInt8) : Position :=
  ⟨before.count newline + 1, (before.reverse.takeWhile (· ≠ newline)).length + 1⟩

/-- The text of a recipe, or the place of the first byte that is not part of any character. -/
def decodeRecipe (bytes : List UInt8) : Except Malformed (List Char) :=
  (Text.Utf8.decode bytes).mapError fun offset =>
    ⟨.invalidByte (bytes.getD offset 0), bytePosition (bytes.take offset)⟩

/-- The instructions of a class's install method, if it has one. -/
def installOf (formula : FormulaClass) : Except Unsupported (Option (List Instruction)) :=
  match Recipe.findInstallBody formula with
  | some body => (lowerInstall body).map some
  | none => .ok none

/-- The record of a recipe's text. -/
def recordOfText (rule : VersionRule) (path : Option String) (text : List Char) : Except LoadError Record := do
  let program ← (parseRecipe text).mapError (.ofRead path)
  let some formula := Recipe.findFormulaClass program
    | .error (.ofDefect path .noFormulaClass)
  let draft ← (Draft.ofBody (Recipe.formulaName formula.name) formula.body).mapError fun error =>
    .ofDefect path (.directive error)
  let install ← (installOf formula).mapError fun fault => .ofDefect path (.unsupported fault)
  (draft.record rule install).mapError .url

def recordOfBytes (rule : VersionRule) (path : Option String) (bytes : List UInt8) : Except LoadError Record := do
  let text ← (decodeRecipe bytes).mapError fun error => .ofDefect path (.malformed error)
  recordOfText rule path text

/-- The record of a file. -/
def load (rule : VersionRule) (tree : FileTree) (path : Path) : Except LoadError Record := do
  let bytes ← (tree.read path).mapError .file
  recordOfBytes rule (some path.display) bytes

end Formulary

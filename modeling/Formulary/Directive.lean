import Formulary.Syntax
import Formulary.Value

/-!
Directives: the statements of a class body or of a block in it. A directive is a call on no receiver, and nothing
is run: its arguments are read as static values.
-/

namespace Formulary

structure Directive where
  name : String
  args : List Node
  /-- The statements of the block that is attached. -/
  block : Option (List Node)
  line : Nat

/-- The statements of a block. -/
def Node.blockBody : Node → List Node
  | .block _ _ body _ => body
  | _ => []

def Directive.ofNode? : Node → Option Directive
  | .call pos name none args attached _ => some ⟨name, args, attached.map Node.blockBody, pos.line⟩
  | _ => none

/-- What a directive cannot accept. -/
inductive Reason where
  | notStatic (kind : String)
  | interpolated
  | compositeKey
  | argumentCount (count : Nat)
  | notString (value : Value)
  | notSingleInteger
  | noDependencyName
  | dependencyName (value : Value)
  | dependencyTag (value : Value)
  | dependencyKind (name : String)
  | notChecksums
  | checksumEntry (key : Scalar) (value : Value)
  | noBlock
  | noUrl

def Reason.message : Reason → String
  | notStatic kind => s!"argument '{kind}' is not a static value"
  | interpolated => "interpolated strings are not static values"
  | compositeKey => "hash keys must be scalar values"
  | argumentCount count => s!"expected 1 argument, got {count}"
  | notString value => s!"expected a string, got {value.display}"
  | notSingleInteger => "expected a single integer"
  | noDependencyName => "expected a dependency name"
  | dependencyName value => s!"dependency name must be a string, got {value.display}"
  | dependencyTag value => s!"dependency type must be a symbol, got {value.display}"
  | dependencyKind name => s!"unknown dependency type '{name}'"
  | notChecksums => "expected checksum => platform pairs"
  | checksumEntry key value => s!"cannot read checksum entry {key.display} => {value.display}"
  | noBlock => "expected a block"
  | noUrl => "no url given"

inductive DirectiveError where
  | unknown (name : String) (line : Nat)
  | invalid (name : String) (reason : Reason) (line : Option Nat)

namespace DirectiveError

def message : DirectiveError → String
  | unknown name _ => s!"Unknown directive '{name}'"
  | invalid name reason _ => s!"Invalid '{name}' directive: {reason.message}"

def line? : DirectiveError → Option Nat
  | unknown _ line => some line
  | invalid _ _ line => line

end DirectiveError

/-- The error of a directive at its own line. -/
def Directive.refuse {α : Type} (directive : Directive) (reason : Reason) : Except DirectiveError α :=
  .error (.invalid directive.name reason (some directive.line))

end Formulary

import Formulary.Directive.Static

/-! The arguments of a directive with the two common forms of them, and the directives of a body. -/

namespace Formulary.Directive

def arguments (directive : Directive) : Except DirectiveError (List Value) :=
  (Static.values directive.args).mapError fun fault =>
    .invalid directive.name fault.reason (some fault.line)

/-- What a single string may come with: options behind it, which are ignored, or the form of a symbol. -/
structure StringForm where
  options : Bool := false
  symbol : Bool := false
deriving DecidableEq, Repr

/-- The arguments without a hash of options behind the first of two. -/
def withoutOptions : List Value → List Value
  | [value, .hash _] => [value]
  | values => values

def string (directive : Directive) (form : StringForm := {}) : Except DirectiveError String := do
  let given ← directive.arguments
  match if form.options then withoutOptions given else given with
  | [value] =>
    match if form.symbol then value.text? else value.plainText? with
    | some text => return text
    | none => directive.refuse (.notString value)
  | values => directive.refuse (.argumentCount values.length)

def int (directive : Directive) : Except DirectiveError Int := do
  match ← directive.arguments with
  | [.scalar (.int value)] => return value
  | _ => directive.refuse .notSingleInteger

/-! Bodies -/

variable {ε : Type}

def unknown (directive : Directive) : Except DirectiveError ε :=
  .error (.unknown directive.name directive.line)

/-- One statement, which must be a directive. -/
def ofStatement (read : Directive → Except DirectiveError ε) (node : Node) : Except DirectiveError ε :=
  match ofNode? node with
  | some directive => read directive
  | none => .error (.unknown node.kind node.line)

/-- What the statements of a body say, or the error of the first that is not accepted. -/
def ofBody (read : Directive → Except DirectiveError ε) : List Node → Except DirectiveError (List ε)
  | [] => return []
  | node :: rest => return (← ofStatement read node) :: (← ofBody read rest)

end Formulary.Directive

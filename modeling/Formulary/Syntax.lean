import Formulary.Position

/-!
The syntax tree of a recipe. Clauses and blocks are nodes too, so that a message can name any of them.
`Node.kind` gives the names that messages use.
-/

namespace Formulary

/-- Whether a test asks that its condition holds (`if`, `while`) or fails (`unless`, `until`). -/
inductive Polarity where
  | positive
  | negative
deriving DecidableEq, Repr

def Polarity.branchWord : Polarity → String
  | positive => "if"
  | negative => "unless"

def Polarity.loopWord : Polarity → String
  | positive => "while"
  | negative => "until"

/-- What begins a conditional block: a statement of its own or a further test of one. -/
inductive BranchHead where
  | opening (polarity : Polarity)
  | further
deriving DecidableEq, Repr

def BranchHead.word : BranchHead → String
  | opening polarity => polarity.branchWord
  | further => "elsif"

def BranchHead.polarity : BranchHead → Polarity
  | opening polarity => polarity
  | further => .positive

/-- A part of a string over nodes of type `ν`. -/
inductive Piece (ν : Type) where
  | text (value : String)
  | code (pos : Position) (body : List ν)

inductive Node where
  | program (pos : Position) (body : List Node)
  | classDef (pos : Position) (name : String) (superclass : Option Node) (body : List Node)
  | moduleDef (pos : Position) (name : String) (body : List Node)
  | methodDef (pos : Position) (name : String) (params : List String) (body : List Node) (singleton : Bool)
  | block (pos : Position) (params : List String) (body : List Node) (braces : Bool)
  | call (pos : Position) (name : String) (receiver : Option Node) (args : List Node) (block : Option Node)
      (parens : Bool)
  | keywordCall (pos : Position) (keyword : String) (args : List Node)
  | reference (pos : Position) (name : String)
  | constPath (pos : Position) (scope : Option Node) (name : String)
  | code (pos : Position) (body : List Node)
  | string (pos : Position) (pieces : List (Piece Node))
  | shell (pos : Position) (pieces : List (Piece Node))
  | symbol (pos : Position) (name : String)
  | regexp (pos : Position) (source flags : String)
  | int (pos : Position) (value : Int)
  | float (pos : Position) (value : Float)
  | array (pos : Position) (elements : List Node)
  | hash (pos : Position) (pairs : List (Node × Node)) (braces : Bool)
  | range (pos : Position) (low : Node) (high : Option Node) (exclusive : Bool)
  | splat (pos : Position) (value : Node) (double : Bool)
  | blockPass (pos : Position) (value : Node)
  | binary (pos : Position) (op : String) (left right : Node)
  | unary (pos : Position) (op : String) (operand : Node)
  | index (pos : Position) (base : Node) (args : List Node)
  | assign (pos : Position) (target value : Node)
  | opAssign (pos : Position) (target : Node) (op : String) (value : Node)
  | paren (pos : Position) (body : List Node)
  | elseClause (pos : Position) (body : List Node)
  | branch (pos : Position) (head : BranchHead) (cond : Node) (body : List Node) (orelse : Option Node)
  | branchModifier (pos : Position) (polarity : Polarity) (cond statement : Node)
  | choice (pos : Position) (cond whenTrue whenFalse : Node)
  | loop (pos : Position) (polarity : Polarity) (cond : Node) (body : List Node) (modifier : Bool)
  | forLoop (pos : Position) (targets : List String) (iterable : Node) (body : List Node)
  | whenClause (pos : Position) (values body : List Node)
  | caseOf (pos : Position) (subject : Option Node) (whens : List Node) (orelse : Option Node)
  | rescueClause (pos : Position) (exceptions : List Node) (binder : Option String) (body : List Node)
  | guarded (pos : Position) (body rescues elseBody ensureBody : List Node)
  | rescueModifier (pos : Position) (statement rescue : Node)
  | jump (pos : Position) (keyword : String) (value : Option Node)

namespace Node

def pos : Node → Position
  | program pos _ | classDef pos _ _ _ | moduleDef pos _ _ | methodDef pos _ _ _ _ | block pos _ _ _ => pos
  | call pos _ _ _ _ _ | keywordCall pos _ _ | reference pos _ | constPath pos _ _ | code pos _ => pos
  | string pos _ | shell pos _ | symbol pos _ | regexp pos _ _ | int pos _ | float pos _ => pos
  | array pos _ | hash pos _ _ | range pos _ _ _ | splat pos _ _ | blockPass pos _ => pos
  | binary pos _ _ _ | unary pos _ _ | index pos _ _ | assign pos _ _ | opAssign pos _ _ _ => pos
  | paren pos _ | elseClause pos _ | branch pos _ _ _ _ | branchModifier pos _ _ _ => pos
  | choice pos _ _ _ | loop pos _ _ _ _ | forLoop pos _ _ _ | whenClause pos _ _ | caseOf pos _ _ _ => pos
  | rescueClause pos _ _ _ | guarded pos _ _ _ _ | rescueModifier pos _ _ | jump pos _ _ => pos

def line (node : Node) : Nat :=
  node.pos.line

/-- The kind of a call, which depends on how it is written. -/
def callKind (receiver : Option Node) (args : List Node) (attached : Option Node) (parens : Bool) : String :=
  if attached.isSome then "method_add_block"
  else if receiver.isSome then (if !args.isEmpty && !parens then "command_call" else "call")
  else if parens then "fcall"
  else if args.isEmpty then "vcall"
  else "command"

def kind : Node → String
  | program .. => "program"
  | classDef .. => "class"
  | moduleDef .. => "module"
  | methodDef .. => "def"
  | block _ _ _ braces => if braces then "brace_block" else "do_block"
  | call _ _ receiver args attached parens => callKind receiver args attached parens
  | keywordCall _ keyword _ => keyword
  | reference .. => "var_ref"
  | constPath _ scope _ => if scope.isSome then "const_path_ref" else "top_const_ref"
  | code .. => "string_embexpr"
  | string .. => "string_literal"
  | shell .. => "xstring_literal"
  | symbol .. => "symbol_literal"
  | regexp .. => "regexp_literal"
  | int .. => "int"
  | float .. => "float"
  | array .. => "array"
  | hash _ _ braces => if braces then "hash" else "bare_assoc_hash"
  | range _ _ _ exclusive => if exclusive then "dot3" else "dot2"
  | splat _ _ double => if double then "double_splat" else "splat"
  | blockPass .. => "block_pass"
  | binary .. => "binary"
  | unary .. => "unary"
  | index .. => "aref"
  | assign .. => "assign"
  | opAssign .. => "opassign"
  | paren .. => "paren"
  | elseClause .. => "else"
  | branch _ head _ _ _ => head.word
  | branchModifier _ polarity _ _ => polarity.branchWord ++ "_mod"
  | choice .. => "ifop"
  | loop _ polarity _ _ modifier => if modifier then polarity.loopWord ++ "_mod" else polarity.loopWord
  | forLoop .. => "for"
  | whenClause .. => "when"
  | caseOf .. => "case"
  | rescueClause .. => "rescue"
  | guarded .. => "begin"
  | rescueModifier .. => "rescue_mod"
  | jump _ keyword _ => keyword

/-- Whether a node is a conditional block, or a further test of one. -/
def isBranch : Node → Bool
  | branch .. => true
  | _ => false

/-- A name that stands alone, with nothing that makes it a call. -/
def bareName? : Node → Option String
  | call _ name none [] none false => some name
  | _ => none

end Node

end Formulary

import Formulary.Syntax

/-! Rewriting a syntax tree from its leaves up. -/

namespace Formulary

/-- What becomes of each place, each node and each piece of a string, once what is below it was rewritten. -/
structure Rewriting where
  place : Position → Position := id
  node : Node → Node := id
  piece : Piece Node → Piece Node := id

namespace Node

mutual

def rewrite (r : Rewriting) : Node → Node
  | .program pos body => r.node (.program (r.place pos) (rewriteAll r body))
  | .classDef pos name superclass body =>
    r.node (.classDef (r.place pos) name (rewriteOption r superclass) (rewriteAll r body))
  | .moduleDef pos name body => r.node (.moduleDef (r.place pos) name (rewriteAll r body))
  | .methodDef pos name params body singleton =>
    r.node (.methodDef (r.place pos) name params (rewriteAll r body) singleton)
  | .block pos params body braces => r.node (.block (r.place pos) params (rewriteAll r body) braces)
  | .call pos name receiver args attached parens =>
    r.node (.call (r.place pos) name (rewriteOption r receiver) (rewriteAll r args) (rewriteOption r attached)
      parens)
  | .keywordCall pos keyword args => r.node (.keywordCall (r.place pos) keyword (rewriteAll r args))
  | .reference pos name => r.node (.reference (r.place pos) name)
  | .constPath pos scope name => r.node (.constPath (r.place pos) (rewriteOption r scope) name)
  | .code pos body => r.node (.code (r.place pos) (rewriteAll r body))
  | .string pos pieces => r.node (.string (r.place pos) (rewritePieces r pieces))
  | .shell pos pieces => r.node (.shell (r.place pos) (rewritePieces r pieces))
  | .symbol pos name => r.node (.symbol (r.place pos) name)
  | .regexp pos source flags => r.node (.regexp (r.place pos) source flags)
  | .int pos value => r.node (.int (r.place pos) value)
  | .float pos value => r.node (.float (r.place pos) value)
  | .array pos elements => r.node (.array (r.place pos) (rewriteAll r elements))
  | .hash pos pairs braces => r.node (.hash (r.place pos) (rewritePairs r pairs) braces)
  | .range pos low high exclusive =>
    r.node (.range (r.place pos) (low.rewrite r) (rewriteOption r high) exclusive)
  | .splat pos value double => r.node (.splat (r.place pos) (value.rewrite r) double)
  | .blockPass pos value => r.node (.blockPass (r.place pos) (value.rewrite r))
  | .binary pos op left right => r.node (.binary (r.place pos) op (left.rewrite r) (right.rewrite r))
  | .unary pos op operand => r.node (.unary (r.place pos) op (operand.rewrite r))
  | .index pos base args => r.node (.index (r.place pos) (base.rewrite r) (rewriteAll r args))
  | .assign pos target value => r.node (.assign (r.place pos) (target.rewrite r) (value.rewrite r))
  | .opAssign pos target op value => r.node (.opAssign (r.place pos) (target.rewrite r) op (value.rewrite r))
  | .paren pos body => r.node (.paren (r.place pos) (rewriteAll r body))
  | .elseClause pos body => r.node (.elseClause (r.place pos) (rewriteAll r body))
  | .branch pos head cond body orelse =>
    r.node (.branch (r.place pos) head (cond.rewrite r) (rewriteAll r body) (rewriteOption r orelse))
  | .branchModifier pos polarity cond statement =>
    r.node (.branchModifier (r.place pos) polarity (cond.rewrite r) (statement.rewrite r))
  | .choice pos cond whenTrue whenFalse =>
    r.node (.choice (r.place pos) (cond.rewrite r) (whenTrue.rewrite r) (whenFalse.rewrite r))
  | .loop pos polarity cond body modifier =>
    r.node (.loop (r.place pos) polarity (cond.rewrite r) (rewriteAll r body) modifier)
  | .forLoop pos targets iterable body =>
    r.node (.forLoop (r.place pos) targets (iterable.rewrite r) (rewriteAll r body))
  | .whenClause pos values body => r.node (.whenClause (r.place pos) (rewriteAll r values) (rewriteAll r body))
  | .caseOf pos subject whens orelse =>
    r.node (.caseOf (r.place pos) (rewriteOption r subject) (rewriteAll r whens) (rewriteOption r orelse))
  | .rescueClause pos exceptions binder body =>
    r.node (.rescueClause (r.place pos) (rewriteAll r exceptions) binder (rewriteAll r body))
  | .guarded pos body rescues elseBody ensureBody =>
    r.node (.guarded (r.place pos) (rewriteAll r body) (rewriteAll r rescues) (rewriteAll r elseBody)
      (rewriteAll r ensureBody))
  | .rescueModifier pos statement rescue =>
    r.node (.rescueModifier (r.place pos) (statement.rewrite r) (rescue.rewrite r))
  | .jump pos keyword value => r.node (.jump (r.place pos) keyword (rewriteOption r value))

def rewriteAll (r : Rewriting) : List Node → List Node
  | [] => []
  | node :: rest => node.rewrite r :: rewriteAll r rest

def rewriteOption (r : Rewriting) : Option Node → Option Node
  | none => none
  | some node => some (node.rewrite r)

def rewritePieces (r : Rewriting) : List (Piece Node) → List (Piece Node)
  | [] => []
  | .text value :: rest => r.piece (.text value) :: rewritePieces r rest
  | .code pos body :: rest => r.piece (.code (r.place pos) (rewriteAll r body)) :: rewritePieces r rest

def rewritePairs (r : Rewriting) : List (Node × Node) → List (Node × Node)
  | [] => []
  | (key, value) :: rest => (key.rewrite r, value.rewrite r) :: rewritePairs r rest

end

variable (r : Rewriting)

theorem rewriteAll_eq (nodes : List Node) : rewriteAll r nodes = nodes.map (rewrite r) := by
  induction nodes with
  | nil => rfl
  | cons node rest ih => rw [rewriteAll, ih, List.map_cons]

theorem rewriteOption_eq (node : Option Node) : rewriteOption r node = node.map (rewrite r) := by
  cases node <;> rfl

theorem rewritePairs_eq (pairs : List (Node × Node)) :
    rewritePairs r pairs = pairs.map (Prod.map (rewrite r) (rewrite r)) := by
  induction pairs with
  | nil => rfl
  | cons pair rest ih => rw [rewritePairs, ih, List.map_cons, Prod.map]

theorem pos_rewrite (place : Position → Position) (piece : Piece Node → Piece Node) (node : Node) :
    (node.rewrite { place, piece }).pos = place node.pos := by
  cases node <;> simp only [rewrite, pos, id]

end Node

def Piece.rewrite (r : Rewriting) : Piece Node → Piece Node
  | .text value => r.piece (.text value)
  | .code pos body => r.piece (.code (r.place pos) (body.map (Node.rewrite r)))

theorem Node.rewritePieces_eq (r : Rewriting) (pieces : List (Piece Node)) :
    rewritePieces r pieces = pieces.map (Piece.rewrite r) := by
  induction pieces with
  | nil => rfl
  | cons piece rest ih =>
    cases piece with
    | text value => rw [rewritePieces, ih, List.map_cons, Piece.rewrite]
    | code pos body => rw [rewritePieces, ih, rewriteAll_eq, List.map_cons, Piece.rewrite]

end Formulary

import Formulary.Proofs.Token.Names
import Mathlib.Data.List.Sort

/-!
Walks over a tree in the order of its text, with the scopes that are open. A walk declares what the tree declares,
and it notes every name that stands for a variable or begins a call.
-/

namespace Formulary

/-- A name without receiver and parentheses: what the tree takes it for, and whether it is declared there. -/
structure Use where
  name : String
  asVariable : Bool
  declared : Bool
deriving DecidableEq, Repr

/-- What a part of a tree uses, and the scopes behind it, given those before it. -/
abbrev Walk :=
  List Scope → List Use × List Scope

namespace Walk

def nothing : Walk := fun scopes => ([], scopes)

def andThen (first second : Walk) : Walk := fun scopes =>
  ((first scopes).1 ++ (second (first scopes).2).1, (second (first scopes).2).2)

def mention (name : String) (asVariable : Bool) : Walk := fun scopes =>
  ([⟨name, asVariable, Scope.isLocal name scopes⟩], scopes)

def declare (name : String) : Walk := fun scopes =>
  ([], Scope.declare name scopes)

def inScope (hard : Bool) (inner : Walk) : Walk := fun scopes =>
  ((inner (⟨hard, []⟩ :: scopes)).1, (inner (⟨hard, []⟩ :: scopes)).2.tail)

def inTurn (walks : List Walk) : Walk :=
  walks.foldr andThen nothing

/-- Parts that stand at different places, in the order of the text. -/
def inOrder (parts : List (Position × Walk)) : List (Position × Walk) :=
  parts.insertionSort fun part other => part.1.Before other.1

def byPosition (parts : List (Position × Walk)) : Walk :=
  inTurn ((inOrder parts).map (·.2))

end Walk

/-- The variable that an assignment to this node declares. -/
def Node.declared? : Node → Option String
  | reference _ name => if isVariableName name then some name else none
  | _ => none

open Walk in
mutual

def Node.walk : Node → Walk
  | .program _ body | .code _ body | .paren _ body | .elseClause _ body => walkAll body
  | .classDef _ _ superclass body => (walkOption superclass).andThen (inScope true (walkAll body))
  | .moduleDef _ _ body => inScope true (walkAll body)
  | .methodDef _ _ params body _ => inScope true ((inTurn (params.map declare)).andThen (walkAll body))
  | .block _ params body _ => inScope false ((inTurn (params.map declare)).andThen (walkAll body))
  | .call _ name receiver args attached parens =>
    ((walkOption receiver).andThen (if receiver.isNone && !parens then mention name false else nothing)).andThen
      ((byPosition (argumentWalks args)).andThen (walkOption attached))
  | .keywordCall _ _ args | .array _ args => byPosition (argumentWalks args)
  | .reference _ name => if isVariableName name then mention name true else nothing
  | .constPath _ scope _ => walkOption scope
  | .string _ pieces | .shell _ pieces => walkPieces pieces
  | .symbol .. | .regexp .. | .int .. | .float .. => nothing
  | .hash _ pairs _ => inTurn ((pairWalks pairs).map (·.2))
  | .range _ low high _ => low.walk.andThen (walkOption high)
  | .splat _ value _ | .blockPass _ value | .unary _ _ value => value.walk
  | .binary _ _ left right => left.walk.andThen right.walk
  | .index _ base args => base.walk.andThen (byPosition (argumentWalks args))
  | .assign _ target value | .opAssign _ target _ value =>
    (target.declared?.elim target.walk declare).andThen value.walk
  | .branch _ _ cond body orelse => cond.walk.andThen ((walkAll body).andThen (walkOption orelse))
  | .branchModifier _ _ cond statement => statement.walk.andThen cond.walk
  | .choice _ cond whenTrue whenFalse => cond.walk.andThen (whenTrue.walk.andThen whenFalse.walk)
  | .loop _ _ cond body modifier =>
    if modifier then (walkAll body).andThen cond.walk else cond.walk.andThen (walkAll body)
  | .forLoop _ targets iterable body =>
    (inTurn (targets.map declare)).andThen (iterable.walk.andThen (walkAll body))
  | .whenClause _ values body => (byPosition (argumentWalks values)).andThen (walkAll body)
  | .caseOf _ subject whens orelse => (walkOption subject).andThen ((walkAll whens).andThen (walkOption orelse))
  | .rescueClause _ exceptions binder body =>
    (walkAll exceptions).andThen ((binder.elim nothing declare).andThen (walkAll body))
  | .guarded _ body rescues elseBody ensureBody =>
    (walkAll body).andThen ((walkAll rescues).andThen ((walkAll elseBody).andThen (walkAll ensureBody)))
  | .rescueModifier _ statement rescue => statement.walk.andThen rescue.walk
  | .jump _ _ value => walkOption value

def walkAll : List Node → Walk
  | [] => nothing
  | node :: rest => node.walk.andThen (walkAll rest)

def walkOption : Option Node → Walk
  | none => nothing
  | some node => node.walk

def walkPieces : List (Piece Node) → Walk
  | [] => nothing
  | .text _ :: rest => walkPieces rest
  | .code _ body :: rest => (walkAll body).andThen (walkPieces rest)

/-- The arguments of a list with their places. Pairs that make up a last argument have a place each, as a splat may
stand between them. -/
def argumentWalks : List Node → List (Position × Walk)
  | [] => []
  | .hash _ pairs false :: rest => pairWalks pairs ++ argumentWalks rest
  | node :: rest => (node.pos, node.walk) :: argumentWalks rest

def pairWalks : List (Node × Node) → List (Position × Walk)
  | [] => []
  | (key, value) :: rest => (key.pos, key.walk.andThen value.walk) :: pairWalks rest

end

attribute [simp] Node.walk walkAll walkOption walkPieces argumentWalks pairWalks

end Formulary

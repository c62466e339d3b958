import Formulary.Proofs.Lowering.Derivation
import Formulary.Proofs.Lowering.MethodName
import Formulary.Proofs.Tree.Rewrite

/-!
What lowering forgets. The essence of a node is what remains of it without the details that lowering drops on
purpose; two statement lists have the same instructions exactly if they have the same essence. For this, the essence
is read off the instruction (`asNode`, `asStatement`) and the instruction off the essence (`asExpression`,
`asInstruction`).
-/

namespace Formulary

/-! The essence -/

/-- Code that is a bare name alone, read as a variable. -/
def Piece.substituted : Piece Node → Piece Node
  | .code pos [inner] =>
    match inner.bareName? with
    | some name => .code pos [.reference inner.pos name]
    | none => .code pos [inner]
  | piece => piece

def Piece.isEmpty : Piece Node → Bool
  | .text value => value.isEmpty
  | .code _ _ => false

namespace Node

def filler : Node := .reference .origin ""

/-- A further test as an else clause that holds just that test. -/
def furtherAsElse : Option Node → Option Node
  | some (.branch pos .further cond body orelse) =>
    some (.elseClause pos [.branch pos (.opening .positive) cond body orelse])
  | orelse => orelse

/-- A node without the details that lowering drops, if the nodes in it are so already. -/
def simplified : Node → Node
  | .paren _ [inner] => inner
  | .call pos name receiver args attached _ => .call pos name receiver args attached false
  | .array pos elements => .array pos (List.replicate elements.length filler)
  | .string pos pieces => .string pos (pieces.filter (!·.isEmpty))
  | .branchModifier pos polarity cond statement => .branch pos (.opening polarity) cond [statement] none
  | .branch pos head cond body orelse => .branch pos head cond body (furtherAsElse orelse)
  | node => node

def substitution : Rewriting where
  piece := Piece.substituted

def simplification : Rewriting where
  place := fun _ => .origin
  node := simplified

/-- A node after bare names in strings are read as variables and then all that lowering drops is forgotten. -/
def essence (node : Node) : Node :=
  (node.rewrite substitution).rewrite simplification

end Node

def Piece.essence (piece : Piece Node) : Piece Node :=
  (piece.rewrite Node.substitution).rewrite Node.simplification

mutual

/-- Whether conditionals are as they are written: a further test and an else clause stand only where an else part
can stand. -/
def Node.isShaped : Node → Bool
  | .branch _ head _ body orelse => head ≠ .further && areShaped body && isShapedElse orelse
  | .branchModifier _ _ _ statement => statement.isShaped
  | .paren _ [inner] => inner.isShaped
  | _ => true

def areShaped : List Node → Bool
  | [] => true
  | node :: rest => node.isShaped && areShaped rest

def isShapedElse : Option Node → Bool
  | none => true
  | some (.elseClause _ body) => areShaped body
  | some (.branch _ .further _ body orelse) => areShaped body && isShapedElse orelse
  | some _ => false

end

namespace Losses

open Lowering Node

/-! The essence of each node that can be lowered -/

theorem map_essence (nodes : List Node) :
    nodes.map essence = (nodes.map (rewrite substitution)).map (rewrite simplification) := by
  rw [List.map_map]
  rfl

theorem optionMap_essence (node : Option Node) :
    node.map essence = (node.map (rewrite substitution)).map (rewrite simplification) := by
  rw [Option.map_map]
  rfl

theorem essence_string (pos : Position) (pieces : List (Piece Node)) :
    (Node.string pos pieces).essence = .string .origin ((pieces.map Piece.essence).filter (!·.isEmpty)) := by
  have h : pieces.map Piece.essence =
      (pieces.map (Piece.rewrite substitution)).map (Piece.rewrite simplification) := by
    rw [List.map_map]
    rfl
  simp only [h, ← rewritePieces_eq]
  rfl

theorem essence_call (pos : Position) (name : String) (receiver : Option Node) (args : List Node)
    (attached : Option Node) (parens : Bool) :
    (Node.call pos name receiver args attached parens).essence =
      .call .origin name (receiver.map essence) (args.map essence) (attached.map essence) false := by
  simp only [map_essence, optionMap_essence, ← rewriteAll_eq, ← rewriteOption_eq]
  rfl

theorem essence_array (pos : Position) (elements : List Node) :
    (Node.array pos elements).essence = .array .origin (List.replicate elements.length filler) := by
  simp [essence, rewrite, substitution, simplification, simplified, rewriteAll_eq]

theorem essence_index (pos : Position) (base subscript : Node) :
    (Node.index pos base [subscript]).essence = .index .origin base.essence [subscript.essence] := rfl

theorem essence_paren (pos : Position) (inner : Node) : (Node.paren pos [inner]).essence = inner.essence := rfl

theorem essence_branch (pos : Position) (head : BranchHead) (cond : Node) (body : List Node)
    (orelse : Option Node) :
    (Node.branch pos head cond body orelse).essence =
      .branch .origin head cond.essence (body.map essence) (furtherAsElse (orelse.map essence)) := by
  simp only [map_essence, optionMap_essence, ← rewriteAll_eq, ← rewriteOption_eq]
  rfl

theorem essence_branchModifier (pos : Position) (polarity : Polarity) (cond statement : Node) :
    (Node.branchModifier pos polarity cond statement).essence =
      .branch .origin (.opening polarity) cond.essence [statement.essence] none := rfl

theorem essence_elseClause (pos : Position) (body : List Node) :
    (Node.elseClause pos body).essence = .elseClause .origin (body.map essence) := by
  simp only [map_essence, ← rewriteAll_eq]
  rfl

theorem bareName?_rewrite (node : Node) : (node.rewrite substitution).bareName? = node.bareName? := by
  cases node
  case call pos name receiver args attached parens =>
    cases receiver <;> cases args <;> cases attached <;> cases parens <;> rfl
  all_goals rfl

theorem essence_text (value : String) : Piece.essence (.text value) = .text value := rfl

theorem essence_code (pos : Position) (inner : Node) :
    Piece.essence (.code pos [inner]) =
      .code .origin [(inner.bareName?.map (Node.reference .origin)).getD inner.essence] := by
  simp only [Piece.essence, Piece.rewrite, substitution, List.map_cons, List.map_nil, Piece.substituted]
  rw [show ({ piece := Piece.substituted } : Rewriting) = substitution from rfl, bareName?_rewrite]
  cases inner.bareName? <;> rfl

/-! From instructions to essences -/

mutual

def asNode : Expression → Node
  | .string parts => .string .origin (asPieces parts)
  | .var name => .reference .origin name
  | .bareCall name args => .call .origin (MethodName.decode name) none (asNodes args) none false
  | .methodCall receiver method args =>
    .call .origin (MethodName.decode method) (some (asNode receiver)) (asNodes args) none false
  | .binary op left right => .binary .origin op (asNode left) (asNode right)
  | .unary op operand => .unary .origin op (asNode operand)
  | .array length => .array .origin (List.replicate length.toNat filler)
  | .index base subscript => .index .origin (asNode base) [asNode subscript]
  | .symbol name => .symbol .origin name
  | .int value => .int .origin value
  | .assign target value => .assign .origin (asNode target) (asNode value)
  | .splat value => .splat .origin (asNode value) false

def asNodes : List Expression → List Node
  | [] => []
  | e :: rest => asNode e :: asNodes rest

def asPieces : List (Part Expression) → List (Piece Node)
  | [] => []
  | .text value :: rest => .text value :: asPieces rest
  | .embed e :: rest => .code .origin [asNode e] :: asPieces rest

end

mutual

def asStatement : Instruction → Node
  | .command name none args => .call .origin (MethodName.decode name) none (asNodes args) none false
  | .command name (some receiver) args =>
    .call .origin (MethodName.decode name) (some (asNode receiver)) (asNodes args) none false
  | .conditional polarity cond thenBranch elseBranch =>
    .branch .origin (.opening polarity) (asNode cond) (asStatements thenBranch) (asElse elseBranch)
  | .expression e => asNode e

def asStatements : List Instruction → List Node
  | [] => []
  | instruction :: rest => asStatement instruction :: asStatements rest

def asElse : Option (List Instruction) → Option Node
  | none => none
  | some instructions => some (.elseClause .origin (asStatements instructions))

end

/-! From essences to instructions -/

mutual

def asExpression : Node → Expression
  | .string _ pieces => .string (asParts pieces)
  | .reference _ name => .var name
  | .call _ name none args _ _ => .bareCall (MethodName.encode name) (asExpressions args)
  | .call _ name (some receiver) args _ _ =>
    .methodCall (asExpression receiver) (MethodName.encode name) (asExpressions args)
  | .binary _ op left right => .binary op (asExpression left) (asExpression right)
  | .unary _ op operand => .unary op (asExpression operand)
  | .array _ elements => .array elements.length
  | .index _ base [subscript] => .index (asExpression base) (asExpression subscript)
  | .symbol _ name => .symbol name
  | .int _ value => .int value
  | .assign _ target value => .assign (asExpression target) (asExpression value)
  | .splat _ value _ => .splat (asExpression value)
  | _ => .var ""

def asExpressions : List Node → List Expression
  | [] => []
  | node :: rest => asExpression node :: asExpressions rest

def asParts : List (Piece Node) → List (Part Expression)
  | [] => []
  | .text value :: rest => .text value :: asParts rest
  | .code _ [inner] :: rest => .embed (asExpression inner) :: asParts rest
  | .code _ _ :: rest => asParts rest

end

mutual

def asInstruction : Node → Instruction
  | .call _ name none (first :: rest) _ _ =>
    .command (MethodName.encode name) none (asExpressions (first :: rest))
  | .call _ name (some receiver) (first :: rest) _ _ =>
    .command (MethodName.encode name) (some (asExpression receiver)) (asExpressions (first :: rest))
  | .branch _ head cond body orelse =>
    .conditional head.polarity (asExpression cond) (asInstructions body) (asElseBranch orelse)
  | node => .expression (asExpression node)

def asInstructions : List Node → List Instruction
  | [] => []
  | node :: rest => asInstruction node :: asInstructions rest

def asElseBranch : Option Node → Option (List Instruction)
  | some (.elseClause _ body) => some (asInstructions body)
  | _ => none

end

/-! What is lowered -/

mutual

theorem essence_of_yields : ∀ {node : Node} {e : Expression}, Yields node e → node.essence = asNode e
  | _, _, .string h => by rw [essence_string, asNode, pieces_of_yields h]
  | _, _, .symbol | _, _, .int | _, _, .reference => rfl
  | _, _, .array => by rw [essence_array, asNode, Int.toNat_natCast]
  | _, _, .bareCall h => by rw [essence_call, asNode, MethodName.decode_encode, essences_of_yields h]; rfl
  | _, _, .methodCall hr ha => by
    rw [essence_call, asNode, MethodName.decode_encode, essences_of_yields ha, Option.map_some, essence_of_yields hr]
    rfl
  | _, _, .index hb hs => by rw [essence_index, asNode, essence_of_yields hb, essence_of_yields hs]
  | _, _, .binary hl hr => congrArg₂ (Node.binary .origin _) (essence_of_yields hl) (essence_of_yields hr)
  | _, _, .unary h => congrArg (Node.unary .origin _) (essence_of_yields h)
  | _, _, .assign ht hv => congrArg₂ (Node.assign .origin) (essence_of_yields ht) (essence_of_yields hv)
  | _, _, .splat h => congrArg (Node.splat .origin · false) (essence_of_yields h)
  | _, _, .paren h => by rw [essence_paren, essence_of_yields h]

theorem essences_of_yields :
    ∀ {nodes : List Node} {found : List Expression}, YieldsAll nodes found → nodes.map essence = asNodes found
  | _, _, .nil => rfl
  | _, _, .cons h ht => by rw [List.map_cons, asNodes, essence_of_yields h, essences_of_yields ht]

theorem pieces_of_yields :
    ∀ {pieces : List (Piece Node)} {found : List (Part Expression)}, YieldsParts pieces found →
      (pieces.map Piece.essence).filter (!·.isEmpty) = asPieces found
  | _, _, .nil => rfl
  | _, _, .empty he h => by
    rw [List.map_cons, essence_text, List.filter_cons_of_neg (by simp [Piece.isEmpty, he]), pieces_of_yields h]
  | _, _, .text he h => by
    rw [List.map_cons, essence_text, List.filter_cons_of_pos (by simp [Piece.isEmpty, he]), pieces_of_yields h,
      asPieces]
  | _, _, .code h ht => by
    rw [List.map_cons, essence_code, List.filter_cons_of_pos rfl, pieces_of_yields ht, embedded_of_yields h, asPieces]

theorem embedded_of_yields : ∀ {inner : Node} {e : Expression}, YieldsEmbedded inner e →
    (inner.bareName?.map (Node.reference .origin)).getD inner.essence = asNode e
  | _, _, .name hn => by rw [hn]; rfl
  | _, _, .expression hn h => by rw [hn, ← essence_of_yields h]; rfl

end

mutual

theorem asExpression_of_yields : ∀ {node : Node} {e : Expression}, Yields node e → asExpression node.essence = e
  | _, _, .string h => by rw [essence_string, asExpression, asParts_of_yields h]
  | _, _, .symbol | _, _, .int | _, _, .reference => rfl
  | _, _, .array => by rw [essence_array, asExpression, List.length_replicate]
  | _, _, .bareCall h => by rw [essence_call, Option.map_none, asExpression, asExpressions_of_yields h]
  | _, _, .methodCall hr ha => by
    rw [essence_call, Option.map_some, asExpression, asExpression_of_yields hr, asExpressions_of_yields ha]
  | _, _, .index hb hs => by
    rw [essence_index, asExpression, asExpression_of_yields hb, asExpression_of_yields hs]
  | _, _, .binary hl hr =>
    congrArg₂ (Expression.binary _) (asExpression_of_yields hl) (asExpression_of_yields hr)
  | _, _, .unary h => congrArg (Expression.unary _) (asExpression_of_yields h)
  | _, _, .assign ht hv => congrArg₂ Expression.assign (asExpression_of_yields ht) (asExpression_of_yields hv)
  | _, _, .splat h => congrArg Expression.splat (asExpression_of_yields h)
  | _, _, .paren h => by rw [essence_paren, asExpression_of_yields h]

theorem asExpressions_of_yields : ∀ {nodes : List Node} {found : List Expression}, YieldsAll nodes found →
    asExpressions (nodes.map essence) = found
  | _, _, .nil => rfl
  | _, _, .cons h ht => by
    rw [List.map_cons, asExpressions, asExpression_of_yields h, asExpressions_of_yields ht]

theorem asParts_of_yields : ∀ {pieces : List (Piece Node)} {found : List (Part Expression)},
    YieldsParts pieces found → asParts ((pieces.map Piece.essence).filter (!·.isEmpty)) = found
  | _, _, .nil => rfl
  | _, _, .empty he h => by
    rw [List.map_cons, essence_text, List.filter_cons_of_neg (by simp [Piece.isEmpty, he]), asParts_of_yields h]
  | _, _, .text he h => by
    rw [List.map_cons, essence_text, List.filter_cons_of_pos (by simp [Piece.isEmpty, he]), asParts,
      asParts_of_yields h]
  | _, _, .code h ht => by
    rw [List.map_cons, essence_code, List.filter_cons_of_pos rfl, asParts, asParts_of_yields ht,
      asEmbedded_of_yields h]

theorem asEmbedded_of_yields : ∀ {inner : Node} {e : Expression}, YieldsEmbedded inner e →
    asExpression ((inner.bareName?.map (Node.reference .origin)).getD inner.essence) = e
  | _, _, .name hn => by rw [hn]; rfl
  | _, _, .expression hn h => by rw [hn, Option.map_none, Option.getD_none, asExpression_of_yields h]

end

/-- A statement that is evaluated as an expression has an essence that is read as one. -/
theorem asInstruction_of_evaluated {node : Node} {e : Expression} (hev : evaluated node = true)
    (h : Yields node e) : asInstruction node.essence = .expression e := by
  have he := asExpression_of_yields h
  rw [← he]
  cases h
  case bareCall args _ _ _ =>
    cases args with
    | nil => simp only [essence_call]; rfl
    | cons first rest => cases hev
  case methodCall args _ _ _ _ _ =>
    cases args with
    | nil => simp only [essence_call]; rfl
    | cons first rest => cases hev
  case paren => cases hev
  case string => simp only [essence_string]; rfl
  case array => simp only [essence_array]; rfl
  all_goals rfl

theorem not_isShapedElse {node : Node} (hb : node.isBranch = false)
    (hc : ∀ pos statements, node ≠ .elseClause pos statements) : ¬isShapedElse (some node) = true := by
  cases node
  case elseClause pos statements => exact absurd rfl (hc pos statements)
  case branch => cases hb
  all_goals exact Bool.false_ne_true

mutual

theorem essence_of_becomes : ∀ {node : Node} {instruction : Instruction}, Becomes node instruction →
    node.isShaped = true → node.essence = asStatement instruction
  | _, _, .command h, _ => by
    rw [essence_call, asStatement, MethodName.decode_encode, essences_of_yields h]
    rfl
  | _, _, .commandOn hr h, _ => by
    rw [essence_call, asStatement, MethodName.decode_encode, essences_of_yields h, Option.map_some,
      essence_of_yields hr]
    rfl
  | _, _, .modifier hc h, hs => by
    rw [isShaped] at hs
    rw [essence_branchModifier, asStatement, essence_of_yields hc, essence_of_becomes h hs]
    rfl
  | _, _, @Becomes.branch _ (.opening _) _ _ _ _ _ _ hc hb he, hs => by
    simp only [isShaped, Bool.and_eq_true] at hs
    rw [essence_branch, asStatement, essence_of_yields hc, essences_of_becomes hb hs.1.2, else_of_becomes he hs.2]
    rfl
  | _, _, @Becomes.branch _ .further _ _ _ _ _ _ _ _ _, hs => by simp [isShaped] at hs
  | _, _, .paren h, hs => by
    rw [isShaped] at hs
    rw [essence_paren, essence_of_becomes h hs]
  | _, _, .expression _ h, _ => by rw [asStatement, essence_of_yields h]

theorem essences_of_becomes : ∀ {nodes : List Node} {found : List Instruction}, BecomesAll nodes found →
    areShaped nodes = true → nodes.map essence = asStatements found
  | _, _, .nil, _ => rfl
  | _, _, .cons h ht, hs => by
    rw [areShaped, Bool.and_eq_true] at hs
    rw [List.map_cons, asStatements, essence_of_becomes h hs.1, essences_of_becomes ht hs.2]

theorem else_of_becomes : ∀ {orelse : Option Node} {found : Option (List Instruction)},
    BecomesElse orelse found → isShapedElse orelse = true → furtherAsElse (orelse.map essence) = asElse found
  | _, _, .absent, _ => rfl
  | _, _, .clause h, hs => by
    rw [isShapedElse] at hs
    rw [Option.map_some, essence_elseClause, asElse, ← essences_of_becomes h hs]
    rfl
  | _, _, @BecomesElse.further _ .further _ _ _ _ _ _ hc hb he, hs => by
    simp only [isShapedElse, Bool.and_eq_true] at hs
    rw [Option.map_some, essence_branch, furtherAsElse, essence_of_yields hc, essences_of_becomes hb hs.1,
      else_of_becomes he hs.2]
    rfl
  | _, _, @BecomesElse.further _ (.opening _) _ _ _ _ _ _ _ _ _, hs => by simp [isShapedElse] at hs
  | _, _, .ignored hb hc, hs => absurd hs (not_isShapedElse hb hc)

end

mutual

theorem asInstruction_of_becomes : ∀ {node : Node} {instruction : Instruction}, Becomes node instruction →
    node.isShaped = true → asInstruction node.essence = instruction
  | _, _, .command h, _ => by
    rw [essence_call, List.map_cons, Option.map_none, asInstruction, ← List.map_cons, asExpressions_of_yields h]
  | _, _, .commandOn hr h, _ => by
    rw [essence_call, List.map_cons, Option.map_some, asInstruction, ← List.map_cons, asExpressions_of_yields h,
      asExpression_of_yields hr]
  | _, _, .modifier hc h, hs => by
    rw [isShaped] at hs
    rw [essence_branchModifier, asInstruction, asInstructions, asInstruction_of_becomes h hs,
      asExpression_of_yields hc]
    rfl
  | _, _, .branch hc hb he, hs => by
    simp only [isShaped, Bool.and_eq_true] at hs
    rw [essence_branch, asInstruction, asExpression_of_yields hc, asInstructions_of_becomes hb hs.1.2,
      asElseBranch_of_becomes he hs.2]
  | _, _, .paren h, hs => by
    rw [isShaped] at hs
    rw [essence_paren, asInstruction_of_becomes h hs]
  | _, _, .expression hev h, _ => asInstruction_of_evaluated hev h

theorem asInstructions_of_becomes : ∀ {nodes : List Node} {found : List Instruction}, BecomesAll nodes found →
    areShaped nodes = true → asInstructions (nodes.map essence) = found
  | _, _, .nil, _ => rfl
  | _, _, .cons h ht, hs => by
    rw [areShaped, Bool.and_eq_true] at hs
    rw [List.map_cons, asInstructions, asInstruction_of_becomes h hs.1, asInstructions_of_becomes ht hs.2]

theorem asElseBranch_of_becomes : ∀ {orelse : Option Node} {found : Option (List Instruction)},
    BecomesElse orelse found → isShapedElse orelse = true →
    asElseBranch (furtherAsElse (orelse.map essence)) = found
  | _, _, .absent, _ => rfl
  | _, _, .clause h, hs => by
    rw [isShapedElse] at hs
    rw [Option.map_some, essence_elseClause, furtherAsElse, asElseBranch, asInstructions_of_becomes h hs]
    rintro _ _ _ _ ⟨⟩
  | _, _, @BecomesElse.further _ .further _ _ _ _ _ _ hc hb he, hs => by
    simp only [isShapedElse, Bool.and_eq_true] at hs
    rw [Option.map_some, essence_branch, furtherAsElse, asElseBranch, asInstructions, asInstruction, asInstructions,
      asExpression_of_yields hc, asInstructions_of_becomes hb hs.1, asElseBranch_of_becomes he hs.2]
    rfl
  | _, _, @BecomesElse.further _ (.opening _) _ _ _ _ _ _ _ _ _, hs => by simp [isShapedElse] at hs
  | _, _, .ignored hb hc, hs => absurd hs (not_isShapedElse hb hc)

end

/-- Lowering loses the details that the essence leaves out, and nothing else. -/
theorem lowerInstall_eq_iff_essence_eq {first second : List Node} {is js : List Instruction}
    (hfirst : areShaped first = true) (hsecond : areShaped second = true)
    (hi : lowerInstall first = .ok is) (hj : lowerInstall second = .ok js) :
    is = js ↔ first.map essence = second.map essence := by
  have hi := lowerInstall_eq_ok_iff.1 hi
  have hj := lowerInstall_eq_ok_iff.1 hj
  constructor
  · rintro rfl
    rw [essences_of_becomes hi hfirst, essences_of_becomes hj hsecond]
  · intro h
    rw [← asInstructions_of_becomes hi hfirst, h, asInstructions_of_becomes hj hsecond]

theorem lowerInstall_eq_iff_essence_eq_modifier :
    let name (text : String) : Node := .call ⟨1, 1⟩ text none [] none false
    let said (code : Node) : Node := .call ⟨1, 3⟩ "puts!" none
      [.string ⟨1, 5⟩ [.text "", .code ⟨1, 6⟩ [code]], .array ⟨1, 9⟩ [.float ⟨1, 10⟩ 1.5]] none true
    let first : List Node := [.branch ⟨1, 1⟩ (.opening .negative) (name "a") [said (name "prefix")]
      (some (.branch ⟨2, 1⟩ .further (name "b") [name "c"] none))]
    let second : List Node := [.branch ⟨1, 1⟩ (.opening .negative) (.paren ⟨1, 2⟩ [name "a"])
      [.paren ⟨2, 1⟩ [said (.reference ⟨2, 3⟩ "prefix")]]
      (some (.elseClause ⟨3, 1⟩ [.branchModifier ⟨4, 1⟩ .positive (name "b") (name "c")]))]
    let said : Instruction := .command "puts__b" none [.string [.embed (.var "prefix")], .array 1]
    let instructions : List Instruction := [.conditional .negative (.bareCall "a" []) [said]
      (some [.conditional .positive (.bareCall "b" []) [.expression (.bareCall "c" [])] none])]
    (areShaped first = true ∧ areShaped second = true ∧ lowerInstall first = .ok instructions ∧
      lowerInstall second = .ok instructions) ∧ first.map essence = second.map essence := by
  intro name said first second said' instructions
  have hf : lowerInstall first = .ok instructions := rfl
  have hs : lowerInstall second = .ok instructions := rfl
  exact ⟨⟨rfl, rfl, hf, hs⟩, (lowerInstall_eq_iff_essence_eq rfl rfl hf hs).1 rfl⟩

end Losses

end Formulary

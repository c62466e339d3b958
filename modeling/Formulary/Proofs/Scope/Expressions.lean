import Formulary.Grammar.Operator
import Formulary.Proofs.Scope.Reading

/-! Statements and operator expressions go over the text as their walks do. An assignment declares its target. -/

namespace Formulary.Grammar

open Walk (mention)

variable {parse : Rules} (rules : TracedRules parse)
include rules

theorem traces_statements (stop : Stop) : Traces (statements parse stop) walkAll (List.map Node.place?) := by
  intro before places start
  refine triple_skipSeparators.bind fun _ => triple_atStop.bind fun _ => .ite (fun _ => ?_) fun _ => ?_
  · exact .pure fun _ reads => reads.mono (by simp) (by simp)
  · have rest (first : Node) : Triple (Reads (before.andThen first.walk) (places ++ [first.place?]) start)
        (do return first :: (← parse (.statements stop)))
        fun nodes => Reads (before.andThen (walkAll nodes)) (places ++ nodes.map Node.place?) start :=
      (rules.statements stop).read.bind fun more => .pure fun _ reads => reads.mono (by simp) (by simp)
    refine rules.statement.read.bind fun first => triple_atStop.bind fun _ => triple_check.bind fun _ => ?_
    exact .ite (fun _ => triple_complain.bind fun _ => rest first) fun _ => rest first

theorem traces_statement : TracesNode (statement parse) :=
  fun _ _ _ => rules.connective.read.bind fun node => rules.modifiers node _ _ _

theorem extends_modifiers (node : Node) : Extends node (modifiers parse node) := by
  intro before places start
  refine triple_glance.bind fun token => ?_
  have behind (larger : Node → Node) (same : ∀ other, (larger other).walk = node.walk.andThen other.walk)
      (here : ∀ other, (larger other).place? = some node.pos) : Triple (ReadsNode before places start node)
      (do discard advance; parse (.modifiers (larger (← parse .connective))))
      (ReadsNode before places start) :=
    triple_skip.bind fun _ => rules.connective.pass.bind fun other => (rules.modifiers _ _ _ _).weaken fun _ reads =>
      reads.based.mono (by rw [same, Walk.andThen_assoc]) (by rw [here])
  dsimp only
  split
  · exact behind (.branchModifier node.pos .positive · node) (fun _ => by simp) fun _ => rfl
  · exact behind (.branchModifier node.pos .negative · node) (fun _ => by simp) fun _ => rfl
  · exact behind (.loop node.pos .positive · [node] true) (fun _ => by simp) fun _ => rfl
  · exact behind (.loop node.pos .negative · [node] true) (fun _ => by simp) fun _ => rfl
  · exact behind (.rescueModifier node.pos node ·) (fun _ => by simp) fun _ => rfl
  · exact .pure fun _ => id

theorem traces_connective : TracesNode (connective parse) :=
  fun _ _ _ => rules.negation.read.bind fun left => rules.connectiveRest left _ _ _

theorem extends_connectiveRest (left : Node) : Extends left (connectiveRest parse left) := by
  intro before places start
  refine triple_glance.bind fun token => ?_
  cases token.lexeme.keyword? with
  | none => exact .pure fun _ => id
  | some word =>
    refine .ite (fun _ => ?_) fun _ => .pure fun _ => id
    exact triple_skip.bind fun _ => triple_skipNewlines.bind fun _ => rules.negation.pass.bind fun right =>
      (rules.connectiveRest _ _ _ _).weaken fun _ reads => reads.based.mono (by simp) (.refl _)

theorem traces_negation : TracesNode (negation parse) := by
  intro before places start
  refine triple_peek.bind fun token => .ite (fun word => ?_) fun _ => rules.expression.read.away token
  have inner : token.lexeme ≠ .endOfText := fun final => by simp [final, Lexeme.isKeyword] at word
  exact (triple_read inner).bind fun _ => rules.negation.pass.bind fun operand => .pure fun _ reads =>
    reads.mono (by simp) (.refl _)

/-! Assignments -/

section Targets

omit rules

variable {before : Walk} {places : List (Option Position)} {start : State} {pos : Position} {name : String}

/-- What an assignment does with its target. -/
def targetWalk (target : Node) : Walk :=
  target.declared?.elim target.walk .declare

theorem targetWalk_of_variable (h : isVariableName name) : targetWalk (.reference pos name) = .declare name := by
  simp [targetWalk, Node.declared?, h]

theorem targetWalk_of_not_variable (h : isVariableName name = false) :
    targetWalk (.reference pos name) = .nothing := by
  simp [targetWalk, Node.declared?, h]

theorem triple_declare_target : Triple (Reads before places start) (declare name)
    fun _ => Reads (before.andThen (targetWalk (.reference pos name))) places start := by
  cases possible : isVariableName name with
  | true =>
    rw [targetWalk_of_variable possible]
    exact triple_declare name
  | false =>
    rw [targetWalk_of_not_variable possible]
    exact .modify fun _ reads => reads.follow (.passOver possible)

/-- A variable that is the target of an assignment is one before. -/
theorem Reads.reassign {state : State} (h : Reads (before.andThen (Node.reference pos name).walk) places start state) :
    Reads (before.andThen (targetWalk (.reference pos name))) places start state ∧ Reads before places start state := by
  cases possible : isVariableName name with
  | true =>
    rw [targetWalk_of_variable possible]
    simp only [Node.walk, possible, if_true] at h
    have known : Scope.isLocal name state.scopes := h.follows.isLocal_of_mention
    exact ⟨h.of_mention.follow (.redeclare known), h.of_mention⟩
  | false =>
    rw [targetWalk_of_not_variable possible]
    have reads : Reads before places start state := by simpa [possible] using h
    exact ⟨by simpa using reads, reads⟩

theorem triple_assignable (node : Node) (token : Token) :
    Triple (ReadsNode before places start node) (assignable node token)
      fun target => Reads (before.andThen (targetWalk target)) (places ++ [some target.pos]) start := by
  have kept (target : Node) (plain : target.declared? = none) : Triple
      (Reads (before.andThen target.walk) (places ++ [target.place?]) start) (pure target)
      fun target => Reads (before.andThen (targetWalk target)) (places ++ [some target.pos]) start :=
    .pure fun _ reads => reads.based.mono (by rw [targetWalk, plain]; rfl) (.refl _)
  cases node with
  | reference pos name =>
    refine .ite (fun _ => triple_complainAt) fun _ => .ite (fun _ => ?_) fun _ => ?_
    · exact (triple_declare_target.weaken fun _ reads => reads.reassign.2).bind fun _ => .pure fun _ => id
    · exact .pure fun _ reads => reads.reassign.1
  | call pos name receiver args block parens =>
    cases receiver <;> cases args <;> cases block <;> cases parens
    case none.nil.none.false =>
      refine (triple_declare_target.weaken fun state reads => ?_).bind fun _ => .pure fun _ => id
      have called : Reads (before.andThen (mention name false)) (places ++ [some pos]) start state :=
        reads.mono (by simp) (.refl _)
      exact called.of_mention
    case some.nil.none.false | some.nil.none.true => exact kept _ rfl
    all_goals exact triple_complainAt
  | index | constPath => exact kept _ rfl
  | _ => exact triple_complainAt

end Targets

theorem traces_expression : TracesNode (expression parse) := by
  intro before places start
  refine rules.choice.read.bind fun target => triple_glance.bind fun token => ?_
  cases token.lexeme.operator? with
  | none => exact .pure fun _ => id
  | some op =>
    refine .ite (fun _ => ?_) fun _ => .ite (fun _ => ?_) fun _ => .pure fun _ => id
    · refine (triple_assignable target token).bind fun target => triple_skip.bind fun _ => triple_skipNewlines.bind
        fun _ => rules.expression.pass.bind fun value => .pure fun _ reads => reads.mono ?_ (.refl _)
      simp [targetWalk]
    · refine (triple_assignable target token).bind fun target => triple_skip.bind fun _ => triple_skipNewlines.bind
        fun _ => rules.expression.pass.bind fun value => .pure fun _ reads => reads.mono ?_ (.refl _)
      simp [targetWalk]

/-! Operators -/

theorem traces_range : TracesNode (range parse) := by
  intro before places start
  refine (rules.binary 0).read.bind fun low => triple_glance.bind fun token => .ite (fun _ => ?_) fun _ =>
    .pure fun _ => id
  have high : Triple (Reads (before.andThen low.walk) (places ++ [low.place?]) start) (some <$> parse (.binary 0))
      fun high => Reads ((before.andThen low.walk).andThen (walkOption high)) (places ++ [low.place?]) start :=
    (rules.binary 0).pass.map fun _ _ reads => by simpa using reads
  have finish (high : Option Node) : Triple
      (Reads ((before.andThen low.walk).andThen (walkOption high)) (places ++ [low.place?]) start)
      (pure (Node.range low.pos low high (token.lexeme.isOperator "...")))
      (ReadsNode before places start) :=
    .pure fun _ reads => reads.based.mono (by simp) (.refl _)
  refine triple_skip.bind fun _ => triple_check.bind fun _ => .ite (fun _ => ?_) fun _ => high.bind finish
  exact (finish none).weaken fun _ reads => by simpa using reads

theorem traces_choice : TracesNode (choice parse) := by
  intro before places start
  refine (traces_range rules).read.bind fun cond => triple_check.bind fun _ => .ite (fun _ => ?_) fun _ =>
    .pure fun _ => id
  refine triple_skip.bind fun _ => triple_skipNewlines.bind fun _ => rules.choice.pass.bind fun whenTrue => ?_
  refine triple_skipNewlines.bind fun _ => triple_consume.bind fun _ => triple_skipNewlines.bind fun _ => ?_
  exact rules.choice.pass.bind fun whenFalse => .pure fun _ reads => reads.based.mono (by simp) (.refl _)

theorem traces_binary (least : Nat) : TracesNode (binary parse least) :=
  fun _ _ _ => rules.unary.read.bind fun left => rules.binaryRest least left _ _ _

theorem extends_binaryRest (least : Nat) (left : Node) : Extends left (binaryRest parse least left) := by
  intro before places start
  refine triple_glance.bind fun token => ?_
  cases token.lexeme.operator? with
  | none => exact .pure fun _ => id
  | some op =>
    dsimp only
    cases precedence? op with
    | none => exact .pure fun _ => id
    | some precedence =>
      refine .ite (fun _ => .pure fun _ => id) fun _ => triple_skip.bind fun _ => triple_skipNewlines.bind fun _ => ?_
      exact (rules.binary _).pass.bind fun right => (rules.binaryRest _ _ _ _ _).weaken fun _ reads =>
        reads.based.mono (by simp) (.refl _)

omit rules in
/-- A sign before an operand declares nothing, and the operand stands behind the sign or where the number stands. -/
theorem signed_cases (pos : Position) (sign : String) (operand : Node) :
    (signed pos sign operand).walk = operand.walk ∧
      ((signed pos sign operand).place? = some pos ∨ (signed pos sign operand).place? = operand.place?) := by
  unfold signed
  split
  · exact ⟨by simp, .inl rfl⟩
  · exact ⟨by simp, .inl rfl⟩
  · exact ⟨by simp, .inr rfl⟩
  · exact ⟨by simp, .inr rfl⟩
  · exact ⟨by simp, .inl rfl⟩

theorem traces_unary : TracesNode (unary parse) := by
  intro before places start
  refine triple_peek.bind fun token => ?_
  cases found : token.lexeme.operator? with
  | none => exact rules.operand.read.away token
  | some op =>
    have inner : token.lexeme ≠ .endOfText := fun final => by simp [final, Lexeme.operator?] at found
    have applied : Triple (Reads before (places ++ [some token.pos]) start) (do return Node.unary token.pos op (← parse .unary))
        (ReadsNode before places start) :=
      rules.unary.pass.bind fun operand => .pure fun _ reads => reads.mono (by simp) (.refl _)
    refine .ite (fun _ => (triple_read inner).bind fun _ => applied) fun _ => .ite (fun _ => ?_) fun _ =>
      rules.operand.read.away token
    refine (triple_read inner).bind fun _ => triple_glance.bind fun following => .ite (fun _ => ?_) fun _ => applied
    refine rules.operand.read.bind fun operand => .pure fun _ reads => ?_
    obtain ⟨same, here | here⟩ := signed_cases token.pos op operand
    · exact reads.mono (by rw [same]) (by simp [here])
    · exact reads.mono (by rw [same]) (by simp [here])

end Formulary.Grammar

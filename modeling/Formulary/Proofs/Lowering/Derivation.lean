import Formulary.Instruction.Lowering
import Formulary.Proofs.Result

/-!
Lowering as rules. `Yields` and `Becomes` say what a node is lowered to without regard to the statement around it,
which only errors name; a node is lowered to something exactly if a rule applies.
-/

namespace Formulary.Lowering

open Result

mutual

inductive Yields : Node → Expression → Prop
  | string {pos : Position} {pieces : List (Piece Node)} {found : List (Part Expression)} :
      YieldsParts pieces found → Yields (.string pos pieces) (.string found)
  | symbol {pos : Position} {name : String} : Yields (.symbol pos name) (.symbol name)
  | int {pos : Position} {value : Int} : Yields (.int pos value) (.int value)
  | array {pos : Position} {elements : List Node} : Yields (.array pos elements) (.array elements.length)
  | reference {pos : Position} {name : String} : Yields (.reference pos name) (.var name)
  | bareCall {pos : Position} {name : String} {args : List Node} {parens : Bool} {lowered : List Expression} :
      YieldsAll args lowered →
      Yields (.call pos name none args none parens) (.bareCall (MethodName.encode name) lowered)
  | methodCall {pos : Position} {name : String} {receiver : Node} {args : List Node} {parens : Bool}
      {base : Expression} {lowered : List Expression} :
      Yields receiver base → YieldsAll args lowered →
      Yields (.call pos name (some receiver) args none parens)
        (.methodCall base (MethodName.encode name) lowered)
  | index {pos : Position} {base subscript : Node} {b s : Expression} :
      Yields base b → Yields subscript s → Yields (.index pos base [subscript]) (.index b s)
  | binary {pos : Position} {op : String} {left right : Node} {l r : Expression} :
      Yields left l → Yields right r → Yields (.binary pos op left right) (.binary op l r)
  | unary {pos : Position} {op : String} {operand : Node} {e : Expression} :
      Yields operand e → Yields (.unary pos op operand) (.unary op e)
  | assign {pos : Position} {target value : Node} {t v : Expression} :
      Yields target t → Yields value v → Yields (.assign pos target value) (.assign t v)
  | splat {pos : Position} {value : Node} {e : Expression} :
      Yields value e → Yields (.splat pos value false) (.splat e)
  | paren {pos : Position} {inner : Node} {e : Expression} : Yields inner e → Yields (.paren pos [inner]) e

inductive YieldsAll : List Node → List Expression → Prop
  | nil : YieldsAll [] []
  | cons {node : Node} {rest : List Node} {e : Expression} {more : List Expression} :
      Yields node e → YieldsAll rest more → YieldsAll (node :: rest) (e :: more)

inductive YieldsParts : List (Piece Node) → List (Part Expression) → Prop
  | nil : YieldsParts [] []
  | empty {value : String} {rest : List (Piece Node)} {more : List (Part Expression)} :
      value.isEmpty = true → YieldsParts rest more → YieldsParts (.text value :: rest) more
  | text {value : String} {rest : List (Piece Node)} {more : List (Part Expression)} :
      value.isEmpty = false → YieldsParts rest more → YieldsParts (.text value :: rest) (.text value :: more)
  | code {pos : Position} {inner : Node} {rest : List (Piece Node)} {e : Expression}
      {more : List (Part Expression)} :
      YieldsEmbedded inner e → YieldsParts rest more →
      YieldsParts (.code pos [inner] :: rest) (.embed e :: more)

inductive YieldsEmbedded : Node → Expression → Prop
  | name {inner : Node} {name : String} : inner.bareName? = some name → YieldsEmbedded inner (.var name)
  | expression {inner : Node} {e : Expression} :
      inner.bareName? = none → Yields inner e → YieldsEmbedded inner e

end

/-- Whether a statement is evaluated as an expression, if it is anything that can be lowered. -/
def evaluated : Node → Bool
  | .call _ _ _ (_ :: _) none _ | .branchModifier .. | .branch .. | .paren _ [_] => false
  | _ => true

mutual

inductive Becomes : Node → Instruction → Prop
  | command {pos : Position} {name : String} {first : Node} {rest : List Node} {parens : Bool}
      {lowered : List Expression} :
      YieldsAll (first :: rest) lowered →
      Becomes (.call pos name none (first :: rest) none parens) (.command (MethodName.encode name) none lowered)
  | commandOn {pos : Position} {name : String} {receiver first : Node} {rest : List Node} {parens : Bool}
      {base : Expression} {lowered : List Expression} :
      Yields receiver base → YieldsAll (first :: rest) lowered →
      Becomes (.call pos name (some receiver) (first :: rest) none parens)
        (.command (MethodName.encode name) (some base) lowered)
  | modifier {pos : Position} {polarity : Polarity} {cond inner : Node} {test : Expression}
      {instruction : Instruction} :
      Yields cond test → Becomes inner instruction →
      Becomes (.branchModifier pos polarity cond inner) (.conditional polarity test [instruction] none)
  | branch {pos : Position} {head : BranchHead} {cond : Node} {statements : List Node} {orelse : Option Node}
      {test : Expression} {thenBranch : List Instruction} {elseBranch : Option (List Instruction)} :
      Yields cond test → BecomesAll statements thenBranch → BecomesElse orelse elseBranch →
      Becomes (.branch pos head cond statements orelse)
        (.conditional head.polarity test thenBranch elseBranch)
  | paren {pos : Position} {inner : Node} {instruction : Instruction} :
      Becomes inner instruction → Becomes (.paren pos [inner]) instruction
  | expression {node : Node} {e : Expression} :
      evaluated node = true → Yields node e → Becomes node (.expression e)

inductive BecomesAll : List Node → List Instruction → Prop
  | nil : BecomesAll [] []
  | cons {node : Node} {rest : List Node} {instruction : Instruction} {more : List Instruction} :
      Becomes node instruction → BecomesAll rest more → BecomesAll (node :: rest) (instruction :: more)

/-- What stands in the place of an else clause and is none has no effect. -/
inductive BecomesElse : Option Node → Option (List Instruction) → Prop
  | absent : BecomesElse none none
  | clause {pos : Position} {statements : List Node} {instructions : List Instruction} :
      BecomesAll statements instructions → BecomesElse (some (.elseClause pos statements)) (some instructions)
  | further {pos : Position} {head : BranchHead} {cond : Node} {statements : List Node} {orelse : Option Node}
      {test : Expression} {thenBranch : List Instruction} {elseBranch : Option (List Instruction)} :
      Yields cond test → BecomesAll statements thenBranch → BecomesElse orelse elseBranch →
      BecomesElse (some (.branch pos head cond statements orelse))
        (some [.conditional head.polarity test thenBranch elseBranch])
  | ignored {node : Node} :
      node.isBranch = false → (∀ pos statements, node ≠ .elseClause pos statements) → BecomesElse (some node) none

end

/-! From results to rules: the cases are those of the definitions, the last of a kind that of nodes without a
counterpart -/

theorem yields_of_ok (within : Option Enclosing) :
    (∀ node e, expression within node = .ok e → Yields node e) ∧
    (∀ nodes found, expressions within nodes = .ok found → YieldsAll nodes found) ∧
    (∀ pieces found, parts within pieces = .ok found → YieldsParts pieces found) ∧
    (∀ pos body e, embedded within pos body = .ok e → ∃ inner, body = [inner] ∧ YieldsEmbedded inner e) := by
  apply expression.mutual_induct
  case case14 =>
    intro node _ _ _ _ _ _ _ _ _ _ _ _ _ e h
    rw [expression] at h <;> first | assumption | cases h
  case case19 =>
    intro pos body hbody e h
    rw [embedded] at h <;> first | assumption | cases h
  all_goals
    intros
    rename_i h
    simp only [expression, expressions, parts, embedded, bind_eq_ok_iff, pure_eq_ok_iff, Bool.false_eq_true,
      ↓reduceIte, *] at h
    grind [Yields, YieldsAll, YieldsParts, YieldsEmbedded]

mutual

theorem expression_eq_ok : ∀ {node : Node} {e : Expression}, Yields node e → expression within node = .ok e
  | _, _, .string h => by simp [expression, parts_eq_ok h]
  | _, _, .symbol | _, _, .int | _, _, .array | _, _, .reference => rfl
  | _, _, .bareCall h => by simp [expression, expressions_eq_ok h]
  | _, _, .methodCall hr ha => by simp [expression, expressions_eq_ok ha, expression_eq_ok hr]
  | _, _, .index hb hs => by simp [expression, expression_eq_ok hb, expression_eq_ok hs]
  | _, _, .binary hl hr => by simp [expression, expression_eq_ok hl, expression_eq_ok hr]
  | _, _, .unary h => by simp [expression, expression_eq_ok h]
  | _, _, .assign ht hv => by simp [expression, expression_eq_ok ht, expression_eq_ok hv]
  | _, _, .splat h => by simp [expression, expression_eq_ok h]
  | _, _, .paren h => by simp [expression, expression_eq_ok h]

theorem expressions_eq_ok :
    ∀ {nodes : List Node} {found : List Expression}, YieldsAll nodes found → expressions within nodes = .ok found
  | _, _, .nil => rfl
  | _, _, .cons h ht => by simp [expressions, expression_eq_ok h, expressions_eq_ok ht]

theorem parts_eq_ok :
    ∀ {pieces : List (Piece Node)} {found : List (Part Expression)},
      YieldsParts pieces found → parts within pieces = .ok found
  | _, _, .nil => rfl
  | _, _, .empty he h => by simp [parts, he, parts_eq_ok h]
  | _, _, .text he h => by simp [parts, he, parts_eq_ok h]
  | _, _, @YieldsParts.code pos _ _ _ _ he h => by simp [parts, embedded_eq_ok pos he, parts_eq_ok h]

theorem embedded_eq_ok :
    ∀ (pos : Position) {inner : Node} {e : Expression}, YieldsEmbedded inner e → embedded within pos [inner] = .ok e
  | _, _, _, .name hn => by simp [embedded, hn, pure, Except.pure]
  | _, _, _, .expression hn h => by simp [embedded, hn, expression_eq_ok h]

end

theorem evaluated_of_other {node : Node}
    (hcall : ∀ pos name receiver first rest parens, node ≠ .call pos name receiver (first :: rest) none parens)
    (hmodifier : ∀ pos polarity cond inner, node ≠ .branchModifier pos polarity cond inner)
    (hbranch : ∀ pos head cond statements orelse, node ≠ .branch pos head cond statements orelse)
    (hparen : ∀ pos inner, node ≠ .paren pos [inner]) : evaluated node = true := by
  unfold evaluated
  split
  · exact (hcall _ _ _ _ _ _ rfl).elim
  · exact (hmodifier _ _ _ _ rfl).elim
  · exact (hbranch _ _ _ _ _ rfl).elim
  · exact (hparen _ _ rfl).elim
  · rfl

theorem statement_eq_of_evaluated {node : Node} (h : evaluated node = true) :
    statement within node = (do return .expression (← expression within node)) := by
  rw [statement]
  all_goals
    intros
    subst_vars
    cases h

theorem elseBody_some {node : Node} (h : ∀ pos statements, node ≠ .elseClause pos statements) :
    elseBody (some node) =
      if node.isBranch then (do return some [← statement (some (.ofNode node)) node]) else .ok none := by
  rw [elseBody]
  · rfl
  · exact h

theorem further_of_becomes {node : Node} {instruction : Instruction} (hbranch : node.isBranch = true)
    (h : Becomes node instruction) : BecomesElse (some node) (some [instruction]) := by
  cases node <;> try cases hbranch
  cases h with
  | branch hc hs he => exact .further hc hs he
  | expression hev _ => cases hev

theorem becomes_of_ok :
    (∀ within node instruction, statement within node = .ok instruction → Becomes node instruction) ∧
    (∀ nodes found, body nodes = .ok found → BecomesAll nodes found) ∧
    (∀ orelse found, elseBody orelse = .ok found → BecomesElse orelse found) := by
  apply statement.mutual_induct
  case case1 =>
    intro within pos name receiver first rest parens instruction h
    cases receiver <;>
      simp only [statement, Option.mapM_none, Option.mapM_some, map_eq_ok_iff, Functor.map, bind_eq_ok_iff,
        pure_eq_ok_iff] at h
    · obtain ⟨_, rfl, lowered, ha, rfl⟩ := h
      exact .command ((yields_of_ok within).2.1 _ _ ha)
    · obtain ⟨_, ⟨base, hr, rfl⟩, lowered, ha, rfl⟩ := h
      exact .commandOn ((yields_of_ok within).1 _ _ hr) ((yields_of_ok within).2.1 _ _ ha)
  case case2 =>
    intro within pos polarity cond inner ih instruction h
    simp only [statement, bind_eq_ok_iff, pure_eq_ok_iff] at h
    obtain ⟨test, hc, found, hi, rfl⟩ := h
    exact .modifier ((yields_of_ok within).1 _ _ hc) (ih found hi)
  case case3 =>
    intro within pos head cond statements orelse ihe ihs instruction h
    simp only [statement, bind_eq_ok_iff, pure_eq_ok_iff] at h
    obtain ⟨elseBranch, he, test, hc, thenBranch, hs, rfl⟩ := h
    exact .branch ((yields_of_ok within).1 _ _ hc) (ihs _ hs) (ihe _ he)
  case case4 =>
    intro within pos inner ih instruction h
    rw [statement] at h
    exact .paren (ih _ h)
  case case5 =>
    intro within node hcall hmodifier hbranch hparen instruction h
    have hev := evaluated_of_other hcall hmodifier hbranch hparen
    simp only [statement_eq_of_evaluated hev, bind_eq_ok_iff, pure_eq_ok_iff] at h
    obtain ⟨e, he, rfl⟩ := h
    exact .expression hev ((yields_of_ok within).1 _ _ he)
  case case6 =>
    intro found h
    cases h
    exact .nil
  case case7 =>
    intro node rest ihn ihr found h
    simp only [body, bind_eq_ok_iff, pure_eq_ok_iff] at h
    obtain ⟨instruction, hi, more, hm, rfl⟩ := h
    exact .cons (ihn _ hi) (ihr _ hm)
  case case8 =>
    intro pos statements ih found h
    simp only [elseBody, bind_eq_ok_iff, pure_eq_ok_iff] at h
    obtain ⟨instructions, hi, rfl⟩ := h
    exact .clause (ih _ hi)
  case case9 =>
    intro node hclause hbranch ih found h
    simp only [elseBody_some hclause, hbranch, ↓reduceIte, bind_eq_ok_iff, pure_eq_ok_iff] at h
    obtain ⟨instruction, hi, rfl⟩ := h
    exact further_of_becomes hbranch (ih _ hi)
  case case10 =>
    intro node hclause hbranch found h
    simp only [elseBody_some hclause, hbranch, Bool.false_eq_true, ↓reduceIte] at h
    cases h
    exact .ignored (by simpa using hbranch) hclause
  case case11 =>
    intro found h
    cases h
    exact .absent

mutual

theorem statement_eq_ok :
    ∀ {within : Option Enclosing} {node : Node} {instruction : Instruction},
      Becomes node instruction → statement within node = .ok instruction
  | _, _, _, .command h => by simp [statement, expressions_eq_ok h]
  | _, _, _, .commandOn hr h => by
    simp [statement, expression_eq_ok hr, expressions_eq_ok h]
  | _, _, _, .modifier hc h => by simp [statement, expression_eq_ok hc, statement_eq_ok h]
  | _, _, _, .branch hc hs he => by
    simp [statement, expression_eq_ok hc, body_eq_ok hs, elseBody_eq_ok he]
  | _, _, _, .paren h => by simp [statement, statement_eq_ok h]
  | _, _, _, .expression he h => by simp [statement_eq_of_evaluated he, expression_eq_ok h]

theorem body_eq_ok :
    ∀ {nodes : List Node} {found : List Instruction}, BecomesAll nodes found → body nodes = .ok found
  | _, _, .nil => rfl
  | _, _, .cons h ht => by simp [body, statement_eq_ok h, body_eq_ok ht]

theorem elseBody_eq_ok :
    ∀ {orelse : Option Node} {found : Option (List Instruction)},
      BecomesElse orelse found → elseBody orelse = .ok found
  | _, _, .absent => rfl
  | _, _, .clause h => by simp [elseBody, body_eq_ok h]
  | _, _, .further hc hs he => by
    simp [elseBody, Node.isBranch, statement, expression_eq_ok hc, body_eq_ok hs, elseBody_eq_ok he]
  | _, _, .ignored hb hc => by
    simp [elseBody_some hc, hb]

end

theorem expression_eq_ok_iff {node : Node} {e : Expression} : expression within node = .ok e ↔ Yields node e :=
  ⟨(yields_of_ok within).1 node e, expression_eq_ok⟩

theorem lowerInstall_eq_ok_iff {statements : List Node} {instructions : List Instruction} :
    lowerInstall statements = .ok instructions ↔ BecomesAll statements instructions :=
  ⟨becomes_of_ok.2.1 statements instructions, body_eq_ok⟩

end Formulary.Lowering

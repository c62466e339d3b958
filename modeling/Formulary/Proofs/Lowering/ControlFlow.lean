import Formulary.Proofs.Lowering.Derivation

/-!
Lowering keeps the control flow. Both sides are run with an oracle that says how conditions come out; what a
statement list performs is the list of its leaf statements, and each of them is lowered to the instruction that
the instruction list performs in its place.
-/

namespace Formulary

/-- Whether a test with this polarity is passed. -/
def Polarity.passes (polarity : Polarity) (outcome : Bool) : Bool :=
  match polarity with
  | .positive => outcome
  | .negative => !outcome

mutual

/-- The instructions that are performed, in order. -/
def Instruction.run (oracle : Expression → Bool) : Instruction → List Instruction
  | .conditional polarity cond thenBranch elseBranch =>
    if polarity.passes (oracle cond) then runAll oracle thenBranch else runElse oracle elseBranch
  | leaf => [leaf]

def runAll (oracle : Expression → Bool) : List Instruction → List Instruction
  | [] => []
  | instruction :: rest => instruction.run oracle ++ runAll oracle rest

def runElse (oracle : Expression → Bool) : Option (List Instruction) → List Instruction
  | none => []
  | some instructions => runAll oracle instructions

end

mutual

/-- The leaf statements that are performed, in order. -/
def Node.run (test : Node → Bool) : Node → List Node
  | .branchModifier _ polarity cond inner => if polarity.passes (test cond) then inner.run test else []
  | .branch _ head cond statements orelse =>
    if head.polarity.passes (test cond) then runStatements test statements else runOrelse test orelse
  | .paren _ [inner] => inner.run test
  | leaf => [leaf]

def runStatements (test : Node → Bool) : List Node → List Node
  | [] => []
  | node :: rest => node.run test ++ runStatements test rest

/-- An else clause, or a further test in its place. -/
def runOrelse (test : Node → Bool) : Option Node → List Node
  | some (.elseClause _ statements) => runStatements test statements
  | some node => if node.isBranch then node.run test else []
  | none => []

end

namespace ControlFlow

open Lowering

/-- How a condition comes out if the oracle knows only what it is lowered to. -/
def outcome (oracle : Expression → Bool) (cond : Node) : Bool :=
  match expression none cond with
  | .ok test => oracle test
  | .error _ => false

theorem outcome_eq {oracle : Expression → Bool} {cond : Node} {test : Expression} (h : Yields cond test) :
    outcome oracle cond = oracle test := by
  simp [outcome, expression_eq_ok h]

/-- Leaf statements that are lowered, each by itself, to these instructions. -/
def LoweredTo (leaves : List Node) (instructions : List Instruction) : Prop :=
  leaves.map (fun leaf => lowerInstall [leaf]) = instructions.map (fun instruction => .ok [instruction])

theorem LoweredTo.append {first second : List Node} {is js : List Instruction}
    (hf : LoweredTo first is) (hs : LoweredTo second js) : LoweredTo (first ++ second) (is ++ js) := by
  unfold LoweredTo at *
  rw [List.map_append, List.map_append, hf, hs]

theorem loweredTo_nil : LoweredTo [] [] := rfl

theorem loweredTo_leaf {leaf : Node} {instruction : Instruction} (h : Becomes leaf instruction) :
    LoweredTo [leaf] [instruction] := by
  have hl := lowerInstall_eq_ok_iff.2 (.cons h .nil)
  simp [LoweredTo, hl]

theorem run_of_evaluated {test : Node → Bool} {node : Node} (h : evaluated node = true) : node.run test = [node] := by
  rw [Node.run]
  all_goals
    intros
    subst_vars
    cases h

theorem runOrelse_some {test : Node → Bool} {node : Node} (h : ∀ pos statements, node ≠ .elseClause pos statements) :
    runOrelse test (some node) = if node.isBranch then node.run test else [] := by
  rw [runOrelse]
  exact h

theorem branch_loweredTo {oracle : Expression → Bool} {pos : Position} {head : BranchHead} {cond : Node}
    {statements : List Node} {orelse : Option Node} {test : Expression} {thenBranch : List Instruction}
    {elseBranch : Option (List Instruction)} (hc : Yields cond test)
    (hthen : LoweredTo (runStatements (outcome oracle) statements) (runAll oracle thenBranch))
    (helse : LoweredTo (runOrelse (outcome oracle) orelse) (runElse oracle elseBranch)) :
    LoweredTo ((Node.branch pos head cond statements orelse).run (outcome oracle))
      ((Instruction.conditional head.polarity test thenBranch elseBranch).run oracle) := by
  rw [Node.run, Instruction.run, outcome_eq hc]
  split
  · exact hthen
  · exact helse

variable (oracle : Expression → Bool)

mutual

theorem run_loweredTo : ∀ {node : Node} {instruction : Instruction}, Becomes node instruction →
    LoweredTo (node.run (outcome oracle)) (instruction.run oracle)
  | _, _, .command h => loweredTo_leaf (.command h)
  | _, _, .commandOn hr h => loweredTo_leaf (.commandOn hr h)
  | _, _, .modifier hc h => by
    rw [Node.run, Instruction.run, outcome_eq hc]
    split
    · simpa [runAll] using run_loweredTo h
    · exact loweredTo_nil
  | _, _, .branch hc hs he => branch_loweredTo hc (runStatements_loweredTo hs) (runOrelse_loweredTo he)
  | _, _, .paren h => by
    rw [Node.run]
    exact run_loweredTo h
  | _, _, .expression he h => by
    rw [run_of_evaluated he]
    exact loweredTo_leaf (.expression he h)

theorem runStatements_loweredTo : ∀ {statements : List Node} {instructions : List Instruction},
    BecomesAll statements instructions →
    LoweredTo (runStatements (outcome oracle) statements) (runAll oracle instructions)
  | _, _, .nil => loweredTo_nil
  | _, _, .cons h ht => (run_loweredTo h).append (runStatements_loweredTo ht)

theorem runOrelse_loweredTo : ∀ {orelse : Option Node} {elseBranch : Option (List Instruction)},
    BecomesElse orelse elseBranch →
    LoweredTo (runOrelse (outcome oracle) orelse) (runElse oracle elseBranch)
  | _, _, .absent => loweredTo_nil
  | _, _, .clause h => runStatements_loweredTo h
  | _, _, .further hc hs he => by
    rw [runOrelse_some (by rintro _ _ ⟨⟩), Node.isBranch, if_pos rfl, runElse, runAll, runAll, List.append_nil]
    exact branch_loweredTo hc (runStatements_loweredTo hs) (runOrelse_loweredTo he)
  | some node, _, .ignored hb hc => by
    rw [runOrelse_some hc, hb]
    exact loweredTo_nil

end

/-- For every oracle, a statement list and its instructions perform the same leaves in the same order. -/
theorem lowerInstall_performs {statements : List Node} {instructions : List Instruction}
    (h : lowerInstall statements = .ok instructions) :
    (runStatements (outcome oracle) statements).map (fun leaf => lowerInstall [leaf]) =
      (runAll oracle instructions).map (fun instruction => .ok [instruction]) :=
  runStatements_loweredTo oracle (lowerInstall_eq_ok_iff.1 h)

theorem lowerInstall_performs_nested :
    let leaf (name : String) : Node := .call .origin name none [.int .origin 1] none false
    let cond (name : String) : Node := .call .origin name none [] none false
    let statements : List Node := [
      .branchModifier .origin .negative (cond "d") <| .branch .origin (.opening .positive) (cond "a") [leaf "x"]
        (some (.branch .origin .further (cond "b") [.paren .origin [leaf "y"]]
          (some (.elseClause .origin [.branchModifier .origin .positive (cond "c") (leaf "z")]))))]
    let call (name : String) : Expression := .bareCall name []
    let step (name : String) : Instruction := .command name none [.int 1]
    let instructions : List Instruction := [
      .conditional .negative (call "d") [.conditional .positive (call "a") [step "x"]
        (some [.conditional .positive (call "b") [step "y"]
          (some [.conditional .positive (call "c") [step "z"] none])])] none]
    let oracle : Expression → Bool := fun test => match test with
      | .bareCall "c" [] => true
      | _ => false
    lowerInstall statements = .ok instructions ∧
      (runStatements (outcome oracle) statements).map (fun leaf => lowerInstall [leaf]) = [.ok [step "z"]] := by
  intro leaf cond statements call step instructions oracle
  have h : lowerInstall statements = .ok instructions := by rfl
  exact ⟨h, (lowerInstall_performs oracle h).trans (by rfl)⟩

end ControlFlow

end Formulary

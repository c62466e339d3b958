import Formulary.Proofs.Scope.Constructs
import Formulary.Proofs.Scope.DefaultFree
import Formulary.Proofs.Scope.Expressions
import Formulary.Proofs.Scope.Literals

/-!
Names are resolved lexically. A parser leaves out of the tree what the default value of a parameter declares, so this is
shown of texts without default values.
-/

namespace Formulary

namespace Grammar

open Walk (inTurn)

section Operands

variable {parse : Rules} (rules : TracedRules parse)
include rules

variable {before : Walk} {places : List (Option Position)} {start : State} {token : Token}

theorem triple_keyword {word : String} (lexeme : token.lexeme = .keyword word) :
    Triple (At token (Reads before places start)) (keyword parse token word)
      (ReadsNode before places start) := by
  have inner : token.lexeme ≠ .endOfText := by simp [lexeme]
  have named (name : String) (marked : isVariableName name = false) : Triple (At token (Reads before places start))
      (do discard advance; return Node.reference token.pos name)
      (ReadsNode before places start) :=
    (triple_read inner).bind fun _ => .pure fun _ reads => reads.mono (by simp [marked]) (.refl _)
  have branch : Triple (At token (Reads before places start)) (parse .branch)
      (ReadsNode before places start) :=
    (rules.branch _ _ _).weaken fun _ ⟨reads, same⟩ => ⟨reads, reads.ahead_ne_nil (same ▸ inner)⟩
  unfold keyword
  split
  case h_6 | h_7 => exact branch
  case h_8 | h_9 => exact triple_loop rules inner _
  case h_10 => exact triple_forLoop rules inner
  case h_11 => exact triple_caseOf rules inner
  case h_12 => exact triple_beginBlock rules inner
  case h_13 => exact triple_methodDef rules inner
  case h_14 => exact triple_classDef rules inner
  case h_15 => exact triple_moduleDef rules inner
  case h_16 | h_17 | h_18 => exact triple_jump rules inner _
  case h_19 | h_20 => exact triple_keywordCall rules inner _
  case h_21 =>
    exact (triple_read inner).bind fun _ => rules.expression.pass.bind fun operand => .pure fun _ reads =>
      reads.mono (by simp) (.refl _)
  case h_22 => exact triple_complain
  all_goals exact named _ (by decide)

omit rules in
theorem triple_fromNumber {α : Type} {before : State → Prop} (value : Except Text.NumberFault α) :
    Triple before (fromNumber value) fun _ => before := by
  cases value with
  | ok value => exact .pure fun _ => id
  | error fault => exact .throw

theorem triple_parenthesized (pos : Position) :
    Triple (Reads before (places ++ [some pos]) start) (parenthesized parse pos)
      (ReadsNode before places start) := by
  refine .enclosed (fun _ _ reads => reads.bar _) (fun _ _ _ reads => reads.bar _) ?_
  exact (rules.statements _).pass.bind fun statements => triple_consume.bind fun _ => .pure fun _ reads =>
    reads.mono (by simp) (.refl _)

omit rules in
/-- An array of words, all of which stand where it does. -/
theorem walk_array {α : Type} (pos : Position) {f : α → Node} (single : ∀ item, (f item).place? = some pos)
    (silent : ∀ item, (f item).walk = .nothing) (items : List α) : (Node.array pos (items.map f)).walk = .nothing := by
  rw [Node.walk, argumentWalks_map single]
  refine Walk.byPosition_eq_nothing fun part member => ?_
  obtain ⟨item, -, rfl⟩ := List.mem_map.1 member
  exact silent item

theorem traces_primary : TracesNode (primary parse) := by
  intro before places start
  refine triple_peek.bind fun token => .knowing (fun _ looked => And.intro looked.marked looked.inner)
    fun ⟨marked, scanned⟩ => ?_
  dsimp only
  have read (inner : token.lexeme ≠ .endOfText) (node : Node) (silent : node.walk = .nothing)
      (here : node.place? = some token.pos) : Triple (At token (Reads before places start)) (do discard advance; return node)
      (ReadsNode before places start) :=
    (triple_read inner).bind fun _ => .pure fun _ reads => reads.mono (by simp [silent]) (by rw [here])
  cases lexeme : token.lexeme with
  | integer digits | float digits =>
    refine (triple_read (by simp [lexeme])).bind fun _ => (triple_fromNumber _).bind fun _ => ?_
    exact .pure fun _ reads => reads.mono (by simp) (.refl _)
  | string segments =>
    rw [lexeme] at scanned
    exact (triple_read (by simp [lexeme])).bind fun _ => triple_stringLiteral rules scanned
  | shell segments =>
    rw [lexeme] at scanned
    refine (triple_read (by simp [lexeme])).bind fun _ => (traces_pieces rules scanned).pass.bind fun pieces => ?_
    exact .pure fun _ reads => reads.mono (by simp) (.refl _)
  | regexp source flags => exact read (by simp [lexeme]) (.regexp token.pos source flags) (by simp) rfl
  | symbol name => exact read (by simp [lexeme]) (.symbol token.pos name) (by simp) rfl
  | words items => exact read (by simp [lexeme]) _ (walk_array token.pos (fun _ => rfl) (fun _ => by simp) items) rfl
  | symbols items => exact read (by simp [lexeme]) _ (walk_array token.pos (fun _ => rfl) (fun _ => by simp) items) rfl
  | instanceVar name | globalVar name =>
    rw [lexeme, Lexeme.Marked] at marked
    exact read (by simp [lexeme]) (.reference token.pos name) (by simp [marked]) rfl
  | constant name =>
    rw [lexeme, Lexeme.Marked] at marked
    exact (triple_read (by simp [lexeme])).bind fun _ => triple_constant rules marked token.pos
  | identifier name => exact (triple_read (by simp [lexeme])).bind fun _ => triple_identifier rules name token.pos
  | keyword word => exact triple_keyword rules lexeme
  | opening bracket =>
    cases bracket with
    | round => exact (triple_read (by simp [lexeme])).bind fun _ => triple_parenthesized rules token.pos
    | square =>
      refine (triple_read (by simp [lexeme])).bind fun _ => (traces_delimitedArguments rules .square).pass.bind
        fun elements => ?_
      exact .pure fun _ reads => reads.mono (by simp) (.refl _)
    | curly => exact triple_hash rules (by simp [lexeme])
  | doubleColon =>
    refine (triple_read (by simp [lexeme])).bind fun _ => triple_consumeConstant.bind fun name => ?_
    exact .pure fun _ reads => reads.mono (by simp) (.refl _)
  | operator spelling =>
    split
    case h_18 => exact triple_complain
    all_goals first | contradiction | exact triple_complain
  | _ => exact triple_complain

theorem traces_operand : TracesNode (operand parse) :=
  fun _ _ _ => (traces_primary rules).read.bind fun node => rules.trailers node _ _ _

end Operands

/-! Texts without default values -/

variable {parse : Rules}

theorem traces_params (parenthesized : Bool) (more : Traces (parse (.params parenthesized))
    (fun names => inTurn (names.map .declare)) fun _ => []) : Traces (params (withoutValues parse) parenthesized)
      (fun names => inTurn (names.map .declare)) fun _ => [] := by
  intro walked places start
  have declared (name : String) : Triple (Reads (walked.andThen (.declare name)) places start)
      (do return name :: (← parse (.params parenthesized)))
      fun names => Reads (walked.andThen (inTurn (names.map .declare))) (places ++ []) start :=
    more.pass.bind fun names => .pure fun _ reads => reads.mono (by simp) (by simp)
  -- A value is read only where a parameter has one, and there the rules without values fail.
  have valueless (before : State → Prop) (next : PUnit → Parser (List String)) : Triple before
      (discard (withoutValues parse .choice) >>= next)
      fun names => Reads (walked.andThen (inTurn (names.map .declare))) (places ++ []) start := by
    have fails : Triple before (withoutValues parse .choice) fun _ _ => False := triple_complain
    have never : Triple before (discard (withoutValues parse .choice)) fun _ _ => False := fails.map fun _ _ => id
    exact never.bind fun _ _ _ _ impossible => impossible.elim
  refine triple_check.bind fun _ => .ite (fun _ => .ite (fun _ => ?_) fun _ => ?_) fun _ =>
    triple_advance.bind fun token => ?_
  · exact triple_skip.bind fun _ => .pure fun _ reads => reads.mono (by simp) (by simp)
  · exact .pure fun _ reads => reads.mono (by simp) (by simp)
  cases token.lexeme with
  | identifier name =>
    refine (triple_declare name).bind fun _ => triple_check.bind fun _ => .ite (fun _ => ?_) fun _ => declared name
    exact triple_skip.bind fun _ => valueless _ _
  | label name =>
    exact (triple_declare name).bind fun _ => triple_check.bind fun _ => .ite (fun _ => valueless _ _) fun _ =>
      declared name
  | operator op =>
    refine .ite (fun _ => triple_glance.bind fun next => ?_) fun _ => triple_complainAt
    cases next.lexeme with
    | identifier name => exact triple_skip.bind fun _ => (triple_declare name).bind fun _ => declared name
    | _ => exact more.read
  | comma => exact more.read
  | _ => exact triple_complainAt

theorem tracedRules_plainStep (rules : TracedRules parse) : TracedRules (plainStep parse) where
  statements := traces_statements rules
  statement := traces_statement rules
  modifiers := extends_modifiers rules
  connective := traces_connective rules
  connectiveRest := extends_connectiveRest rules
  negation := traces_negation rules
  expression := traces_expression rules
  choice := traces_choice rules
  binary := traces_binary rules
  binaryRest := extends_binaryRest rules
  unary := traces_unary rules
  operand := traces_operand rules
  trailers := extends_trailers rules
  arguments := traces_arguments rules
  adjacent := traces_adjacent rules
  code := traces_embedded rules
  pairs := traces_pairs rules
  blockNames := traces_blockNames rules
  params parenthesized := traces_params parenthesized (rules.params parenthesized)
  branch _ _ _ := triple_branch rules
  whens := traces_whens rules
  rescues := traces_rescues rules
  exceptions := traces_exceptions rules
  targets := traces_targets rules
  constantNames := traces_constantNames rules

theorem tracedRules_plainRule (fuel : Nat) : TracedRules (plainRule fuel) := by
  induction fuel with
  | zero =>
    have fails {α : Type} {before : State → Prop} {after : α → State → Prop} {rule : Rule α} :
        Triple before (plainRule 0 rule) after :=
      triple_peek.bind fun _ => .throw
    constructor
    case branch => exact fun _ _ _ => fails
    all_goals
      intros
      exact fun _ _ _ => fails
  | succ fuel ih => exact tracedRules_plainStep ih

theorem triple_program (rules : TracedRules parse) {start : State} :
    Triple (Reads .nothing [] start) (program parse) fun tree => Reads tree.walk [] start := by
  have finish (statements : List Node) : Triple (Reads (Walk.nothing.andThen (walkAll statements)) [] start)
      (pure (Node.program .origin statements)) fun tree => Reads tree.walk [] start :=
    .pure fun _ reads => reads.mono (by simp) (.refl _)
  exact (rules.statements {}).pass.bind fun statements => triple_atStop.bind fun _ =>
    .ite (fun _ => triple_complain.bind fun _ => finish statements) fun _ => finish statements

end Grammar

/-- The names of a tree that stand without receiver and parentheses, with what is declared where they stand. -/
def Node.uses (tree : Node) : List Use :=
  (tree.walk [⟨true, []⟩]).1

/-- A name without receiver and parentheses is a variable where it is declared in a scope around it, up to the nearest
hard one, and begins a call elsewhere. -/
theorem parseRecipe_lexical {text : List Char} {tree : Node} (read : parseRecipe text = .ok tree)
    (plain : DefaultFree text) : ∀ use ∈ tree.uses, use.asVariable = use.declared := by
  rw [← plain.parsePlain_eq, parsePlain] at read
  split at read
  · rename_i tokens found
    have scanned : Scanned tokens := scanned_tokenize found
    obtain ⟨⟨tree', state⟩, run, rfl⟩ := Result.map_eq_ok_iff.1 read
    have sound : (Grammar.start tokens).Sound := by
      rw [Grammar.State.Sound, Grammar.start, scanned.capped.split]
      exact scanned
    have reads := Grammar.triple_program (Grammar.tracedRules_plainRule _) (.refl sound) run
    exact (reads.follows (.refl _)).2
  · contradiction

/-- A variable outside of a class, one of a block in a method, and one that code in a string declares. -/
def scopes : List Char :=
  "v = 1\nclass A\n  def f(x)\n    [x].each do |y|\n      z = y if v\n    end\n    z\n  end\nend\nputs \"#\x7bw = v\x7d\"\nw\n".toList

theorem parseRecipe_lexical_scopes : ∃ tree, parseRecipe scopes = .ok tree ∧ DefaultFree scopes ∧
    tree.uses = [⟨"x", true, true⟩, ⟨"y", true, true⟩, ⟨"v", false, false⟩, ⟨"z", false, false⟩,
      ⟨"puts", false, false⟩, ⟨"v", true, true⟩, ⟨"w", true, true⟩] ∧
    ∀ use ∈ tree.uses, use.asVariable = use.declared := by
  have found : (parseRecipe scopes).toOption.map Node.uses =
      some [⟨"x", true, true⟩, ⟨"y", true, true⟩, ⟨"v", false, false⟩, ⟨"z", false, false⟩,
        ⟨"puts", false, false⟩, ⟨"v", true, true⟩, ⟨"w", true, true⟩] := by decide +kernel
  have plain : DefaultFree scopes := by decide +kernel
  cases read : parseRecipe scopes with
  | error error =>
    rw [read] at found
    cases found
  | ok tree =>
    rw [read] at found
    exact ⟨tree, rfl, plain, Option.some.inj found, parseRecipe_lexical read plain⟩

end Formulary

import Formulary.Proofs.Grammar.Operands
import Formulary.Proofs.Tree.Place
import Mathlib.Data.List.Chain

/-! Block-structured code, its tree and its spelling. -/

namespace Formulary.Grammar

mutual

/-- Block-structured code, in which every condition is a name. -/
inductive Code where
  | command (name argument : String) (more : List String)
  | whether (cond : String) (body : List Code) (rest : Rest)
  | unless (cond : String) (body : List Code) (orelse : Option (List Code))
  | loop (polarity : Polarity) (cond : String) (body : List Code)
  | branchModifier (polarity : Polarity) (cond : String) (statement : Code)
  | loopModifier (polarity : Polarity) (cond : String) (statement : Code)

/-- What follows the first body of a test. -/
inductive Rest where
  | last (orelse : Option (List Code))
  | further (cond : String) (body : List Code) (rest : Rest)

end

mutual

def Code.node : Code → Node
  | .command name argument more => .call .origin name none ((argument :: more).map plain) none false
  | .whether cond body rest => .branch .origin (.opening .positive) (bare cond) (nodes body) rest.node?
  | .unless cond body orelse => .branch .origin (.opening .negative) (bare cond) (nodes body) (elseNode? orelse)
  | .loop polarity cond body => .loop .origin polarity (bare cond) (nodes body) false
  | .branchModifier polarity cond statement => .branchModifier .origin polarity (bare cond) statement.node
  | .loopModifier polarity cond statement => .loop .origin polarity (bare cond) [statement.node] true

def Rest.node? : Rest → Option Node
  | .last orelse => elseNode? orelse
  | .further cond body rest => some (.branch .origin .further (bare cond) (nodes body) rest.node?)

def elseNode? : Option (List Code) → Option Node
  | none => none
  | some body => some (.elseClause .origin (nodes body))

def nodes : List Code → List Node
  | [] => []
  | code :: more => code.node :: nodes more

end

theorem nodes_eq (body : List Code) : nodes body = body.map Code.node := by
  induction body with
  | nil => rfl
  | cons code more ih => rw [nodes, ih, List.map_cons]

section Spelling

-- `closing` says whether a newline stands behind the last statement of a list too.
variable (closing : Bool)

/-- The arguments of a command, separated by commas. -/
def argumentLexemes (argument : String) : List String → List (Lexeme Token)
  | [] => [.string [.text argument]]
  | other :: more => .string [.text argument] :: .comma :: argumentLexemes other more

/-- The newline between two statements, or after the last one. -/
def gap (more : List Code) : List (Lexeme Token) :=
  if closing || !more.isEmpty then [.newline] else []

mutual

def Code.lexemes : Code → List (Lexeme Token)
  | .command name argument more => .identifier name :: argumentLexemes argument more
  | .whether cond body rest => .keyword "if" :: .identifier cond :: .newline :: (lines body ++ rest.lexemes)
  | .unless cond body orelse =>
    .keyword "unless" :: .identifier cond :: .newline :: (lines body ++ (elseLexemes orelse ++ [.keyword "end"]))
  | .loop polarity cond body =>
    .keyword polarity.loopWord :: .identifier cond :: .newline :: (lines body ++ [.keyword "end"])
  | .branchModifier polarity cond statement =>
    statement.lexemes ++ [.keyword polarity.branchWord, .identifier cond]
  | .loopModifier polarity cond statement =>
    statement.lexemes ++ [.keyword polarity.loopWord, .identifier cond]

def Rest.lexemes : Rest → List (Lexeme Token)
  | .last orelse => elseLexemes orelse ++ [.keyword "end"]
  | .further cond body rest =>
    .keyword "elsif" :: .identifier cond :: .newline :: (lines body ++ rest.lexemes)

def elseLexemes : Option (List Code) → List (Lexeme Token)
  | none => []
  | some body => .keyword "else" :: .newline :: lines body

def lines : List Code → List (Lexeme Token)
  | [] => []
  | code :: more => code.lexemes ++ (gap closing more ++ lines more)

end

end Spelling

def isString : Lexeme Token → Bool
  | .string _ => true
  | _ => false

/-- A string right after a name is apart from it, so that it is an argument. -/
def Apart (first second : Token) : Prop :=
  first.lexeme.isIdentifier → isString second.lexeme → second.spaced

instance (first second : Token) : Decidable (Apart first second) :=
  inferInstanceAs (Decidable (first.lexeme.isIdentifier → isString second.lexeme → second.spaced))

theorem apart_place {first second : Token} (h : Apart first second) :
    Apart (first.place nowhere) (second.place nowhere) := by
  have identifier : Blind nowhere (Lexeme.isIdentifier : Lexeme Token → Bool) := blind_of_strings (fun _ => rfl) fun _ => rfl
  have string : Blind nowhere isString := blind_of_strings (fun _ => rfl) fun _ => rfl
  rw [Apart, Token.lexeme_place, Token.lexeme_place, Token.spaced_place, identifier, string]
  exact h

/-- Tokens with these lexemes, all at one place. -/
structure Spells (tokens : List Token) (lexemes : List (Lexeme Token)) : Prop where
  lexemes : tokens.map (·.lexeme) = lexemes
  unplaced : ∀ token ∈ tokens, token.pos = .origin
  apart : tokens.IsChain Apart

namespace Spells

variable {front : List Token} {lexemes more : List (Lexeme Token)} {lexeme : Lexeme Token}

theorem length_eq (h : Spells front lexemes) : front.length = lexemes.length := by
  rw [← h.lexemes, List.length_map]

theorem nil (h : Spells front []) : front = [] :=
  List.map_eq_nil_iff.1 h.lexemes

theorem cons (h : Spells front (lexeme :: lexemes)) :
    ∃ spaced rest, front = ⟨lexeme, .origin, spaced⟩ :: rest ∧ Spells rest lexemes := by
  obtain ⟨⟨_, _, spaced⟩, rest, rfl, rfl, rfl⟩ := List.map_eq_cons_iff.1 h.lexemes
  obtain rfl : _ = Position.origin := h.unplaced _ List.mem_cons_self
  exact ⟨spaced, rest, rfl, rfl, fun token member => h.unplaced token (List.mem_cons_of_mem _ member), h.apart.tail⟩

theorem append (h : Spells front (lexemes ++ more)) :
    ∃ before after, front = before ++ after ∧ Spells before lexemes ∧ Spells after more := by
  obtain ⟨before, after, rfl, rfl, rfl⟩ := List.map_eq_append_iff.1 h.lexemes
  exact ⟨before, after, rfl, ⟨rfl, fun token member => h.unplaced token (List.mem_append_left _ member),
    h.apart.left_of_append⟩, ⟨rfl, fun token member => h.unplaced token (List.mem_append_right _ member),
    h.apart.right_of_append⟩⟩

end Spells

variable {closing : Bool} {front : List Token}

theorem length_argumentLexemes (text : String) (more : List String) :
    (argumentLexemes text more).length = 2 * more.length + 1 := by
  induction more generalizing text with
  | nil => rfl
  | cons other more ih => simp only [argumentLexemes, List.length_cons, ih]; omega

theorem Spells.argument {text : String} {more : List String} (h : Spells front (argumentLexemes text more)) :
    ∃ spaced tail, front = ⟨.string [.text text], .origin, spaced⟩ :: tail := by
  cases more <;>
  · obtain ⟨spaced, tail, rfl, -⟩ := h.cons
    exact ⟨spaced, tail, rfl⟩

/-- Lexemes without a position in them. -/
def Placeless (lexemes : List (Lexeme Token)) : Prop :=
  lexemes.map (Lexeme.place nowhere) = lexemes

theorem placeless_arguments (text : String) (more : List String) : Placeless (argumentLexemes text more) := by
  induction more generalizing text with
  | nil => rfl
  | cons other more ih =>
    simp only [Placeless, argumentLexemes, List.map_cons] at ih ⊢
    rw [ih other]
    rfl

theorem Placeless.append {lexemes more : List (Lexeme Token)} (h : Placeless lexemes) (hmore : Placeless more) :
    Placeless (lexemes ++ more) := by
  rw [Placeless, List.map_append, h, hmore]

theorem Placeless.cons {lexeme : Lexeme Token} {more : List (Lexeme Token)} (h : lexeme.place nowhere = lexeme)
    (hmore : Placeless more) : Placeless (lexeme :: more) := by
  rw [Placeless, List.map_cons, h, hmore]

theorem placeless_gap (more : List Code) : Placeless (gap closing more) := by
  rw [gap]
  split <;> rfl

mutual

theorem placeless_code : ∀ code : Code, Placeless (code.lexemes closing)
  | .command _ argument more => .cons rfl (placeless_arguments argument more)
  | .whether _ body ending => .cons rfl (.cons rfl (.cons rfl ((placeless_lines body).append (placeless_rest ending))))
  | .unless _ body orelse =>
    .cons rfl (.cons rfl (.cons rfl ((placeless_lines body).append ((placeless_else orelse).append rfl))))
  | .loop _ _ body => .cons rfl (.cons rfl (.cons rfl ((placeless_lines body).append rfl)))
  | .branchModifier _ _ statement | .loopModifier _ _ statement => (placeless_code statement).append rfl

theorem placeless_rest : ∀ ending : Rest, Placeless (ending.lexemes closing)
  | .last orelse => (placeless_else orelse).append rfl
  | .further _ body more => .cons rfl (.cons rfl (.cons rfl ((placeless_lines body).append (placeless_rest more))))

theorem placeless_else : ∀ orelse : Option (List Code), Placeless (elseLexemes closing orelse)
  | none => rfl
  | some body => .cons rfl (.cons rfl (placeless_lines body))

theorem placeless_lines : ∀ body : List Code, Placeless (lines closing body)
  | [] => rfl
  | code :: more => (placeless_code code).append ((placeless_gap more).append (placeless_lines more))

end

end Formulary.Grammar

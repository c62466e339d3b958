import Formulary.Proofs.Tree.Rewrite
import Formulary.Token

/-! Tokens and trees whose positions are mapped. What has no position stays as it is. -/

namespace Formulary

mutual

def Token.place (f : Position → Position) : Token → Token
  | ⟨.string segments, pos, spaced⟩ => ⟨.string (placeSegments f segments), f pos, spaced⟩
  | ⟨.shell segments, pos, spaced⟩ => ⟨.shell (placeSegments f segments), f pos, spaced⟩
  | ⟨lexeme, pos, spaced⟩ => ⟨lexeme, f pos, spaced⟩

def placeSegments (f : Position → Position) : List (Segment Token) → List (Segment Token)
  | [] => []
  | segment :: rest => placeSegment f segment :: placeSegments f rest

def placeSegment (f : Position → Position) : Segment Token → Segment Token
  | .text value => .text value
  | .code tokens pos => .code (placeTokens f tokens) (f pos)

def placeTokens (f : Position → Position) : List Token → List Token
  | [] => []
  | token :: rest => token.place f :: placeTokens f rest

end

variable (f : Position → Position)

theorem placeTokens_eq (tokens : List Token) : placeTokens f tokens = tokens.map (Token.place f) := by
  induction tokens with
  | nil => rfl
  | cons token rest ih => rw [placeTokens, ih, List.map_cons]

theorem placeSegments_eq (segments : List (Segment Token)) :
    placeSegments f segments = segments.map (placeSegment f) := by
  induction segments with
  | nil => rfl
  | cons segment rest ih => rw [placeSegments, ih, List.map_cons]

def Lexeme.place : Lexeme Token → Lexeme Token
  | .string segments => .string (segments.map (placeSegment f))
  | .shell segments => .shell (segments.map (placeSegment f))
  | lexeme => lexeme

namespace Token

theorem place_eq (token : Token) : token.place f = ⟨token.lexeme.place f, f token.pos, token.spaced⟩ := by
  obtain ⟨lexeme, pos, spaced⟩ := token
  cases lexeme <;> simp only [place, Lexeme.place, placeSegments_eq]

@[simp]
theorem lexeme_place (token : Token) : (token.place f).lexeme = token.lexeme.place f := by
  rw [place_eq]

@[simp]
theorem pos_place (token : Token) : (token.place f).pos = f token.pos := by
  rw [place_eq]

@[simp]
theorem spaced_place (token : Token) : (token.place f).spaced = token.spaced := by
  rw [place_eq]

end Token

mutual

theorem Token.weight_place : ∀ token : Token, (token.place f).weight = token.weight
  | ⟨.string segments, _, _⟩ | ⟨.shell segments, _, _⟩ => by
    simp only [Token.place, Token.weight, segmentsWeight_place segments]
  | ⟨.integer _, _, _⟩ | ⟨.float _, _, _⟩ | ⟨.regexp _ _, _, _⟩ | ⟨.symbol _, _, _⟩ | ⟨.words _, _, _⟩
  | ⟨.symbols _, _, _⟩ | ⟨.label _, _, _⟩ | ⟨.identifier _, _, _⟩ | ⟨.constant _, _, _⟩ | ⟨.instanceVar _, _, _⟩
  | ⟨.globalVar _, _, _⟩ | ⟨.keyword _, _, _⟩ | ⟨.operator _, _, _⟩ | ⟨.arrow, _, _⟩ | ⟨.opening _, _, _⟩
  | ⟨.closing _, _, _⟩ | ⟨.comma, _, _⟩ | ⟨.dot, _, _⟩ | ⟨.safeDot, _, _⟩ | ⟨.doubleColon, _, _⟩
  | ⟨.question, _, _⟩ | ⟨.colon, _, _⟩ | ⟨.semicolon, _, _⟩ | ⟨.newline, _, _⟩ | ⟨.endOfText, _, _⟩ => rfl

theorem segmentsWeight_place : ∀ segments, segmentsWeight (placeSegments f segments) = segmentsWeight segments
  | [] => rfl
  | segment :: rest => by
    simp only [placeSegments, segmentsWeight, segmentWeight_place segment, segmentsWeight_place rest]

theorem segmentWeight_place : ∀ segment, segmentWeight (placeSegment f segment) = segmentWeight segment
  | .text _ => rfl
  | .code tokens _ => by simp only [placeSegment, segmentWeight, tokensWeight_place tokens]

theorem tokensWeight_place : ∀ tokens, tokensWeight (placeTokens f tokens) = tokensWeight tokens
  | [] => rfl
  | token :: rest => by
    simp only [placeTokens, tokensWeight, Token.weight_place token, tokensWeight_place rest]

end

variable {α : Type}

/-- A test of a token's form that does not look at positions. -/
def Blind (test : Lexeme Token → α) : Prop :=
  ∀ lexeme : Lexeme Token, test (lexeme.place f) = test lexeme

variable {f} in
theorem blind_of_strings {test : Lexeme Token → α}
    (string : ∀ segments, test (.string (segments.map (placeSegment f))) = test (.string segments))
    (shell : ∀ segments, test (.shell (segments.map (placeSegment f))) = test (.shell segments)) : Blind f test := by
  intro lexeme
  cases lexeme with
  | string segments => exact string segments
  | shell segments => exact shell segments
  | _ => rfl

/-- The map that forgets where things stand. -/
def nowhere (_ : Position) : Position :=
  .origin

abbrev unplaced : List Token → List Token :=
  List.map (Token.place nowhere)

theorem unplaced_singleton {lexeme lexeme' : Lexeme Token} (same : lexeme'.place nowhere = lexeme.place nowhere)
    (pos pos' : Position) (spaced : Bool) : unplaced [⟨lexeme', pos', spaced⟩] = unplaced [⟨lexeme, pos, spaced⟩] := by
  simp only [List.map_cons, List.map_nil, Token.place_eq, same, nowhere]

theorem unplaced_append (tokens others : List Token) :
    unplaced (tokens ++ others) = unplaced tokens ++ unplaced others :=
  List.map_append

/-! Trees -/

abbrev Node.place : Node → Node :=
  Node.rewrite { place := f }

abbrev Piece.place : Piece Node → Piece Node :=
  Piece.rewrite { place := f }

theorem Node.pos_place (node : Node) : (node.place f).pos = f node.pos :=
  node.pos_rewrite f id

end Formulary

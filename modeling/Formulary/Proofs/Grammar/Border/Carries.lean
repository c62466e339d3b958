import Formulary.Proofs.Grammar.Border.Nesting
import Formulary.Proofs.Grammar.Delimited

/-!
Two runs of a parser, side by side. Both read the same tokens up to a border, behind which the one finds a closing
parenthesis or the end of the text, and the other something else, such as the end of a statement. A parser carries over
the border if what it reads before it in the first run, it reads in the second one as well.
-/

namespace Formulary.Grammar

variable {α β : Type}

/-- What may stand behind a whole statement. -/
def closesStatement : Lexeme Token → Bool
  | .newline | .semicolon | .endOfText | .closing _ => true
  | .keyword word => ["else", "elsif", "end", "ensure", "when"].contains word
  | _ => false

/-- Two ways in which the tokens go on behind some others: with a closing parenthesis or not at all, or with other
tokens in front of another end of the text. -/
structure Border where
  here : List Token
  other : List Token
  final : Token
  closes : ∀ close ∈ here.head?, close.lexeme = .closing .round

/-- What the first run finds at the border. -/
inductive Rim : Lexeme Token → Prop
  | close : Rim (.closing .round)
  | ended : Rim .endOfText

/-- Whether a token before the end of a range may be the last one of it. -/
def opensRange (lexeme : Lexeme Token) : Bool :=
  lexeme.isOperator ".." || lexeme.isOperator "..."

namespace Border

variable (border : Border)

/-- The tokens of the first run, from some tokens before the border on. -/
def left (tokens : List Token) : List Token :=
  tokens ++ border.here

/-- The tokens of the second run, from some tokens before the border on. -/
def right (tokens : List Token) : List Token :=
  tokens ++ border.other

/-- Whether a statement may end at the border in the second run. -/
def endsStatement : Bool :=
  closesStatement (border.other.headD border.final).lexeme

/-- Whether a range that is open at the border ends there in the second run, too. -/
def endsRange : Bool :=
  Grammar.endsRange (border.other.headD border.final).lexeme

/-- The first run stands before the border, with some tokens left up to it. -/
structure Before (tokens : List Token) (state : State) : Prop where
  ahead : state.ahead = border.left tokens
  ended : state.final.lexeme = .endOfText

end Border

/-- A state that was reached by reading tokens. -/
structure Behind (state after : State) : Prop where
  fewer : after.ahead <:+ state.ahead
  final : after.final = state.final
  barred : after.barred = state.barred

/-- A sign that stands alone before the border. Whether it begins an argument depends on what is behind it. -/
def Dangling (tokens : List Token) : Prop :=
  ∃ sign, tokens = [sign] ∧ bindsArgument sign.lexeme = true

/-- The tokens that may be left before the border, which are none only where all of them may be read and a statement may
end. -/
structure Allowed (border : Border) (full : Bool) (tokens : List Token) : Prop where
  full_of_nil : tokens = [] → full = true
  ends_of_nil : tokens = [] → border.endsStatement = true
  not_dangling : ¬Dangling tokens

/-- Two states before the border, which differ in what is behind it. Unless they are tied, they may also differ in who
waits for a `do`, as long as none stands outside nested brackets. -/
structure Alike (border : Border) (tied : Bool) (start : Nest) (tokens : List Token) (state twin : State) : Prop where
  left : border.Before tokens state
  right : twin.ahead = border.right tokens
  final : twin.final = border.final
  scopes : twin.scopes = state.scopes
  barred : tied = true → twin.barred = state.barred
  shelters : tied = false → start.shelters tokens = true
  range : border.endsRange = true ∨ ∀ token ∈ tokens.getLast?, opensRange token.lexeme = false

/-- The parser reads a value, and leaves some tokens before the border of the second run. -/
def Mirrors (border : Border) (p : Parser α) (twin : State) (value : α) (tokens : List Token) (after : State) : Prop :=
  ∃ after', p.run twin = .ok (value, after') ∧ after'.ahead = border.right tokens ∧ after'.scopes = after.scopes

/-- How far a parser carries: up to some tokens before the border, up to the border, or up to the border with at least
one token read. -/
inductive Reach where
  | inner
  | whole
  | firm
deriving DecidableEq

def Reach.full : Reach → Bool
  | .inner => false
  | .whole | .firm => true

/-- Whether a token cannot be the last one that is read before the border: a sign, and a separator if all tokens may be
read. -/
def Reach.strands (reach : Reach) (lexeme : Lexeme Token) : Bool :=
  bindsArgument lexeme || lexeme.isSeparator && reach.full

/-- What a parser does that begins with a given token. It leads from one nest to another, and it never stops at the
border right behind a sign, nor right behind a separator. -/
structure CarriesAt (border : Border) (tied : Bool) (token : Token) (start finish : Nest) (reach : Reach)
    (p : Parser α) : Prop where
  steady {state after : State} {value : α} : state.next = token → p.run state = .ok (value, after) → Behind state after
  spans {state after : State} {value : α} {more rest : List Token} : state.ahead = border.left (token :: more) →
    p.run state = .ok (value, after) → after.ahead = border.left rest → rest ≠ [] →
      ∃ used, token :: more = used ++ rest ∧ Spans start used finish
  alone {state after : State} {value : α} {more : List Token} :
    (∀ last ∈ (token :: more).getLast?, reach.strands last.lexeme = true) → border.Before (token :: more) state →
      p.run state = .ok (value, after) → after.ahead ≠ border.left []
  carries {state twin after : State} {value : α} {more rest : List Token} :
    Alike border tied start (token :: more) state twin → p.run state = .ok (value, after) →
      after.ahead = border.left rest → Allowed border reach.full rest → Mirrors border p twin value rest after

/-- A parser that does the same at the border itself, if it reads nothing there and a statement may end. -/
def Rests (border : Border) (p : Parser α) : Prop :=
  ∀ ⦃state twin after value⦄, border.endsStatement = true → border.Before [] state → twin.ahead = border.right [] →
    twin.final = border.final → twin.scopes = state.scopes → p.run state = .ok (value, after) →
      after.ahead = border.left [] → Mirrors border p twin value [] after

/-- A parser that never reads nothing at the border. -/
def Eager (border : Border) (p : Parser α) : Prop :=
  ∀ ⦃state after value⦄, border.Before [] state → p.run state = .ok (value, after) → after.ahead ≠ border.left []

def Reach.Fits (border : Border) (p : Parser α) : Reach → Prop
  | .inner => True
  | .whole => Rests border p
  | .firm => Eager border p

/-- A parser that carries over the border, whatever token it begins with. -/
structure Carries (border : Border) (tied : Bool) (reach : Reach) (start finish : Nest) (p : Parser α) : Prop where
  at_token (token : Token) : CarriesAt border tied token start finish reach p
  fits : reach.Fits border p

/-! States -/

theorem Behind.refl (state : State) : Behind state state :=
  ⟨List.suffix_refl _, rfl, rfl⟩

theorem Behind.trans {state mid after : State} (h : Behind state mid) (h' : Behind mid after) : Behind state after :=
  ⟨h'.fewer.trans h.fewer, h'.final.trans h.final, h'.barred.trans h.barred⟩

namespace Border

variable {border : Border} {tokens rest : List Token} {state : State} {token : Token}

theorem left_injective (border : Border) : Function.Injective border.left :=
  fun _ _ => List.append_cancel_right

/-- Between two lists of tokens before the border there are only others before the border. -/
theorem between {middle : List Token} (fewer : middle <:+ border.left tokens) (more : border.left rest <:+ middle) :
    ∃ found, middle = border.left found ∧ rest <:+ found ∧ found <:+ tokens := by
  obtain ⟨used, first⟩ := fewer
  obtain ⟨used', second⟩ := more
  refine ⟨used' ++ rest, ?_, List.suffix_append _ _, used, ?_⟩
  · rw [left, List.append_assoc]
    exact second.symm
  · apply border.left_injective
    rw [← first, ← second, left, left, List.append_assoc, List.append_assoc]

theorem next_of_left (h : state.ahead = border.left (token :: tokens)) : state.next = token := by
  rw [State.next, h]
  rfl

theorem next_of_right (h : state.ahead = border.right (token :: tokens)) : state.next = token := by
  rw [State.next, h]
  rfl

theorem rim_of_left_nil (h : border.Before [] state) : Rim state.next.lexeme := by
  rw [State.next, h.ahead, left, List.nil_append]
  cases here : border.here with
  | nil =>
    rw [List.headD_nil, h.ended]
    exact .ended
  | cons close rest =>
    rw [List.headD_cons, border.closes close (by rw [here]; rfl)]
    exact .close

theorem next_of_right_nil (h : state.ahead = border.right []) (final : state.final = border.final) :
    state.next = border.other.headD border.final := by
  rw [State.next, h, final]
  rfl

end Border

theorem Dangling.of_suffix {tokens rest : List Token} (h : Dangling tokens) (fewer : rest <:+ tokens)
    (some : rest ≠ []) : Dangling rest := by
  obtain ⟨sign, rfl, binds⟩ := h
  obtain same | none := List.suffix_cons_iff.1 fewer
  · exact ⟨sign, same, binds⟩
  · exact absurd (List.suffix_nil.1 none) some

theorem Allowed.mono {border : Border} {full full' : Bool} {tokens : List Token} (h : Allowed border full tokens)
    (le : full = true → full' = true) : Allowed border full' tokens :=
  ⟨fun nil => le (h.full_of_nil nil), h.ends_of_nil, h.not_dangling⟩

theorem Border.Before.behind {border : Border} {tokens rest : List Token} {state after : State}
    (h : border.Before tokens state) (behind : Behind state after) (left : after.ahead = border.left rest) :
    border.Before rest after :=
  ⟨left, behind.final ▸ h.ended⟩

section Alike

variable {border : Border} {tied : Bool} {start mid finish : Nest} {used rest : List Token}
  {state twin mid' twin' : State}

theorem getLast?_of_suffix {tokens : List Token} (fewer : rest <:+ tokens) (some : rest ≠ []) :
    tokens.getLast? = rest.getLast? := by
  obtain ⟨used, rfl⟩ := fewer
  rw [List.getLast?_append, List.getLast?_eq_some_getLast some, Option.some_or]

theorem Alike.behind (h : Alike border tied start (used ++ rest) state twin) (spans : Spans start used mid)
    (left : Behind state mid') (left' : mid'.ahead = border.left rest) (right : Behind twin twin')
    (right' : twin'.ahead = border.right rest) (scopes : twin'.scopes = mid'.scopes) :
    Alike border tied mid rest mid' twin' where
  left := h.left.behind left left'
  right := right'
  final := right.final.trans h.final
  scopes := scopes
  barred same := by rw [right.barred, left.barred, h.barred same]
  shelters differ := Nest.shelters_of_across (h.shelters differ) spans.across
  range := by
    refine h.range.imp_right fun closed => ?_
    by_cases none : rest = []
    · rw [none]
      exact fun token mem => nomatch mem
    · rwa [← getLast?_of_suffix (List.suffix_append used rest) none]

end Alike

end Formulary.Grammar

import Formulary.Proofs.Grammar.Parses
import Formulary.Proofs.Grammar.Worded
import Formulary.Proofs.Lowering.Losses

/-!
The parts of strings, from their tokens to what they are lowered to. A run of literals is one string, which has the
pieces of all of them in normal form; all strings of a tree are in normal form, and what is left of one when it is
lowered has no empty text at all.
-/

namespace Formulary

open Result

/-! Runs of literals -/

namespace Grammar

open Filter (Eventually atTop)

/-- Whether a token is a literal that belongs to the string before it. -/
def adjoins (token : Token) : Bool :=
  token.spaced && match token.lexeme with
    | .string _ => true
    | _ => false

variable {state mid after : State} {segments : List (Segment Token)} {node : Node} {found : List (Piece Node)}
  {lists : List (List (Piece Node))}

/-- The pieces of a literal by itself. -/
def ReadsPieces (segments : List (Segment Token)) (state : State) (found : List (Piece Node)) (after : State) : Prop :=
  ∃ fuel, (pieces (rule fuel) segments).run state = .ok (found, after)

theorem ReadsPieces.eventually (h : ReadsPieces segments state found after) :
    ∀ᶠ fuel in atTop, (pieces (rule fuel) segments).run state = .ok (found, after) := by
  obtain ⟨bound, run⟩ := h
  refine Filter.eventually_atTop.2 ⟨bound, fun fuel le => ?_⟩
  have refines : RefinesRules (rule bound) (rule fuel) := refines_rule le
  have held : refinement.Held segments := fun _ _ _ => trivial
  exact Lifting.lifted_pieces refines.lifted held run

/-- The literals that belong to a string before them, each with the pieces that it has by itself. -/
inductive Adjacent : State → List (List (Piece Node)) → State → Prop
  | done {state : State} : adjoins state.next = false → Adjacent state [] state
  | next {state mid after : State} {segments : List (Segment Token)} {found : List (Piece Node)}
      {lists : List (List (Piece Node))} : state.next.spaced = true → state.next.lexeme = .string segments →
      ReadsPieces segments (state.on state.ahead.tail) found mid → Adjacent mid lists after →
      Adjacent state (found :: lists) after

theorem run_adjacent_of_not {parse : Rules} (h : adjoins state.next = false) :
    (adjacent parse).run state = .ok ([], state) := by
  rw [adjacent, run_bind_of_ok (run_peek state)]
  rw [adjoins] at h
  split
  · rename_i segments string
    rw [string, Bool.and_true] at h
    rw [h, if_neg Bool.false_ne_true]
    rfl
  · rfl

theorem run_adjacent {parse : Rules} (spaced : state.next.spaced = true)
    (string : state.next.lexeme = .string segments) : (adjacent parse).run state = (do
      let first ← pieces parse segments
      return first ++ (← parse .adjacent) : Parser (List (Piece Node))).run (state.on state.ahead.tail) := by
  rw [adjacent, run_bind_of_ok (run_peek state), string]
  dsimp only
  rw [if_pos spaced, run_bind_of_ok (run_discard_advance state)]

theorem parses_adjacent_iff : Parses .adjacent state found after ↔
    ∃ lists, Adjacent state lists after ∧ found = lists.flatten := by
  constructor
  · rintro ⟨fuel, run⟩
    induction fuel generalizing state found with
    | zero => cases run
    | succ fuel ih =>
      change (adjacent (rule fuel)).run state = _ at run
      by_cases adjoining : adjoins state.next = false
      · rw [run_adjacent_of_not adjoining] at run
        obtain ⟨rfl, rfl⟩ := Prod.mk.inj (Except.ok.inj run)
        exact ⟨[], .done adjoining, rfl⟩
      · obtain ⟨spaced, segments, string⟩ :
            state.next.spaced = true ∧ ∃ segments, state.next.lexeme = .string segments := by
          rw [adjoins] at adjoining
          split at adjoining <;> simp_all
        rw [run_adjacent spaced string] at run
        obtain ⟨first, mid, here, there⟩ := run_bind_eq_ok_iff.1 run
        obtain ⟨others, last, rest, same⟩ := run_bind_eq_ok_iff.1 there
        obtain ⟨rfl, rfl⟩ := Prod.mk.inj (Except.ok.inj same)
        obtain ⟨lists, adjacent, rfl⟩ := ih rest
        exact ⟨first :: lists, .next spaced string ⟨fuel, here⟩ adjacent, rfl⟩
  · rintro ⟨lists, adjacent, rfl⟩
    apply Parses.of_step
    induction adjacent with
    | done none => exact .of_forall fun fuel => run_adjacent_of_not none
    | next spaced string first _ ih =>
      filter_upwards [first.eventually, (Parses.of_step ih).eventually] with fuel here rest
      change (Grammar.adjacent (rule fuel)).run _ = _
      rw [run_adjacent spaced string, run_bind_of_ok here, run_bind_of_ok rest]
      rfl

/-- A run of literals is one string, of the pieces of all of them. -/
theorem primary_string_iff (string : state.next.lexeme = .string segments) :
    (∃ fuel, (primary (rule fuel)).run state = .ok (node, after)) ↔ ∃ first mid lists,
      ReadsPieces segments (state.on state.ahead.tail) first mid ∧ Adjacent mid lists after ∧
        node = .string state.next.pos (normalPieces (first :: lists).flatten) := by
  have whole (fuel : Nat) : (primary (rule fuel)).run state =
      (stringLiteral (rule fuel) state.next.pos segments).run (state.on state.ahead.tail) := by
    rw [primary, run_bind_of_ok (run_peek state)]
    dsimp only
    rw [string]
    exact run_bind_of_ok (run_discard_advance state) _
  constructor
  · rintro ⟨fuel, run⟩
    rw [whole] at run
    obtain ⟨first, mid, here, there⟩ := run_bind_eq_ok_iff.1 run
    obtain ⟨others, last, rest, same⟩ := run_bind_eq_ok_iff.1 there
    obtain ⟨rfl, rfl⟩ := Prod.mk.inj (Except.ok.inj same)
    obtain ⟨lists, adjacent, rfl⟩ := parses_adjacent_iff.1 ⟨fuel, rest⟩
    exact ⟨first, mid, lists, ⟨fuel, here⟩, adjacent, rfl⟩
  · rintro ⟨first, mid, lists, here, adjacent, rfl⟩
    have rest := parses_adjacent_iff.2 ⟨lists, adjacent, rfl⟩
    obtain ⟨fuel, here, rest⟩ := (here.eventually.and rest.eventually).exists
    refine ⟨fuel, ?_⟩
    rw [whole, stringLiteral, run_bind_of_ok here, run_bind_of_ok rest]
    rfl

end Grammar

/-! Lowering -/

def Part.text? {ε : Type} : Part ε → Option String
  | text value => some value
  | embed _ => none

/-- What a piece of a string is lowered to. -/
inductive Piece.Lowers (within : Option Enclosing) : Piece Node → Part Expression → Prop
  | text (value : String) : Lowers within (.text value) (.text value)
  | code {pos : Position} {body : List Node} {expr : Expression} : Lowering.embedded within pos body = .ok expr →
      Lowers within (.code pos body) (.embed expr)

namespace Lowering

variable {within : Option Enclosing} {pieces : List (Piece Node)} {found : List (Part Expression)}

/-- Each piece of a string but the empty ones is lowered by itself, in order. -/
theorem lowers_of_parts (h : parts within pieces = .ok found) :
    List.Forall₂ (Piece.Lowers within) (pieces.filter (!·.isEmpty)) found := by
  induction pieces generalizing found with
  | nil => exact Except.ok.inj h ▸ .nil
  | cons piece rest ih =>
    cases piece with
    | text value =>
      rw [parts] at h
      split at h
      · rename_i empty
        rw [List.filter_cons_of_neg (by simpa [Piece.isEmpty] using empty)]
        exact ih h
      · rename_i filled
        obtain ⟨more, lowered, h⟩ := bind_eq_ok_iff.1 h
        obtain rfl := pure_eq_ok_iff.1 h
        rw [List.filter_cons_of_pos (by simpa [Piece.isEmpty] using filled)]
        exact .cons (.text value) (ih lowered)
    | code pos body =>
      rw [parts] at h
      obtain ⟨expr, inner, h⟩ := bind_eq_ok_iff.1 h
      obtain ⟨more, lowered, h⟩ := bind_eq_ok_iff.1 h
      obtain rfl := pure_eq_ok_iff.1 h
      exact .cons (.code inner) (ih lowered)

theorem map_text?_of_lowers {pieces : List (Piece Node)} (h : List.Forall₂ (Piece.Lowers within) pieces found) :
    found.map Part.text? = pieces.map Piece.text? := by
  induction h with
  | nil => rfl
  | cons first _ ih =>
    rw [List.map_cons, List.map_cons, ih]
    cases first <;> rfl

/-- Of a string in normal form no empty text is left, and no two texts come to stand side by side. -/
theorem joined_of_parts (normal : Grammar.NormalTexts (pieces.map Piece.text?)) (h : parts within pieces = .ok found) :
    Grammar.Joined (found.map Part.text?) := by
  have lowers := lowers_of_parts h
  obtain joined | rfl := normal.joined_or
  · have kept : pieces.filter (!·.isEmpty) = pieces := by
      refine List.filter_eq_self.2 fun piece mem => ?_
      cases piece with
      | code _ _ => rfl
      | text value =>
        have filled : value ≠ "" := fun empty => joined.filled (List.mem_map.2 ⟨_, mem, by rw [empty]; rfl⟩)
        simpa [Piece.isEmpty] using filled
    rw [kept] at lowers
    exact map_text?_of_lowers lowers ▸ joined
  · obtain rfl : found = [] := Except.ok.inj h.symm
    exact ⟨.nil, List.not_mem_nil⟩

/-- A string is lowered from a string, which may stand in parentheses. -/
theorem exists_string_of_yields : ∀ {node : Node} {expr : Expression}, Yields node expr →
    ∀ {parts : List (Part Expression)}, expr = .string parts →
      ∃ pos pieces, node.Within (.string pos pieces) ∧ YieldsParts pieces parts
  | _, _, @Yields.string pos pieces _ h, _, same => ⟨pos, pieces, .whole, Expression.string.inj same ▸ h⟩
  | _, _, .paren h, _, same => by
    obtain ⟨pos, pieces, within, lowered⟩ := exists_string_of_yields h same
    exact ⟨pos, pieces, .trans (.child .whole List.mem_cons_self) within, lowered⟩

end Lowering

open Grammar in
/-- The parts of strings are in normal form, from a tree that was read to what becomes of it. -/
theorem string_parts_normal {text : List Char} {program : Node} (read : parseRecipe text = .ok program) :
    (∀ pos pieces, program.Within (.string pos pieces) → NormalTexts (pieces.map Piece.text?) ∧
      ∀ within expr, Lowering.expression within (.string pos pieces) = .ok expr → ∃ parts, expr = .string parts ∧
        Joined (parts.map Part.text?) ∧ List.Forall₂ (Piece.Lowers within) (pieces.filter (!·.isEmpty)) parts) ∧
    (∀ node within parts, program.Within node → Lowering.expression within node = .ok (.string parts) →
      ∃ pos pieces, program.Within (.string pos pieces) ∧
        Lowering.expression within (.string pos pieces) = .ok (.string parts)) ∧
    (∀ state segments node after, state.next.lexeme = .string segments →
      ((∃ fuel, (primary (rule fuel)).run state = .ok (node, after)) ↔ ∃ first mid lists,
        ReadsPieces segments (state.on state.ahead.tail) first mid ∧ Adjacent mid lists after ∧
          node = .string state.next.pos (normalPieces (first :: lists).flatten))) ∧
    (∀ pieces others, others = normalPieces pieces ↔ NormalTexts (others.map Piece.text?) ∧
      others.flatMap Piece.letters = pieces.flatMap Piece.letters ∧ (others = [] ↔ pieces = [])) ∧
    ∀ groups : List (List (Piece Node)),
      normalPieces (groups.map normalPieces).flatten = normalPieces groups.flatten := by
  have normal (pos : Position) (pieces : List (Piece Node)) (inside : program.Within (.string pos pieces)) :
      NormalTexts (pieces.map Piece.text?) :=
    (named_of_parseRecipe read |>.within inside).here
  refine ⟨fun pos pieces inside => ⟨normal pos pieces inside, fun within expr lowered => ?_⟩,
    fun node within parts inside lowered => ?_, fun _ _ _ _ => primary_string_iff, fun _ _ => eq_normalPieces_iff,
    normalPieces_groups⟩
  · rw [Lowering.expression] at lowered
    obtain ⟨parts, lowers, same⟩ := bind_eq_ok_iff.1 lowered
    obtain rfl := pure_eq_ok_iff.1 same
    exact ⟨parts, rfl, Lowering.joined_of_parts (normal pos pieces inside) lowers, Lowering.lowers_of_parts lowers⟩
  · have yields := Lowering.expression_eq_ok_iff.1 lowered
    obtain ⟨pos, pieces, among, yields⟩ := Lowering.exists_string_of_yields yields rfl
    exact ⟨pos, pieces, inside.trans among, Lowering.expression_eq_ok_iff.2 (.string yields)⟩

/-- The texts of a string that is a recipe by itself. -/
def Node.soleTexts? : Node → Option (List (Option String))
  | .program _ [.string _ pieces] => some (pieces.map Piece.text?)
  | _ => none

theorem exists_of_soleTexts? {program : Node} {texts : List (Option String)} (h : program.soleTexts? = some texts) :
    ∃ pos pieces, program.Within (.string pos pieces) ∧ pieces.map Piece.text? = texts := by
  unfold Node.soleTexts? at h
  split at h
  · exact ⟨_, _, .child .whole List.mem_cons_self, Option.some.inj h⟩
  · cases h

/-- A run of four literals, two of which are empty. -/
theorem string_parts_normal_run : ∃ program pos pieces, parseRecipe "'a' '' \"b#\x7bc\x7d\" ''".toList = .ok program ∧
    program.Within (.string pos pieces) ∧ pieces.map Piece.text? = [some "ab", none] ∧
      Grammar.NormalTexts (pieces.map Piece.text?) := by
  have found : (parseRecipe "'a' '' \"b#\x7bc\x7d\" ''".toList).toOption.bind Node.soleTexts? =
      some [some "ab", none] := by decide +kernel
  obtain ⟨program, read, texts⟩ := Option.bind_eq_some_iff.1 found
  obtain ⟨pos, pieces, inside, same⟩ := exists_of_soleTexts? texts
  have read := toOption_eq_some_iff.1 read
  exact ⟨program, pos, pieces, read, inside, same, ((string_parts_normal read).1 pos pieces inside).1⟩

end Formulary

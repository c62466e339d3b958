import Formulary.Proofs.Grammar.Program
import Formulary.Proofs.Token.Exposure
import Formulary.Proofs.Token.Layout

/-!
A line's end can be laid out anew without a change to the tree of a recipe. Both texts are scanned side by side
up to the line's end; from the next code on they are the same text again.
-/

namespace Formulary

open Body Gap Result Scan Seam

/-- A line's end laid out anew: blanks before it, or blanks and a comment; lines without code behind it; another
margin in front of what comes next. Behind the last code a comment may end the text. -/
structure Relayout where
  blanks : List Char
  remark : List Char
  lines : List Char
  margin : List Char
  margin' : List Char
  final : List Char
  code : List Char
  blank : Blanks blanks
  comment : Remark remark
  apart : remark = [] ∨ blanks ≠ []
  empty : EmptyLines lines
  marginal : Blanks margin
  marginal' : Blanks margin'
  kept : margin' = margin ∨ startsWith code "=begin" = false ∧ atDataMark code = false
  finalComment : Remark final
  ends : final = [] ∨ code = []

namespace Relayout

variable (relayout : Relayout)

/-- The text from the line's end on. -/
def old : List Char :=
  '\n' :: (relayout.margin ++ relayout.code)

/-- What follows the new line's end. -/
def behind : List Char :=
  relayout.lines ++ (relayout.margin' ++ (relayout.final ++ relayout.code))

/-- The text in its place. -/
def new : List Char :=
  relayout.blanks ++ (relayout.remark ++ '\n' :: relayout.behind)

theorem line_notMem : '\n' ∉ relayout.blanks ++ relayout.remark := by
  rw [List.mem_append, not_or]
  exact ⟨relayout.blank.line_notMem, relayout.comment.line_notMem⟩

theorem afterLayout_final : afterLayout false (relayout.final ++ relayout.code) = afterLayout false relayout.code := by
  obtain none | ⟨more, some, inline⟩ := relayout.finalComment
  · rw [none, List.nil_append]
  · have ends : relayout.code = [] := relayout.ends.resolve_left (by simp [some])
    rw [some, ends, List.append_nil]
    exact afterLayout_comment_end inline

theorem afterLayout_behind :
    afterLayout false relayout.behind = afterLayout false (relayout.margin ++ relayout.code) := by
  rw [behind, afterLayout_lines relayout.empty, afterLayout_blanks relayout.marginal',
    afterLayout_blanks relayout.marginal, relayout.afterLayout_final]

theorem exchange : Exchange relayout.old relayout.new where
  line := by
    rintro c ⟨⟩
    rfl
  soft' := by
    intro c head
    rw [new] at head
    cases spelled : relayout.blanks with
    | nil =>
      rw [relayout.apart.resolve_right fun some => some spelled, spelled] at head
      obtain rfl : '\n' = c := by simpa using head
      exact .inr rfl
    | cons d more =>
      rw [spelled] at head
      obtain rfl : d = c := by simpa using head
      exact .inl (relayout.blank d (spelled ▸ List.mem_cons_self))
  both := by simp [old, new]
  layout := by
    intro inComment
    cases inComment with
    | true =>
      rw [new, ← List.append_assoc, afterLayout_comment relayout.line_notMem, relayout.afterLayout_behind]
      rfl
    | false =>
      rw [new, afterLayout_blanks relayout.blank, afterLayout_remark relayout.comment, relayout.afterLayout_behind]
      rfl

/-- From the line's end on both scans come to the next code with the same behind them. -/
theorem reaches_code {code code' : Reader} {state state' : State} (front : state.cursor.rest = relayout.old)
    (front' : state'.cursor.rest = relayout.new ∨ state'.cursor.rest = relayout.new.dropWhile (· ≠ '\n'))
    (idle : state.pending = []) (idle' : state'.pending = [])
    (last : Akin state.last state'.last) :
    ∃ tokens tokens' next next', Reaches code state tokens [] next ∧ Reaches code' state' tokens' [] next' ∧
      unplaced tokens' = unplaced tokens ∧ Twin [] [] relayout.code next next' := by
  obtain ⟨ended, toEnd⟩ : ∃ ended, Passes code' state' ended ('\n' :: relayout.behind) := by
    obtain front' | front' := front'
    · obtain ⟨inner, toRemark, -⟩ := passes_blanks code' relayout.blank front'
      obtain ⟨ended, toEnd, -⟩ := passes_remark code' relayout.comment toRemark.rest (by simp)
      exact ⟨ended, toRemark.trans toEnd⟩
    · refine ⟨state', passes_refl ?_⟩
      rw [front', new, ← List.append_assoc, List.dropWhile_append_of_pos fun c mem => ?_]
      · rfl
      · have : c ≠ '\n' := by
          rintro rfl
          exact relayout.line_notMem mem
        simpa using this
  obtain ⟨tokens, tokens', next, next', reaches, reaches', same, lined, lined', last'⟩ :=
    newline_alike code code' front toEnd.rest idle (toEnd.pending.trans idle')
      (by rwa [toEnd.last]) relayout.afterLayout_behind
  obtain ⟨edge, toCode, fresh⟩ := passes_blanks code relayout.marginal lined.rest
  obtain ⟨inner', passLines, lined''⟩ := passes_lines code' relayout.empty lined'
  obtain ⟨edge', toFinal, fresh'⟩ := passes_blanks code' relayout.marginal' lined''.rest
  have line (some : relayout.final ≠ []) : ∀ c ∈ relayout.code.head?, c = '\n' := by
    rw [relayout.ends.resolve_left some]
    nofun
  obtain ⟨final, toCode', stays⟩ := passes_remark code' relayout.finalComment toFinal.rest line
  have passed := (passLines.trans toFinal).trans toCode'
  refine ⟨tokens ++ [], tokens' ++ [], edge, final, reaches.trans toCode.reaches,
    (toEnd.reaches.trans reaches').trans passed.reaches, ?_, ?_⟩
  · rw [List.append_nil, List.append_nil, same]
  · refine ⟨by rw [toCode.rest, List.append_nil], by rw [passed.rest, List.append_nil], ?_, ?_, ?_, ?_⟩
    · rw [toCode.rest]
      obtain none | none := relayout.ends
      · rw [stays none, fresh, fresh', lined.fresh, lined''.fresh]
        exact relayout.kept.imp_left fun same => by rw [same]
      · rw [none]
        exact .inr ⟨rfl, rfl⟩
    · rw [toCode.spaced lined.spaced, passed.spaced lined'.spaced]
    · rw [toCode.last, passed.last]
      exact last'
    · rw [toCode.pending, lined.pending, passed.pending, lined'.pending]

variable {before : List Char}

/-- No carriage return comes right behind a sign that it turns into the opening of a literal. -/
def Harmless (before : List Char) : Prop :=
  relayout.new.head? = some '\r' → ¬ExposedAt (before ++ relayout.old) relayout.old

/-- The tokens of a text in which a line's end is laid out anew are the same but for positions. -/
theorem tokenize_new (idles : Idles (before ++ relayout.old) relayout.old)
    (harmless : relayout.Harmless before) :
    (tokenize (before ++ relayout.new) .origin).toOption.map unplaced =
      (tokenize (before ++ relayout.old) .origin).toOption.map unplaced := by
  obtain ⟨state, ⟨tokens, bodies, reached⟩, front, idle⟩ := idles
  have long : before.length ≤ (before ++ relayout.new).length := by
    rw [List.length_append]
    exact Nat.le_add_right _ _
  have start : Twin relayout.old relayout.new before (.ofText (before ++ relayout.old) .origin)
      (.ofText (before ++ relayout.new) .origin) := ⟨rfl, rfl, .inl rfl, rfl, .refl none, rfl⟩
  obtain ⟨tokens', bodies', state', rest', reached', sameTokens, sameBodies, twin, parted⟩ :=
    reached.twin (refines_tokensWithin before.length _ _ long) relayout.exchange start (Nat.le_refl _)
      (show state.cursor.rest = [] ++ relayout.old from front) fun back earlier text visits at' _ exposed =>
        harmless back ⟨earlier, text, visits, at', exposed⟩
  obtain ⟨more, more', next, next', reaches, reaches', sameMore, twin'⟩ :=
    relayout.reaches_code front (parted.imp (fun same => by rw [twin.front', same]; rfl)
      fun same => by rw [twin.front', same.2]; rfl) idle (by simpa [idle] using twin.pending) twin.last
  have along := reached.trans reaches
  have along' := reached'.trans reaches'
  have found : unplaced (tokens' ++ more') = unplaced (tokens ++ more) := by
    rw [unplaced_append, unplaced_append, sameTokens, sameMore]
  have filled : (bodies' ++ []).map unplacedSegments = (bodies ++ []).map unplacedSegments := by
    rw [List.append_nil, List.append_nil, sameBodies]
  refine toOption_map_eq (fun all read => ?_) fun all read => ?_
  · exact tokensWithin_of_twin .origin along along' found filled twin' (by simp [new, behind]; omega) read
  · exact tokensWithin_of_twin .origin along' along found.symm filled.symm twin'.symm (by simp [old]; omega) read

/-- Behind a sign that opens a literal then, a carriage return changes the tokens. -/
theorem unplaced_ne_of_not_harmless (idles : Idles (before ++ relayout.old) relayout.old)
    (harmful : ¬relayout.Harmless before) {tokens tokens' : List Token}
    (read : tokenize (before ++ relayout.old) .origin = .ok tokens)
    (read' : tokenize (before ++ relayout.new) .origin = .ok tokens') : unplaced tokens' ≠ unplaced tokens := by
  unfold Harmless at harmful
  obtain ⟨back, exposed⟩ := Classical.not_imp.1 harmful
  obtain ⟨more, spelled⟩ := List.head?_eq_some_iff.1 back
  have exchange := relayout.exchange
  rw [spelled] at exchange read'
  exact unplaced_ne_of_exposedAt exchange idles (Classical.not_not.1 exposed) read read'

/-- A line's end laid out anew does not change the tree of a recipe, and a text that has no tree still has none.
The only layout that does harm changes the tokens. -/
theorem parseRecipe_new (idles : Idles (before ++ relayout.old) relayout.old) :
    (relayout.Harmless before → (parseRecipe (before ++ relayout.new)).toOption.map (Node.place nowhere) =
      (parseRecipe (before ++ relayout.old)).toOption.map (Node.place nowhere)) ∧
    (¬relayout.Harmless before → ∀ tokens tokens', tokenize (before ++ relayout.old) .origin = .ok tokens →
      tokenize (before ++ relayout.new) .origin = .ok tokens' → unplaced tokens' ≠ unplaced tokens) := by
  refine ⟨fun harmless => ?_, fun harmful _ _ => relayout.unplaced_ne_of_not_harmless idles harmful⟩
  rw [parseRecipe_unplaced, parseRecipe_unplaced, relayout.tokenize_new idles harmless]

/-- A comment, empty lines and a margin in front of a call carried on by a dot. -/
def chained : Relayout where
  blanks := [' ']
  remark := ['#', 'a']
  lines := ['\n', '\t', '#', '\r', '\n']
  margin := []
  margin' := [' ', ' ']
  final := []
  code := ['.', 'b']
  blank := by decide
  comment := .inr ⟨['a'], rfl, by decide⟩
  apart := .inr (by decide)
  empty := @EmptyLines.cons [] [] ['\t', '#', '\r', '\n'] (by decide) (.inl rfl)
    (@EmptyLines.cons ['\t'] ['#', '\r'] [] (by decide) (.inr ⟨['\r'], rfl, by decide⟩) .nil)
  marginal := by decide
  marginal' := by decide
  kept := .inr (by decide)
  finalComment := .inl rfl
  ends := .inl rfl

theorem parseRecipe_new_chained : (parseRecipe ['x', '\n', '.', 'b']).toOption.isSome = true ∧
    (parseRecipe (['x', ' ', '#', 'a', '\n', '\n', '\t', '#', '\r', '\n', ' ', ' ', '.', 'b'])).toOption.map
      (Node.place nowhere) = (parseRecipe ['x', '\n', '.', 'b']).toOption.map (Node.place nowhere) :=
  ⟨by decide +kernel,
    (@parseRecipe_new chained ['x'] (idles_of_advance 1 (by decide +kernel))).1 fun back => absurd back (by decide)⟩

/-- A carriage return at the end of a line. -/
def returned : Relayout where
  blanks := ['\r']
  remark := []
  lines := []
  margin := []
  margin' := []
  final := []
  code := ['2']
  blank := by decide
  comment := .inl rfl
  apart := .inl rfl
  empty := .nil
  marginal := by decide
  marginal' := by decide
  kept := .inl rfl
  finalComment := .inl rfl
  ends := .inl rfl

/-- A division whose line ends with its sign is one no more if a carriage return follows the sign. -/
theorem exists_parseRecipe_new_ne : ∃ (relayout : Relayout) (before : List Char),
    Idles (before ++ relayout.old) relayout.old ∧
      (parseRecipe (before ++ relayout.new)).toOption.map (Node.place nowhere) ≠
        (parseRecipe (before ++ relayout.old)).toOption.map (Node.place nowhere) := by
  refine ⟨returned, ['a', ' ', '/'], idles_of_advance 3 (by decide +kernel), fun same => ?_⟩
  have both := congrArg Option.isSome same
  revert both
  decide +kernel

end Relayout

end Formulary

import Formulary.Grammar.Literal
import Formulary.Proofs.Scope.Reading

/-! Strings and hashes. Code in a string goes on with the scopes around the string, and leaves its names there. -/

namespace Formulary

theorem walkPieces_append (pieces more : List (Piece Node)) :
    walkPieces (pieces ++ more) = (walkPieces pieces).andThen (walkPieces more) := by
  induction pieces with
  | nil => simp
  | cons piece rest ih => cases piece <;> simp [ih]

namespace Grammar

theorem walkPieces_joinTexts (pieces : List (Piece Node)) : walkPieces (joinTexts pieces) = walkPieces pieces := by
  induction pieces with
  | nil => rfl
  | cons piece rest ih =>
    cases piece with
    | code pos body => simp [joinTexts, ih]
    | text value =>
      rw [walkPieces, ← ih, joinTexts]
      split
      · rfl
      · cases joinTexts rest with
        | nil => simp
        | cons next others => cases next <;> simp

theorem walkPieces_normalPieces (pieces : List (Piece Node)) : walkPieces (normalPieces pieces) = walkPieces pieces := by
  unfold normalPieces
  split
  · rename_i blank
    have silent := walkPieces_joinTexts pieces
    rw [List.isEmpty_iff.1 blank] at silent
    rw [← silent]
    cases pieces with
    | nil => rfl
    | cons piece rest =>
      cases piece with
      | text value => simp
      | code pos body => simp [joinTexts] at blank
  · exact walkPieces_joinTexts pieces

variable {parse : Rules} (rules : TracedRules parse)
include rules

theorem traces_embedded {tokens : List Token} (scanned : Scanned tokens) (pos : Position) :
    Traces (embedded parse tokens pos) (fun piece => walkPieces [piece]) fun _ => [] := by
  intro before places start outer piece final reads run
  -- The code has tokens of its own, which are scanned as well, and goes on with the scopes of the string.
  let inner : State := { outer with
    ahead := tokens.dropLast
    final := tokens.getLast?.getD ⟨.endOfText, pos, true⟩
    barred := 0 }
  have sound : inner.Sound := by
    rw [State.Sound, scanned.capped.split]
    exact scanned
  have back (statements : List Node) : Triple (Reads (Walk.nothing.andThen (walkAll statements)) [] inner)
      (do modify fun inner => { outer with scopes := inner.scopes }
          return Piece.code pos statements)
      fun piece => Reads (before.andThen (walkPieces [piece])) (places ++ []) start :=
    (Triple.modify fun _ inside => (reads.follow inside.follows).mono (by simp) (by simp)).bind fun _ =>
      .pure fun _ => id
  have rest : Triple (Reads .nothing [] inner)
      (do let statements ← parse (.statements {})
          if !(← atStop {}) then complain .unexpectedInCode
          modify fun inner => { outer with scopes := inner.scopes }
          return Piece.code pos statements)
      fun piece => Reads (before.andThen (walkPieces [piece])) (places ++ []) start :=
    (rules.statements {}).pass.bind fun statements => triple_atStop.bind fun _ =>
      .ite (fun _ => triple_complain.bind fun _ => back statements) fun _ => back statements
  exact rest (.refl sound) run

theorem traces_pieces {segments : List (Segment Token)}
    (scanned : ∀ code pos, .code code pos ∈ segments → Scanned code) :
    Traces (pieces parse segments) walkPieces fun _ => [] := by
  induction segments with
  | nil => exact fun _ _ _ => .pure fun _ reads => reads.mono (by simp) (by simp)
  | cons segment rest ih =>
    intro before places start
    have more := ih fun code pos member => scanned code pos (List.mem_cons_of_mem _ member)
    have join (piece : Piece Node) : Triple (Reads (before.andThen (walkPieces [piece])) places start)
        (do return piece :: (← pieces parse rest)) fun found => Reads (before.andThen (walkPieces found)) (places ++ []) start :=
      more.pass.bind fun others => .pure fun _ reads =>
        reads.mono (by rw [Walk.andThen_assoc, ← walkPieces_append]; rfl) (by simp)
    rw [pieces, List.mapM_cons]
    cases segment with
    | text value =>
      rw [pure_bind]
      exact (join (.text value)).weaken fun _ reads => reads.mono (by simp) (.refl _)
    | code tokens pos => exact (rules.code (scanned tokens pos List.mem_cons_self) pos).pass.bind join

theorem traces_adjacent : Traces (adjacent parse) walkPieces fun _ => [] := by
  intro before places start
  refine triple_peek.bind fun token => .knowing (fun _ looked => looked.inner) fun scanned => ?_
  have none : Triple (At token (Reads before places start)) (pure [])
      fun found => Reads (before.andThen (walkPieces found)) (places ++ []) start :=
    .pure fun _ looked => looked.1.mono (by simp) (by simp)
  cases lexeme : token.lexeme with
  | string segments =>
    rw [lexeme] at scanned
    refine .ite (fun _ => (triple_skip.away token).bind fun _ => ?_) fun _ => none
    refine (traces_pieces rules scanned).pass.bind fun first => rules.adjacent.pass.bind fun more => ?_
    exact .pure fun _ reads => reads.mono (by rw [Walk.andThen_assoc, ← walkPieces_append]) (by simp)
  | _ => exact none

variable {before : Walk} {places : List (Option Position)} {start : State} {token : Token} {pos : Position}

theorem triple_stringLiteral {segments : List (Segment Token)}
    (scanned : ∀ code pos, .code code pos ∈ segments → Scanned code) :
    Triple (Reads before (places ++ [some pos]) start) (stringLiteral parse pos segments)
      (ReadsNode before places start) := by
  refine (traces_pieces rules scanned).pass.bind fun first => rules.adjacent.pass.bind fun more => ?_
  refine .pure fun _ reads => reads.mono ?_ (.refl _)
  rw [Walk.andThen_assoc, ← walkPieces_append, Node.walk, walkPieces_normalPieces]

theorem traces_hashKey : Traces (hashKey parse) Node.walk fun _ => [] := by
  intro before places start
  refine triple_glance.bind fun token => ?_
  have key : Triple (Reads before places start)
      (do let key ← parse .expression
          skipNewlines
          consume Lexeme.isArrow .expectedArrow
          skipNewlines
          return key)
      fun node => Reads (before.andThen node.walk) (places ++ []) start :=
    rules.expression.pass.bind fun key => triple_skipNewlines.bind fun _ => triple_consume.bind fun _ =>
      triple_skipNewlines.bind fun _ => .pure fun _ reads => reads.mono rfl (by simp)
  cases token.lexeme with
  | label name =>
    refine triple_skip.bind fun _ => triple_skipNewlines.bind fun _ => ?_
    exact .pure fun _ reads => reads.mono (by simp) (by simp)
  | _ => exact key

theorem traces_pairs : Traces (pairs parse) (fun found => .inTurn ((pairWalks found).map (·.2))) fun _ => [] := by
  intro before places start
  refine triple_check.bind fun _ => .ite (fun _ => .pure fun _ reads => reads.mono (by simp) (by simp)) fun _ => ?_
  refine (traces_hashKey rules).pass.bind fun key => rules.expression.pass.bind fun value => ?_
  refine triple_skipNewlines.bind fun _ => triple_check.bind fun _ => .ite (fun _ => ?_) fun _ =>
    .pure fun _ reads => reads.mono (by simp) (by simp)
  exact triple_skip.bind fun _ => triple_skipNewlines.bind fun _ => rules.pairs.pass.bind fun more =>
    .pure fun _ reads => reads.mono (by simp) (by simp)

theorem triple_hash (inner : token.lexeme ≠ .endOfText) : Triple (At token (Reads before places start)) (hash parse)
    (ReadsNode before places start) := by
  refine (triple_begin inner).bind fun opening => .enclosed (fun _ _ reads => reads.bar _)
    (fun _ _ _ reads => reads.bar _) ?_
  refine triple_skipNewlines.bind fun _ => rules.pairs.pass.bind fun found => triple_consume.bind fun _ => ?_
  exact .pure fun _ reads => reads.mono (by simp) (.refl _)

end Grammar

end Formulary

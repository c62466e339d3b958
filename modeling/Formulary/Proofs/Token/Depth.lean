import Formulary.Proofs.Token.Run

/-! Code in a text is shorter than the text, so that no text is nested too deep for the scan. -/

namespace Formulary

open Result

variable {α β : Type}

/-- The outcome of a scan that does not fail for the depth of a text. -/
def Shallow (outcome : Except Malformed α) : Prop :=
  ∀ error, outcome = .error error → error.cause ≠ .tooDeep

namespace Shallow

variable {outcome : Except Malformed α}

theorem ok (value : α) : Shallow (.ok value) :=
  fun _ => nofun

theorem error {cause : Cause} (other : cause ≠ .tooDeep) (pos : Position) :
    Shallow (.error ⟨cause, pos⟩ : Except Malformed α) := by
  intro error h
  obtain rfl := Except.error.inj h
  exact other

theorem bind {next : α → Except Malformed β} (h : Shallow outcome)
    (hnext : ∀ value, outcome = .ok value → Shallow (next value)) : Shallow (outcome >>= next) := by
  intro error fault
  obtain here | ⟨value, found, there⟩ := bind_eq_error_iff.1 fault
  · exact h error here
  · exact hnext value found error there

theorem map {f : α → β} (h : Shallow outcome) : Shallow (outcome.map f) := by
  intro error fault
  cases outcome with
  | ok value => cases fault
  | error other =>
    obtain rfl := Except.error.inj fault
    exact h _ rfl

theorem elim {found : Option α} {cause : Cause} (other : cause ≠ .tooDeep) (pos : Position) :
    Shallow (found.elim (.error ⟨cause, pos⟩) .ok) := by
  cases found with
  | none => exact error other pos
  | some value => exact ok value

end Shallow

namespace Scan

open Body

/-- Code that is shorter than a bound is read, however deep. -/
def Plumbs (bound : Nat) (code : Reader) : Prop :=
  ∀ text pos, text.length < bound → Shallow (code text pos)

variable {code : Reader} {bound : Nat} (plumbs : Plumbs bound code)
include plumbs

theorem shallow_splitBody {embeds : Bool} {closer : Option Char} {skip : Nat} {pos : Position} {text : List Char}
    (short : text.length ≤ bound) : Shallow (Literal.splitBody code embeds closer skip pos text) := by
  induction text generalizing skip pos with
  | nil => exact .ok _
  | cons c more ih =>
    rw [List.length_cons] at short
    have rest (skip : Nat) (pos : Position) : Shallow (Literal.splitBody code embeds closer skip pos more) :=
      ih (by omega)
    unfold Literal.splitBody
    cases skip with
    | succ skip => exact rest skip pos
    | zero =>
      dsimp only
      split
      · exact (rest _ _).map
      · split
        · exact (rest _ _).map
        · split
          · split
            · exact .error (by simp) pos
            · refine Shallow.bind (plumbs _ _ ?_) fun inner _ => (rest _ _).bind fun others _ => .ok _
              simp only [List.length_take, List.length_tail]
              omega
          · exact (rest _ _).map

theorem shallow_segments {embeds : Bool} {closer : Option Char} {pos : Position} {text : List Char}
    (short : text.length ≤ bound) : Shallow (Literal.segments code embeds closer pos text) :=
  (shallow_splitBody plumbs short).map

omit plumbs in
theorem shallow_body (marks : Literal.Delimiters) (cursor : Cursor) : Shallow (body marks cursor) := by
  unfold body
  split
  · exact .ok _
  · exact .error (by simp) _
  · exact .error (by simp) _

theorem shallow_literal (marks : Literal.Delimiters) {cursor : Cursor} (short : cursor.rest.length ≤ bound) :
    Shallow (literal code marks cursor) := by
  refine (shallow_body marks cursor).bind fun found read => ?_
  have := length_of_readBody (body_eq_ok_iff.1 read)
  exact (shallow_segments plumbs (by omega)).bind fun segments _ => .ok _

theorem shallow_quotedSymbol (quote : Char) (start : Position) {cursor : Cursor} (short : cursor.rest.length ≤ bound) :
    Shallow (quotedSymbol code quote start cursor) := by
  refine (shallow_literal plumbs _ short).bind fun found _ => ?_
  dsimp only
  split
  · exact .ok _
  · exact .error (by simp) _

theorem shallow_afterColon {cursor : Cursor} (short : cursor.rest.length ≤ bound) :
    Shallow (afterColon code cursor) := by
  have behind : (cursor.skip 2).rest.length ≤ bound := by
    rw [rest_skip, List.length_drop]
    omega
  unfold afterColon
  split
  · exact .ok _
  · exact shallow_quotedSymbol plumbs _ _ behind
  · exact shallow_quotedSymbol plumbs _ _ behind
  · split <;> exact .ok _
  · exact .ok _

omit plumbs in
theorem shallow_regexp (marks : Literal.Delimiters) (cursor : Cursor) : Shallow (regexp marks cursor) :=
  (shallow_body marks cursor).bind fun _ _ => .ok _

theorem shallow_percentLiteral (percent : Percent) {cursor : Cursor} (short : cursor.rest.length ≤ bound) :
    Shallow (percentLiteral code percent cursor) := by
  unfold percentLiteral
  split
  · exact shallow_regexp _ _
  split
  · exact (shallow_body _ _).bind fun _ _ => .ok _
  split
  · exact (shallow_body _ _).bind fun _ _ => .ok _
  · exact (shallow_literal plumbs _ short).bind fun _ _ => .ok _

variable {state : State} (short : state.cursor.rest.length ≤ bound)
include short

theorem shallow_plainToken (c : Char) : Shallow (plainToken code state c) := by
  have next : state.cursor.next.rest.length ≤ bound := by
    rw [rest_next, List.length_tail]
    omega
  cases lead c with
  | digit digit => exact plainToken_digit digit ▸ .ok _
  | letter digit letter => exact plainToken_letter digit letter ▸ .ok _
  | sigil => exact .elim (by simp) _
  | dollar => exact .elim (by simp) _
  | quote quote =>
    rw [plainToken_quote quote]
    exact (shallow_literal plumbs _ next).bind fun _ _ => .ok _
  | back => exact (shallow_literal plumbs _ next).bind fun _ _ => .ok _
  | colon => exact shallow_afterColon plumbs short
  | slash =>
    rw [plainToken_slash]
    split
    · exact shallow_regexp _ _
    · exact .elim (by simp) _
  | percent =>
    rw [plainToken_percent]
    split
    · split
      · refine shallow_percentLiteral plumbs _ ?_
        rw [rest_skip, List.length_drop]
        omega
      · exact .elim (by simp) _
    · exact .elim (by simp) _
  | sign other =>
    rw [plainToken_sign other]
    exact .elim (by simp) _

omit short in
theorem shallow_readBodies {cursor : Cursor} {pending : List (Heredoc.Opener × Position)}
    (short : cursor.rest.length ≤ bound) : Shallow (readBodies code cursor pending) := by
  induction pending generalizing cursor with
  | nil => exact .ok _
  | cons opened more ih =>
    obtain ⟨opener, pos⟩ := opened
    rw [readBodies]
    split
    · exact .error (by simp) pos
    · rename_i lines rest taken
      have text := length_of_takeBody taken
      have body := length_bodyText_le opener lines
      have behind := takeBody_suffix taken
      rw [List.length_nil] at text
      refine (shallow_segments plumbs (by omega)).bind fun _ _ => (ih ?_).bind fun _ _ => .ok _
      rw [rest_moveTo behind]
      exact Nat.le_trans behind.length_le short

theorem shallow_newline : Shallow (newline code state) := by
  refine (shallow_readBodies plumbs ?_).bind fun found _ => ?_
  · rw [rest_next, List.length_tail]
    omega
  · dsimp only
    split <;> exact .ok _

theorem shallow_token (c : Char) : Shallow (token code state c) := by
  unfold token
  dsimp only
  split
  · exact .ok _
  · exact (shallow_plainToken plumbs short c).bind fun _ _ => .ok _

theorem shallow_step : Shallow (step code state) := by
  unfold step
  dsimp only
  split
  · exact .ok _
  split
  · split
    · exact .ok _
    · exact .error (by simp) _
  repeat' split
  all_goals first
    | exact .ok _
    | exact (shallow_newline plumbs short).map
    | exact (shallow_token plumbs short _).map

theorem shallow_run {fuel : Nat} (enough : state.cursor.rest.length < fuel) : Shallow (run code fuel state) := by
  induction fuel generalizing state with
  | zero => exact absurd enough (Nat.not_lt_zero _)
  | succ fuel ih =>
    refine (shallow_step plumbs short).bind fun taken hstep => ?_
    cases taken with
    | none =>
      dsimp only
      split
      · exact .error (by simp) _
      · exact .ok _
    | some found =>
      have less := (step_eq_some_iff.1 hstep).suffix.2
      exact (ih (by omega) (by omega)).bind fun _ _ => .ok _

omit plumbs short in
theorem plumbs_tokensWithin (depth : Nat) : Plumbs depth (tokensWithin depth) := by
  induction depth with
  | zero => exact fun _ _ => nofun
  | succ depth ih =>
    intro text pos short
    exact (shallow_run ih (Nat.le_of_lt_succ short) (Nat.lt_succ_self _)).bind fun _ _ => .ok _

end Scan

/-- No text is nested too deep to be scanned. -/
theorem shallow_tokenize (text : List Char) (pos : Position) : Shallow (tokenize text pos) :=
  Scan.plumbs_tokensWithin _ text pos (Nat.lt_succ_self _)

end Formulary

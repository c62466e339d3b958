import Formulary.Proofs.Token.Order
import Formulary.Proofs.Token.Spelled

/-! The places of tokens are counted from the start of the text, whatever was skipped on the way. -/

namespace Formulary

open Gap (atDataMark)

theorem Position.past_append (pos : Position) (text more : List Char) :
    pos.past (text ++ more) = (pos.past text).past more :=
  List.foldl_append

namespace Cursor

theorem pos_skip_past (n : Nat) (cursor : Cursor) : (cursor.skip n).pos = cursor.pos.past (cursor.rest.take n) := by
  induction n generalizing cursor with
  | zero => rfl
  | succ n ih =>
    obtain ⟨rest, pos, fresh⟩ := cursor
    cases rest with
    | nil => exact (ih ⟨[], pos, fresh⟩).trans (by rw [List.take_nil, List.take_nil])
    | cons c rest => exact ih _

theorem pos_next {cursor : Cursor} {c : Char} {more : List Char} (front : cursor.rest = c :: more) :
    cursor.next.pos = cursor.pos.after c := by
  obtain ⟨rest, pos, fresh⟩ := cursor
  obtain rfl : rest = c :: more := front
  rfl

/-- A cursor that counts from the start of a text what stands before it. -/
def Counts (start : Position) (text : List Char) (cursor : Cursor) : Prop :=
  ∃ before, before ++ cursor.rest = text ∧ start.past before = cursor.pos

variable {start : Position} {text : List Char} {cursor behind : Cursor}

theorem counts_ofText (text : List Char) (start : Position) : Counts start text (.ofText text start) :=
  ⟨[], rfl, rfl⟩

theorem Counts.movedOn (counts : Counts start text cursor) (moved : Scan.MovedOn cursor behind) :
    Counts start text behind := by
  obtain ⟨before, rfl, here⟩ := counts
  obtain ⟨n, rfl⟩ := moved
  refine ⟨before ++ cursor.rest.take n, ?_, ?_⟩
  · rw [Scan.rest_skip, List.append_assoc, List.take_append_drop]
  · rw [Position.past_append, here, pos_skip_past]

end Cursor

/-- A token is spelled in a text where it stands. Nothing spells the end of the text, and it alone. -/
def Token.Placed (start : Position) (text : List Char) (token : Token) : Prop :=
  ∃ before spelling behind, before ++ spelling ++ behind = text ∧ start.past before = token.pos ∧
    token.lexeme.Spelled spelling ∧ (spelling = [] → token.lexeme = .endOfText)

/-- Newlines stand behind a token that ends no statement. `opened` says whether one stands before these tokens. -/
def Separated (opened : Bool) : List Token → Prop
  | [] => True
  | token :: more => (token.lexeme = .newline → opened = true) ∧ Separated (!token.lexeme.isSeparator) more

namespace Scan

open Body Result

variable {code : Reader} {state last : State} {found : Found} {tokens : List Token} {bodies : List Segments}
  {start : Position} {text : List Char}

/-- A token is spelled by what stands where its step begins, and is the last one for the next step. -/
theorem Step.taken (h : Step code state found) :
    found.tokens = [] ∧ found.state.last = state.last ∨
      ∃ token spelling after, found.tokens = [token] ∧ found.state.last = some token.lexeme ∧
        token.pos = state.cursor.pos ∧ spelling ++ after = state.cursor.rest ∧ spelling ≠ [] ∧
        token.lexeme.Spelled spelling ∧ (token.lexeme = .newline → state.last.any (!·.isSeparator) = true) := by
  cases h with
  | blockComment | blank | continuation | comment => exact .inl ⟨rfl, rfl⟩
  | @newline more found front atCode h =>
    obtain ⟨bodies, cursor, -, rfl⟩ := newline_cases h
    split
    · exact .inl ⟨rfl, rfl⟩
    · rename_i separates
      refine .inr ⟨_, ['\n'], more, rfl, rfl, rfl, front.symm, nofun, rfl, fun _ => ?_⟩
      simp only [Bool.or_eq_true, not_or, Bool.not_eq_true, Bool.not_eq_false'] at separates
      exact separates.2
  | @token c more found front atCode solid single hash line h =>
    have proper {spelling after : List Char} (whole : spelling ++ after = c :: more) (behind : after <:+ more) :
        spelling ≠ [] := by
      rintro rfl
      have := behind.length_le
      rw [List.nil_append] at whole
      rw [whole, List.length_cons] at this
      omega
    obtain ⟨opener, after, -, opens, rfl⟩ | ⟨-, lexeme, after, hplain, rfl⟩ := token_cases h
    · obtain ⟨spelling, whole, spelled⟩ := takes_opener [] (readOpener_of_heredoc? opens)
      have some := proper (whole.trans front) (heredoc?_suffix front opens)
      exact .inr ⟨_, spelling, after, rfl, rfl, rfl, whole, some, spelled, nofun⟩
    · obtain ⟨spelling, whole, spelled⟩ := takes_plainToken front hplain
      have some := proper whole (plainToken_suffix front hplain)
      refine .inr ⟨_, spelling, after, rfl, rfl, rfl, whole.trans front.symm, some, spelled, ?_⟩
      rintro rfl
      obtain rfl : spelling = ['\n'] := spelled
      exact (line (List.cons.inj whole).1.symm).elim

/-- A scan comes to the end of the program text and finds nothing more there. -/
theorem Scans.reaches (h : Scans code state tokens bodies) :
    ∃ front last, Reaches code state front bodies last ∧ step code last = .ok none ∧
      tokens = front ++ [⟨.endOfText, last.cursor.pos, true⟩] := by
  induction h with
  | done none _ => exact ⟨[], _, .refl _, none, rfl⟩
  | next hstep _ ih =>
    obtain ⟨front, last, h, none, rfl⟩ := ih
    exact ⟨_, last, .next hstep h, none, (List.append_assoc ..).symm⟩

namespace Reaches

theorem movedOn (h : Reaches code state tokens bodies last) : MovedOn state.cursor last.cursor := by
  induction h with
  | refl => exact ⟨0, rfl⟩
  | next hstep _ ih => exact hstep.movedOn.trans ih

theorem placed (h : Reaches code state tokens bodies last) (counts : state.cursor.Counts start text) :
    ∀ token ∈ tokens, token.Placed start text ∧ token.lexeme ≠ .endOfText := by
  induction h with
  | refl => nofun
  | next hstep _ ih =>
    refine List.forall_mem_append.2 ⟨?_, ih (counts.movedOn hstep.movedOn)⟩
    obtain ⟨none, -⟩ | ⟨token, spelling, after, one, -, here, front, some, spelled, -⟩ := hstep.taken
    · rw [none]
      nofun
    · rw [one]
      obtain ⟨before, whole, counted⟩ := counts
      refine List.forall_mem_singleton.2 ⟨⟨before, spelling, after, ?_, counted.trans here.symm, spelled,
        fun none => (some none).elim⟩, fun ends => ?_⟩
      · rw [List.append_assoc, front, whole]
      · rw [ends] at spelled
        exact some spelled

theorem separated (h : Reaches code state tokens bodies last) :
    Separated (state.last.any (!·.isSeparator)) tokens := by
  induction h with
  | refl => trivial
  | next hstep _ ih =>
    obtain ⟨none, same⟩ | ⟨token, _, _, one, last, -, -, -, -, newline⟩ := hstep.taken
    · rwa [none, List.nil_append, ← same]
    · rw [one, List.singleton_append]
      rw [last] at ih
      exact ⟨newline, ih⟩

end Reaches

theorem placed_plug (bodies : List Segments)
    (h : ∀ token ∈ tokens, token.Placed start text ∧ token.lexeme ≠ .endOfText) :
    ∀ token ∈ plug tokens bodies, token.Placed start text ∧ token.lexeme ≠ .endOfText := by
  intro token member
  obtain ⟨found, among, here, rfl | ⟨segments, -, hollow, filled⟩⟩ := mem_plug member
  · exact h token among
  · obtain ⟨⟨before, spelling, behind, whole, counted, spelled, some⟩, -⟩ := h found among
    rw [hollow] at spelled some
    refine ⟨⟨before, spelling, behind, whole, counted.trans here.symm, ?_, fun none => nomatch some none⟩, ?_⟩
    · rwa [filled]
    · rw [filled]
      nofun

theorem separated_plug {opened : Bool} (h : Separated opened tokens) : Separated opened (plug tokens bodies) := by
  induction tokens generalizing opened bodies with
  | nil => trivial
  | cons token more ih =>
    obtain ⟨newline, separated⟩ := h
    by_cases hollow : token.lexeme = .string []
    · obtain ⟨lexeme, pos, spaced⟩ := token
      subst hollow
      cases bodies with
      | nil => exact ⟨nofun, ih separated⟩
      | cons found others => exact ⟨nofun, ih separated⟩
    · rw [plug_cons_of_ne hollow]
      exact ⟨newline, ih separated⟩

end Scan

theorem Separated.before_newline {opened : Bool} {front behind : List Token} {token : Token}
    (h : Separated opened (front ++ token :: behind)) (newline : token.lexeme = .newline) :
    front = [] ∧ opened = true ∨ ∃ earlier last, front = earlier ++ [last] ∧ last.lexeme.isSeparator = false := by
  induction front generalizing opened with
  | nil => exact .inl ⟨rfl, h.1 newline⟩
  | cons first more ih =>
    obtain ⟨rfl, last⟩ | ⟨earlier, last, rfl, statement⟩ := ih h.2
    · exact .inr ⟨[], first, rfl, by simpa using last⟩
    · exact .inr ⟨first :: earlier, last, rfl, statement⟩

theorem Separated.append {opened : Bool} {front : List Token} {token : Token} (h : Separated opened front)
    (other : token.lexeme ≠ .newline) : Separated opened (front ++ [token]) := by
  induction front generalizing opened with
  | nil => exact ⟨fun newline => (other newline).elim, trivial⟩
  | cons first more ih => exact ⟨h.1, ih h.2⟩

/-- Tokens that stand in a text as it begins at a place. -/
structure Positioned (start : Position) (text : List Char) (tokens : List Token) : Prop where
  /-- The last token, and no other, is the end of the program text. -/
  ends : ∃ front last, tokens = front ++ [last] ∧ last.lexeme = .endOfText ∧
    (∀ token ∈ front, token.lexeme ≠ .endOfText) ∧
    ∃ before behind, before ++ behind = text ∧ start.past before = last.pos ∧ (behind = [] ∨ atDataMark behind = true)
  ordered : (tokens.map (·.pos)).Pairwise Position.Before
  placed : ∀ token ∈ tokens, token.Placed start text
  separated : ∀ front token behind, tokens = front ++ token :: behind → token.lexeme = .newline →
    ∃ earlier last, front = earlier ++ [last] ∧ last.lexeme.isSeparator = false

theorem positioned_tokensWithin {depth : Nat} {text : List Char} {start : Position} {tokens : List Token}
    (read : Scan.tokensWithin depth text start = .ok tokens) : Positioned start text tokens := by
  cases depth with
  | zero => contradiction
  | succ depth =>
    obtain ⟨found, bodies, scans, rfl⟩ := Scan.tokensWithin_eq_ok_iff.1 read
    have ordered := scans.ordered.1
    rw [← Scan.pos_plug found bodies] at ordered
    obtain ⟨front, last, reaches, none, rfl⟩ := scans.reaches
    rw [Scan.plug_append_end] at ordered ⊢
    have placed := Scan.placed_plug bodies (reaches.placed (Cursor.counts_ofText text start))
    have separated : Separated false (Scan.plug front bodies) := Scan.separated_plug reaches.separated
    obtain ⟨before, rfl, counted⟩ := (Cursor.counts_ofText text start).movedOn reaches.movedOn
    refine ⟨⟨_, _, rfl, rfl, fun token member => (placed token member).2, before, last.cursor.rest, rfl, counted,
      (Scan.step_eq_none_iff.1 none).imp_right fun ends => (Bool.and_eq_true_iff.1 ends.2).2⟩, ordered, ?_, ?_⟩
    · refine List.forall_mem_append.2 ⟨fun token member => (placed token member).1, List.forall_mem_singleton.2 ?_⟩
      exact ⟨before, [], last.cursor.rest, by rw [List.append_nil], counted, rfl, fun _ => rfl⟩
    · intro earlier token behind same newline
      have all : Separated false (Scan.plug front bodies ++ [⟨.endOfText, last.cursor.pos, true⟩]) :=
        separated.append nofun
      rw [same] at all
      exact (all.before_newline newline).resolve_left nofun

/-- The tokens of a text stand in it where their places say, counted from where the text begins: in the order of the
text, the end of the program text last, and no newline behind nothing or behind the end of a statement. -/
theorem tokenize_positioned {text : List Char} {start : Position} {tokens : List Token}
    (read : tokenize text start = .ok tokens) : Positioned start text tokens :=
  positioned_tokensWithin read

/-- A string and a heredoc of several lines, a block comment, a line that a backslash continues and a chained call. -/
theorem tokenize_positioned_lines :
    let text := "a <<~E, \"x\ny\"; b\n  t\nE\n=begin\nz\n=end\nc \\\n d\n  .e\n\nf".toList
    ∃ tokens, tokenize text ⟨3, 5⟩ = .ok tokens ∧ Positioned ⟨3, 5⟩ text tokens ∧
      tokens.map (·.pos) = [⟨3, 5⟩, ⟨3, 7⟩, ⟨3, 11⟩, ⟨3, 13⟩, ⟨4, 3⟩, ⟨4, 5⟩, ⟨4, 6⟩, ⟨10, 1⟩, ⟨11, 2⟩, ⟨12, 3⟩,
        ⟨12, 4⟩, ⟨12, 5⟩, ⟨14, 1⟩, ⟨14, 2⟩] := by
  intro text
  have accepted : (tokenize text ⟨3, 5⟩).toOption.isSome = true := by decide +kernel
  obtain ⟨tokens, read⟩ := Result.exists_ok_of_isSome accepted
  have places : (tokenize text ⟨3, 5⟩).toOption.map (·.map (·.pos)) = some [⟨3, 5⟩, ⟨3, 7⟩, ⟨3, 11⟩, ⟨3, 13⟩, ⟨4, 3⟩,
      ⟨4, 5⟩, ⟨4, 6⟩, ⟨10, 1⟩, ⟨11, 2⟩, ⟨12, 3⟩, ⟨12, 4⟩, ⟨12, 5⟩, ⟨14, 1⟩, ⟨14, 2⟩] := by decide +kernel
  rw [read] at places
  exact ⟨tokens, read, tokenize_positioned read, Option.some.inj places⟩

end Formulary

import Formulary.Proofs.Token.Enclosed
import Formulary.Proofs.Token.Places
import Formulary.Proofs.Token.Layout
import Mathlib.Data.List.TakeWhile

/-!
A line alone and the line with more behind it, side by side. Up to the end of its last token the scan of the longer text
finds what the scan of the line finds.
-/

namespace Formulary

open Scan

/-- A token of which nothing can be spelled in two ways: a name, or what an operand can follow. -/
theorem Lexeme.spelling_unique {τ : Type} {lexeme : Lexeme τ} (opens : lexeme.isIdentifier = true ∨ lexeme.endsValue = false)
    {text text' : List Char} (spelled : lexeme.Spelled text) (spelled' : lexeme.Spelled text') : text' = text := by
  cases lexeme with
  | label | identifier | operator | arrow | opening | comma | dot | safeDot | doubleColon | question | colon | semicolon
  | newline | endOfText | keyword => exact spelled'.trans spelled.symm
  | _ => simp [isIdentifier, endsValue] at opens

/-- A line whose last token stands at its very end, where an operand can follow behind a blank: a command's name, or
what comes before its next argument. -/
structure Introduction (line : List Char) (front : List Token) (last : Token) : Prop where
  inline : '\n' ∉ line
  read : ∃ final, tokenize line .origin = .ok (front ++ [last, final])
  opens : last.lexeme.isIdentifier = true ∨ last.lexeme.endsValue = false
  ends : ∃ before spelling, before ++ spelling = line ∧ Position.origin.past before = last.pos ∧
    last.lexeme.Spelled spelling

namespace Scan

open Body Gap Result Seam Spelling

variable {code code' : Reader} {bound : Nat} {rest' text : List Char} {state state' mid last : State} {found : Found}
  {tokens : List Token} {bodies : List Segments}

theorem afterBlockComment_inline {fresh ending : Bool} {after : List Char} (inline : '\n' ∉ text)
    (h : afterBlockComment fresh ending text = some after) : after = [] := by
  induction text generalizing fresh ending with
  | nil =>
    rw [afterBlockComment] at h
    split at h
    · exact (Option.some.inj h).symm
    · contradiction
  | cons c more ih =>
    obtain ⟨first, others⟩ : '\n' ≠ c ∧ '\n' ∉ more := by simpa using inline
    rw [afterBlockComment, if_neg (Ne.symm first)] at h
    exact ih others h

theorem dropWhile_line_inline (inline : '\n' ∉ text) : text.dropWhile (· ≠ '\n') = [] := by
  refine List.dropWhile_eq_nil_iff.2 fun c among => decide_eq_true ?_
  rintro rfl
  exact inline among

theorem parting_of_margin (blank : rest'.head?.any Heredoc.isMargin = true) :
    Parting [] rest' ∧ ∀ c, Heredoc.isMargin c = false → rest'.head? ≠ some c := by
  obtain ⟨d, head, margin⟩ := (Option.any_eq_true ..).1 blank
  refine ⟨⟨nofun, fun c here => ?_⟩, fun c other here => ?_⟩
  · obtain rfl : d = c := Option.some.inj (head.symm.trans here)
    obtain rfl | rfl : d = ' ' ∨ d = '\t' := by simpa [Heredoc.isMargin] using margin
    · exact .inl rfl
    · exact .inl rfl
  · obtain rfl : d = c := Option.some.inj (head.symm.trans here)
    rw [margin] at other
    contradiction

theorem Scans.bodies_inline (h : Scans code state tokens bodies) (inline : '\n' ∉ state.cursor.rest) : bodies = [] := by
  induction h with
  | done => rfl
  | next hstep _ ih =>
    have later := ih fun among => inline (hstep.suffix.1.subset among)
    rw [later, List.append_nil]
    cases hstep with
    | newline front => exact (inline (front ▸ List.mem_cons_self)).elim
    | token front atCode solid single hash line h => 
      obtain ⟨opener, after, -, -, rfl⟩ | ⟨-, lexeme, after, -, rfl⟩ := token_cases h <;> rfl
    | _ => rfl

/-- Within a line a step that leaves text or finds a token is one for the longer text too. -/
theorem Step.inline_twin (h : Step code state found) (refines : Refines bound code code') (blank : rest'.head?.any Heredoc.isMargin = true)
    (twin : Twin [] rest' text state state') (short : text.length ≤ bound) (inline : '\n' ∉ text)
    (goesOn : found.state.cursor.rest ≠ [] ∨ found.tokens ≠ []) :
    ∃ found', Step code' state' found' ∧ unplaced found'.tokens = unplaced found.tokens ∧ found'.bodies = [] ∧
      Twin [] rest' found.state.cursor.rest found.state found'.state := by
  obtain ⟨parting, other⟩ := parting_of_margin blank
  have here : state.cursor.rest = text := by rw [twin.front, List.append_nil]
  cases h with
  | blockComment some begins behind =>
    have suffix := afterBlockComment_suffix behind
    rw [rest_moveTo suffix] at goesOn
    simp [afterBlockComment_inline (here ▸ inline) behind] at goesOn
  | @blank c more front atCode blank =>
    obtain rfl : text = c :: more := here.symm.trans front
    have next : state.cursor.next.rest = more := next_front front
    refine ⟨_, .blank twin.front' (twin.atCode parting atCode) blank, rfl, rfl, ?_, ?_, .inl ?_, rfl, twin.last,
      twin.pending⟩
    · rw [next, List.append_nil]
    · rw [next, rest_next, twin.front']
      rfl
    · rw [next_fresh twin.front', next_fresh front]
  | continuation front atCode => exact (inline (here ▸ front ▸ by simp)).elim
  | comment front atCode =>
    have behind := dropWhile_line_inline (here ▸ inline)
    rw [behind] at goesOn
    simp [rest_moveTo (List.nil_suffix)] at goesOn
  | newline front atCode h => exact (inline (here ▸ front ▸ List.mem_cons_self)).elim
  | @token c more found front atCode solid single hash line h =>
    obtain rfl : text = c :: more := here.symm.trans front
    obtain ⟨found', after, h', alike, -, twin'⟩ :=
      token_twin refines parting twin short (fun back => (other '\r' (by decide) back).elim) h (Nat.zero_le _)
    have left : found.state.cursor.rest = after := by rw [twin'.front, List.append_nil]
    refine ⟨found', .token twin.front' (twin.atCode parting atCode) solid ?_ hash line h', alike.tokens, ?_, left ▸ twin'⟩
    · rintro ⟨rfl, line'⟩
      cases more with
      | nil => exact other '\n' (by decide) line'
      | cons d others => exact inline (by simp_all)
    · obtain ⟨opener, after, -, -, rfl⟩ | ⟨-, lexeme, after, -, rfl⟩ := token_cases h' <;> rfl

theorem Reaches.inline_twin (h : Reaches code state tokens bodies mid) (refines : Refines bound code code')
    (blank : rest'.head?.any Heredoc.isMargin = true) (twin : Twin [] rest' text state state')
    (short : text.length ≤ bound) (inline : '\n' ∉ text) (goesOn : mid.cursor.rest ≠ []) :
    ∃ tokens' mid', Reaches code' state' tokens' [] mid' ∧ unplaced tokens' = unplaced tokens ∧
      Twin [] rest' mid.cursor.rest mid mid' := by
  induction h generalizing text state' with
  | refl state =>
    have here : state.cursor.rest = text := by rw [twin.front, List.append_nil]
    exact ⟨[], state', .refl state', rfl, here ▸ twin⟩
  | @next state mid found tokens bodies hstep h ih =>
    have here : state.cursor.rest = text := by rw [twin.front, List.append_nil]
    have some : found.state.cursor.rest ≠ [] := fun none => goesOn (List.suffix_nil.1 (none ▸ h.suffix))
    have less := hstep.suffix
    rw [here] at less
    obtain ⟨found', hstep', same, none, twin'⟩ :=
      hstep.inline_twin refines blank twin short inline (.inl some)
    obtain ⟨tokens', mid', h', others, twin''⟩ :=
      ih twin' (Nat.le_trans (Nat.le_of_lt less.2) short) (fun among => inline (less.1.subset among)) goesOn
    have reaches := Reaches.next hstep' h'
    rw [none] at reaches
    refine ⟨_, mid', reaches, ?_, twin''⟩
    rw [unplaced_append, unplaced_append, same, others]

/-- A scan comes to the state where a token of it is found. -/
theorem Scans.at_token {front behind : List Token} {token : Token}
    (h : Scans code state (front ++ token :: behind) bodies) (last : behind ≠ []) :
    ∃ mid found before after, Reaches code state front before mid ∧ Step code mid found ∧ found.tokens = [token] ∧
      Scans code found.state behind after ∧ bodies = before ++ (found.bodies ++ after) := by
  generalize all : front ++ token :: behind = tokens at h
  induction h generalizing front with
  | done =>
    obtain ⟨rfl, eq⟩ := (List.append_eq_singleton_iff.1 all).resolve_right fun other => nomatch other.2
    exact (last (List.cons.inj eq).2).elim
  | @next state found tokens bodies hstep h ih =>
    obtain ⟨none, -⟩ | ⟨first, _, _, one, -⟩ := hstep.taken
    · rw [none, List.nil_append] at all
      obtain ⟨mid, found', before, after, reaches, rest, one, behind, rfl⟩ := ih all
      have reached := Reaches.next hstep reaches
      rw [none, List.nil_append] at reached
      exact ⟨mid, found', _, after, reached, rest, one, behind, (List.append_assoc ..).symm⟩
    · rw [one, List.singleton_append] at all
      cases front with
      | nil =>
        obtain ⟨rfl, rfl⟩ := List.cons.inj all
        exact ⟨state, found, [], bodies, .refl state, hstep, one, h, rfl⟩
      | cons other front =>
        obtain ⟨rfl, others⟩ := List.cons.inj all
        obtain ⟨mid, found', before, after, reaches, rest, one', behind, rfl⟩ := ih others
        have reached := Reaches.next hstep reaches
        rw [one] at reached
        exact ⟨mid, found', _, after, reached, rest, one', behind, (List.append_assoc ..).symm⟩

theorem Step.taken_one (h : Step code state found) {token : Token} (one : found.tokens = [token]) :
    token.pos = state.cursor.pos ∧ found.state.last = some token.lexeme := by
  obtain ⟨none, -⟩ | ⟨token', _, _, one', taken, place, -⟩ := h.taken
  · simp [none] at one
  · obtain ⟨rfl, -⟩ := List.cons.inj (one.symm.trans one')
    exact ⟨place, taken⟩

/-- A token that nothing spells in another way leaves what stands behind its spelling. -/
theorem Step.rest_of_spelled (h : Step code state found) {token : Token} (one : found.tokens = [token])
    (opens : token.lexeme.isIdentifier = true ∨ token.lexeme.endsValue = false) {spelling : List Char}
    (spelled : token.lexeme.Spelled spelling) (front : state.cursor.rest = spelling) (inline : '\n' ∉ spelling) :
    found.state.cursor.rest = [] := by
  cases h with
  | blockComment | blank | continuation | comment => nomatch one
  | newline front' => exact (inline (front ▸ front' ▸ List.mem_cons_self)).elim
  | @token c more found front' atCode solid single hash line h =>
    obtain ⟨opener, after, -, opens', rfl⟩ | ⟨-, lexeme, after, hplain, rfl⟩ := token_cases h
    · obtain rfl : _ = token := (List.cons.inj one).1
      simp [Lexeme.isIdentifier, Lexeme.endsValue] at opens
    · obtain rfl : _ = token := (List.cons.inj one).1
      obtain ⟨taken, whole, spelled'⟩ := takes_plainToken front' hplain
      have suffix := plainToken_suffix front' hplain
      rw [← front', front] at whole
      obtain rfl := Lexeme.spelling_unique opens spelled spelled'
      obtain rfl : after = [] := by simpa using whole
      exact rest_moveTo (List.nil_suffix)

/-- Behind a part of the first line a scan is on the first line. -/
theorem Reaches.line_eq_one {before : List Char} (h : Reaches code (.ofText text .origin) tokens bodies state)
    (whole : before ++ state.cursor.rest = text) (inline : '\n' ∉ before) : state.cursor.pos.line = 1 := by
  obtain ⟨before', whole', counted⟩ := (Cursor.counts_ofText text .origin).movedOn h.movedOn
  obtain rfl := List.append_cancel_right (whole'.trans whole.symm)
  rw [← counted, Position.line_past, List.count_eq_zero.2 inline]
  rfl

theorem isHollow_place (f : Position → Position) (token : Token) : isHollow (token.place f) = isHollow token := by
  by_cases hollow : token.lexeme = .string []
  · simp [isHollow, hollow, Token.lexeme_place, Lexeme.place]
  · have filled : (token.place f).lexeme ≠ .string [] := by
      rw [Token.lexeme_place]
      exact fun eq => hollow (place_eq_hollow_iff.1 eq)
    rw [isHollow_eq_false hollow, isHollow_eq_false filled]

theorem filter_isHollow_unplaced (tokens : List Token) :
    (unplaced tokens).filter isHollow = unplaced (tokens.filter isHollow) := by
  rw [unplaced, List.filter_map]
  congr 2
  funext token
  exact isHollow_place nowhere token

theorem filter_isHollow_of_unplaced {tokens' : List Token} (same : unplaced tokens' = unplaced tokens)
    (solid : tokens.filter isHollow = []) : tokens'.filter isHollow = [] := by
  have none := filter_isHollow_unplaced tokens'
  rw [same, filter_isHollow_unplaced, solid] at none
  exact List.map_eq_nil_iff.1 none.symm

end Scan

namespace Introduction

open Scan

variable {line rest : List Char} {front : List Token} {last : Token} (introduction : Introduction line front last)
include introduction

/-- The scan of the line comes to its last token, and there it ends. -/
theorem reaches_last : ∃ mid found, Reaches (tokensWithin line.length) (.ofText line .origin) front [] mid ∧
    Step (tokensWithin line.length) mid found ∧ found.tokens = [last] ∧ found.state.cursor.rest = [] ∧
    found.state.pending = [] ∧ (front ++ [last]).filter isHollow = [] := by
  obtain ⟨final, read⟩ := introduction.read
  obtain ⟨tokens, bodies, scans, plugged⟩ := tokensWithin_eq_ok_iff.1 read
  obtain rfl := scans.bodies_inline introduction.inline
  rw [plug_nil] at plugged
  subst plugged
  obtain ⟨openers, hollow, filled⟩ := scans.paired (Cursor.counts_ofText line .origin) nofun
  obtain rfl : openers = [] := by simpa using filled
  obtain ⟨mid, found, before, after, reaches, hstep, one, behind, bodies⟩ := scans.at_token (List.cons_ne_nil final [])
  obtain rfl : before = [] := (List.append_eq_nil_iff.1 bodies.symm).1
  have inline : '\n' ∉ mid.cursor.rest := fun among => introduction.inline (reaches.suffix.subset among)
  obtain ⟨start, whole, counted⟩ := (Cursor.counts_ofText line .origin).movedOn reaches.movedOn
  obtain ⟨start', spelling, whole', counted', spelled⟩ := introduction.ends
  have place := (hstep.taken_one one).1
  have front : mid.cursor.rest = spelling := by
    have inlined {before behind : List Char} (whole : before ++ behind = line) : '\n' ∉ before := fun among =>
      introduction.inline (whole ▸ List.mem_append_left _ among)
    have same := counted'.trans (place.trans counted.symm)
    rw [Position.past_inline _ (inlined whole), Position.past_inline _ (inlined whole')] at same
    have lengths : start'.length = start.length := by simpa [Position.right] using same
    exact ((List.append_inj (whole'.trans whole.symm) lengths).2).symm
  have ends := hstep.rest_of_spelled one introduction.opens spelled front (front ▸ inline)
  refine ⟨mid, found, reaches, hstep, one, ends, ?_, ?_⟩
  · generalize [final] = tokens at behind
    cases behind with
    | done _ idle => exact idle
    | next hstep' _ =>
      have less := hstep'.suffix.2
      simp [ends] at less
  · have none := List.forall₂_nil_right_iff.1 hollow
    rw [List.append_cons, List.filter_append] at none
    exact (List.append_eq_nil_iff.1 none).1

/-- With a blank behind it the line gives the same tokens. -/
theorem reaches (blank : rest.head?.any Heredoc.isMargin = true) {depth : Nat} (deep : line.length ≤ depth) :
    ∃ tokens state, Reaches (tokensWithin depth) (.ofText (line ++ rest) .origin) tokens [] state ∧
      unplaced tokens = unplaced (front ++ [last]) ∧ tokens.filter isHollow = [] ∧ state.cursor.rest = rest ∧
      Akin (some last.lexeme) state.last ∧ state.pending = [] := by
  obtain ⟨mid, found, toLast, hstep, one, ends, idle, solid⟩ := introduction.reaches_last
  have refines := refines_tokensWithin line.length line.length depth deep
  have twin : Twin [] rest line (.ofText line .origin) (.ofText (line ++ rest) .origin) :=
    ⟨(List.append_nil line).symm, rfl, .inl rfl, rfl, .refl none, rfl⟩
  have goesOn : mid.cursor.rest ≠ [] := fun none => by
    have less := hstep.suffix.2
    simp [none] at less
  obtain ⟨tokens', mid', reaches, same, twin'⟩ :=
    toLast.inline_twin refines blank twin (Nat.le_refl _) introduction.inline goesOn
  obtain ⟨found', hstep', same', none, twin''⟩ := hstep.inline_twin refines blank twin' toLast.length_le
    (fun among => introduction.inline (toLast.suffix.subset among)) (.inr (by simp [one]))
  have reached := reaches.trans (.step hstep')
  rw [none, List.append_nil] at reached
  have all : unplaced (tokens' ++ found'.tokens) = unplaced (front ++ [last]) := by
    rw [unplaced_append, unplaced_append, same, same', one]
  refine ⟨_, _, reached, all, filter_isHollow_of_unplaced all solid, ?_, (hstep.taken_one one).2 ▸ twin''.last, ?_⟩
  · rw [twin''.front', ends]
    rfl
  · simpa [idle] using twin''.pending

end Introduction

end Formulary

import Formulary.Proofs.Result
import Formulary.Proofs.Token.Margin
import Formulary.Proofs.Token.Seam
import Formulary.Proofs.Tree.Place

/-!
Where the bodies of literals, heredocs and block comments end. A body that ends within a text ends at the same
place whatever follows the text, and wherever the text stands.
-/

namespace Formulary.Body

open Result Seam Gap

/-! Code -/

/-- A brace closes the code. -/
theorem brace_of_codeLengthFrom {skip depth n : Nat} {quote : Option Char} {text : List Char}
    (h : Literal.codeLengthFrom skip depth quote text = some n) : text[n]? = some '\x7d' := by
  induction text generalizing skip depth n quote with
  | nil => simp [Literal.codeLengthFrom] at h
  | cons c more ih =>
    have step {skip depth : Nat} {quote : Option Char}
        (h : (Literal.codeLengthFrom skip depth quote more).map (· + 1) = some n) : (c :: more)[n]? = some '\x7d' := by
      obtain ⟨m, hm, rfl⟩ := Option.map_eq_some_iff.1 h
      exact ih hm
    unfold Literal.codeLengthFrom at h
    repeat' split at h
    all_goals first
      | exact step h
      | obtain rfl := Option.some.inj h
        simpa

theorem codeLengthFrom_lt {skip depth n : Nat} {quote : Option Char} {text : List Char}
    (h : Literal.codeLengthFrom skip depth quote text = some n) : n < text.length :=
  (List.getElem?_eq_some_iff.1 (brace_of_codeLengthFrom h)).1

theorem codeLengthFrom_append (skip depth n : Nat) (quote : Option Char) (text rest : List Char)
    (h : n < text.length) : Literal.codeLengthFrom skip depth quote (text ++ rest) = some n ↔
      Literal.codeLengthFrom skip depth quote text = some n := by
  induction text generalizing skip depth n quote with
  | nil => simp at h
  | cons c more ih =>
    have step (skip depth : Nat) (quote : Option Char) :
        (Literal.codeLengthFrom skip depth quote (more ++ rest)).map (· + 1) = some n ↔
          (Literal.codeLengthFrom skip depth quote more).map (· + 1) = some n := by
      cases n with
      | zero => simp
      | succ n => simpa using ih skip depth n quote (by simpa using h)
    rw [List.cons_append]
    unfold Literal.codeLengthFrom
    cases skip with
    | succ skip => exact step skip depth quote
    | zero =>
      dsimp only
      split
      · exact step 1 depth quote
      · cases quote with
        | some q => exact step 0 depth _
        | none =>
          dsimp only
          split
          · exact step 0 depth _
          · split
            · exact step 0 _ none
            · split
              · cases depth with
                | zero => exact Iff.rfl
                | succ depth => exact step 0 depth none
              · exact step 0 depth none

/-! Literals -/

/-- A body takes its escaped characters and its closing delimiter at least. -/
theorem readBody_length {marks : Literal.Delimiters} {skip depth : Nat} {pos : Position} {text body after : List Char}
    (h : Literal.readBody marks skip depth pos text = .ok (body, after)) : skip + after.length < text.length := by
  induction text generalizing skip depth pos body with
  | nil => simp [Literal.readBody] at h
  | cons c more ih =>
    have go {skip depth : Nat} (h : (Literal.readBody marks skip depth (pos.after c) more).map
        (fun read => (c :: read.1, read.2)) = .ok (body, after)) : skip + after.length < more.length := by
      obtain ⟨⟨inner, behind⟩, hinner, eq⟩ := map_eq_ok_iff.1 h
      obtain ⟨-, rfl⟩ := Prod.mk.inj eq
      exact ih hinner
    rw [List.length_cons]
    unfold Literal.readBody at h
    cases skip with
    | succ skip =>
      have := go h
      omega
    | zero =>
      dsimp only at h
      split at h
      · have := go h
        omega
      · split at h
        · split at h
          · have := go h
            omega
          · contradiction
        · split at h
          · have := go h
            omega
          · split at h
            · cases depth with
              | zero =>
                obtain ⟨-, rfl⟩ := Prod.mk.inj (Except.ok.inj h)
                omega
              | succ depth =>
                have := go h
                omega
            · have := go h
              omega

/-- A body stands before its closing delimiter. -/
theorem eq_of_readBody {marks : Literal.Delimiters} {skip depth : Nat} {pos : Position} {text body after : List Char}
    (h : Literal.readBody marks skip depth pos text = .ok (body, after)) : text = body ++ marks.closer :: after := by
  induction text generalizing skip depth pos body with
  | nil => simp [Literal.readBody] at h
  | cons c more ih =>
    have go {skip depth : Nat} (h : (Literal.readBody marks skip depth (pos.after c) more).map
        (fun read => (c :: read.1, read.2)) = .ok (body, after)) : c :: more = body ++ marks.closer :: after := by
      obtain ⟨⟨inner, behind⟩, hinner, eq⟩ := map_eq_ok_iff.1 h
      obtain ⟨rfl, rfl⟩ := Prod.mk.inj eq
      rw [ih hinner, List.cons_append]
    unfold Literal.readBody at h
    repeat' split at h
    all_goals first
      | exact go h
      | contradiction
      | obtain ⟨rfl, rfl⟩ := Prod.mk.inj (Except.ok.inj h)
        simpa

theorem length_of_readBody {marks : Literal.Delimiters} {skip depth : Nat} {pos : Position}
    {text body after : List Char} (h : Literal.readBody marks skip depth pos text = .ok (body, after)) :
    body.length + after.length < text.length := by
  rw [eq_of_readBody h, List.length_append, List.length_cons]
  omega

theorem readBody_suffix {marks : Literal.Delimiters} {skip depth : Nat} {pos : Position} {text body after : List Char}
    (h : Literal.readBody marks skip depth pos text = .ok (body, after)) : after <:+ text := by
  rw [eq_of_readBody h]
  exact (List.suffix_cons _ _).trans (List.suffix_append _ _)

variable {rest rest' : List Char}

theorem opensCode_append (brace : rest.head? ≠ some '\x7b') (c : Char) (text : List Char) :
    Literal.opensCode c (text ++ rest) = Literal.opensCode c text := by
  cases text with
  | nil => simp [Literal.opensCode, brace]
  | cons d more => rfl

theorem readBody_append (brace : rest.head? ≠ some '\x7b') (brace' : rest'.head? ≠ some '\x7b')
    {marks : Literal.Delimiters} {skip depth : Nat} {pos : Position} (pos' : Position) {text body after : List Char}
    (h : Literal.readBody marks skip depth pos (text ++ rest) = .ok (body, after ++ rest)) :
    Literal.readBody marks skip depth pos' (text ++ rest') = .ok (body, after ++ rest') := by
  induction text generalizing skip depth pos pos' body with
  | nil =>
    have := readBody_length h
    simp only [List.nil_append, List.length_append] at this
    omega
  | cons c more ih =>
    have go {skip depth : Nat} (h : (Literal.readBody marks skip depth (pos.after c) (more ++ rest)).map
        (fun read => (c :: read.1, read.2)) = .ok (body, after ++ rest)) :
        skip < more.length ∧ (Literal.readBody marks skip depth (pos'.after c) (more ++ rest')).map
          (fun read => (c :: read.1, read.2)) = .ok (body, after ++ rest') := by
      obtain ⟨⟨inner, behind⟩, hinner, eq⟩ := map_eq_ok_iff.1 h
      obtain ⟨rfl, rfl⟩ := Prod.mk.inj eq
      have bound := readBody_length hinner
      simp only [List.length_append] at bound
      exact ⟨by omega, map_eq_ok_iff.2 ⟨_, ih (pos'.after c) hinner, rfl⟩⟩
    rw [List.cons_append] at h ⊢
    unfold Literal.readBody at h ⊢
    cases skip with
    | succ skip => exact (go h).2
    | zero =>
      dsimp only at h ⊢
      rw [opensCode_append brace] at h
      rw [opensCode_append brace']
      split at h
      · rename_i escape
        rw [if_pos escape]
        exact (go h).2
      · rename_i plain
        rw [if_neg plain]
        split at h
        · rename_i embeds
          rw [if_pos embeds]
          have some : more ≠ [] := by
            rintro rfl
            simp [Literal.opensCode] at embeds
          rw [List.tail_append_of_ne_nil some] at h ⊢
          split at h
          · rename_i length found
            obtain ⟨bound, same⟩ := go h
            have short : length < more.tail.length := by
              rw [List.length_tail]
              omega
            have alone := (codeLengthFrom_append 0 0 length none more.tail rest short).1 found
            have found' : Literal.codeLength (more.tail ++ rest') = Option.some length :=
              (codeLengthFrom_append 0 0 length none more.tail rest' short).2 alone
            rw [found']
            exact same
          · contradiction
        · rename_i text
          rw [if_neg text]
          split at h
          · rename_i opens
            rw [if_pos opens]
            exact (go h).2
          · rename_i inside
            rw [if_neg inside]
            split at h
            · rename_i closes
              rw [if_pos closes]
              cases depth with
              | zero =>
                obtain ⟨rfl, eq⟩ := Prod.mk.inj (Except.ok.inj h)
                rw [List.append_cancel_right eq]
              | succ depth => exact (go h).2
            · rename_i inner
              rw [if_neg inner]
              exact (go h).2

/-! Segments -/

abbrev Reader := List Char → Position → Except Malformed (List Token)

/-- Where one reads code shorter than a bound, the other reads the same tokens, wherever they stand. -/
def Refines (bound : Nat) (code code' : Reader) : Prop :=
  ∀ text pos pos' tokens, text.length < bound → code text pos = .ok tokens →
    ∃ tokens', code' text pos' = .ok tokens' ∧ unplaced tokens' = unplaced tokens

abbrev unplacedSegments : List (Segment Token) → List (Segment Token) :=
  List.map (placeSegment nowhere)

theorem consText_place (f : Position → Position) (c : Char) (segments : List (Segment Token)) :
    (Literal.consText c segments).map (placeSegment f) = Literal.consText c (segments.map (placeSegment f)) := by
  cases segments with
  | nil => rfl
  | cons segment more => cases segment <;> rfl

theorem foldr_consText_place (f : Position → Position) (text : List Char) (segments : List (Segment Token)) :
    (text.foldr Literal.consText segments).map (placeSegment f) =
      text.foldr Literal.consText (segments.map (placeSegment f)) := by
  induction text with
  | nil => rfl
  | cons c more ih => rw [List.foldr_cons, List.foldr_cons, consText_place, ih]

variable {code code' : Reader} {bound : Nat}

theorem splitBody_refines (refines : Refines bound code code') {embeds : Bool} {closer : Option Char} {skip : Nat}
    {pos : Position} (pos' : Position) {text : List Char} {segments : List (Segment Token)}
    (short : text.length ≤ bound) (h : Literal.splitBody code embeds closer skip pos text = .ok segments) :
    ∃ segments', Literal.splitBody code' embeds closer skip pos' text = .ok segments' ∧
      unplacedSegments segments' = unplacedSegments segments := by
  induction text generalizing skip pos pos' segments with
  | nil => exact ⟨segments, h, rfl⟩
  | cons c more ih =>
    have less : more.length ≤ bound := by
      rw [List.length_cons] at short
      omega
    have step {skip : Nat} {pos : Position} (pos' : Position) {g : List (Segment Token) → List (Segment Token)}
        (natural : ∀ segments, unplacedSegments (g segments) = g (unplacedSegments segments))
        (h : (Literal.splitBody code embeds closer skip pos more).map g = .ok segments) :
        ∃ segments', (Literal.splitBody code' embeds closer skip pos' more).map g = .ok segments' ∧
          unplacedSegments segments' = unplacedSegments segments := by
      obtain ⟨found, hfound, rfl⟩ := map_eq_ok_iff.1 h
      obtain ⟨found', hfound', same⟩ := ih pos' less hfound
      exact ⟨g found', map_eq_ok_iff.2 ⟨found', hfound', rfl⟩, by rw [natural, natural, same]⟩
    unfold Literal.splitBody at h ⊢
    cases skip with
    | succ skip => exact ih pos' less h
    | zero =>
      dsimp only at h ⊢
      split at h
      · rename_i line
        rw [if_pos line]
        exact step _ (consText_place nowhere c) h
      · rename_i inline
        rw [if_neg inline]
        split at h
        · exact step _ (foldr_consText_place nowhere _) h
        · split at h
          · rename_i opens
            rw [if_pos opens]
            split at h
            · contradiction
            · rename_i length found
              obtain ⟨inner, hinner, h⟩ := bind_eq_ok_iff.1 h
              obtain ⟨others, hothers, h⟩ := bind_eq_ok_iff.1 h
              obtain rfl := pure_eq_ok_iff.1 h
              have within : (more.tail.take length).length < bound := by
                have := codeLengthFrom_lt found
                simp only [List.length_take, List.length_tail, List.length_cons] at this short ⊢
                omega
              obtain ⟨inner', hinner', sameInner⟩ := refines _ _ (pos'.right 2) _ within hinner
              obtain ⟨others', hothers', sameOthers⟩ := ih (pos'.down _) less hothers
              refine ⟨.code inner' pos' :: others', bind_eq_ok_iff.2 ⟨inner', hinner', bind_eq_ok_iff.2
                ⟨others', hothers', rfl⟩⟩, ?_⟩
              simp only [List.map_cons, placeSegment, placeTokens_eq, sameInner, sameOthers, nowhere]
          · rename_i plain
            rw [if_neg plain]
            exact step _ (consText_place nowhere c) h

theorem segments_refines (refines : Refines bound code code') {embeds : Bool} {closer : Option Char} {pos : Position}
    (pos' : Position) {text : List Char} {segments : List (Segment Token)} (short : text.length ≤ bound)
    (h : Literal.segments code embeds closer pos text = .ok segments) :
    ∃ segments', Literal.segments code' embeds closer pos' text = .ok segments' ∧
      unplacedSegments segments' = unplacedSegments segments := by
  obtain ⟨found, hfound, rfl⟩ := map_eq_ok_iff.1 h
  obtain ⟨found', hfound', same⟩ := splitBody_refines refines pos' short hfound
  refine ⟨_, map_eq_ok_iff.2 ⟨found', hfound', rfl⟩, ?_⟩
  have empty : found'.isEmpty = found.isEmpty := by
    simpa using congrArg List.isEmpty same
  rw [empty]
  split
  · rfl
  · exact same

/-! Heredocs -/

theorem takeBody_suffix {opener : Heredoc.Opener} {line text after : List Char} {lines : List (List Char)}
    (h : Heredoc.takeBody opener line text = some (lines, after)) : after <:+ text := by
  induction text generalizing line lines with
  | nil =>
    unfold Heredoc.takeBody at h
    split at h
    · exact (Prod.mk.inj (Option.some.inj h)).2 ▸ List.suffix_refl _
    · contradiction
  | cons c more ih =>
    unfold Heredoc.takeBody at h
    split at h
    · split at h
      · exact (Prod.mk.inj (Option.some.inj h)).2 ▸ List.suffix_cons c more
      · obtain ⟨⟨found, behind⟩, hfound, eq⟩ := Option.map_eq_some_iff.1 h
        obtain ⟨-, rfl⟩ := Prod.mk.inj eq
        exact (ih hfound).trans (List.suffix_cons c more)
    · exact (ih h).trans (List.suffix_cons c more)

/-- A body takes something of a text that is not empty, if only the newline behind its last line. -/
theorem takeBody_length {opener : Heredoc.Opener} {line text after : List Char} {lines : List (List Char)}
    (h : Heredoc.takeBody opener line text = some (lines, after)) (some : text ≠ []) : after.length < text.length := by
  cases text with
  | nil => contradiction
  | cons c more =>
    unfold Heredoc.takeBody at h
    split at h
    · split at h
      · obtain ⟨-, rfl⟩ := Prod.mk.inj (Option.some.inj h)
        simp
      · obtain ⟨⟨found, behind⟩, hfound, eq⟩ := Option.map_eq_some_iff.1 h
        obtain ⟨-, rfl⟩ := Prod.mk.inj eq
        simpa [Nat.lt_succ_iff] using (takeBody_suffix hfound).length_le
    · simpa [Nat.lt_succ_iff] using (takeBody_suffix h).length_le

theorem length_of_takeBody {opener : Heredoc.Opener} {line text after : List Char} {lines : List (List Char)}
    (h : Heredoc.takeBody opener line text = some (lines, after)) :
    lines.flatten.length + after.length ≤ line.length + text.length := by
  induction text generalizing line lines with
  | nil =>
    unfold Heredoc.takeBody at h
    split at h
    · obtain ⟨rfl, rfl⟩ := Prod.mk.inj (Option.some.inj h)
      simp
    · contradiction
  | cons c more ih =>
    unfold Heredoc.takeBody at h
    rw [List.length_cons]
    split at h
    · split at h
      · obtain ⟨rfl, rfl⟩ := Prod.mk.inj (Option.some.inj h)
        simp only [List.flatten_nil, List.length_nil]
        omega
      · obtain ⟨⟨found, behind⟩, hfound, eq⟩ := Option.map_eq_some_iff.1 h
        obtain ⟨rfl, rfl⟩ := Prod.mk.inj eq
        have := ih hfound
        simp only [List.flatten_cons, List.length_append, List.length_reverse, List.length_cons, List.length_nil] at *
        omega
    · have := ih h
      rw [List.length_cons] at this
      omega

theorem length_bodyText_le (opener : Heredoc.Opener) (lines : List (List Char)) :
    (opener.bodyText lines).length ≤ lines.flatten.length := by
  unfold Heredoc.Opener.bodyText
  split
  · obtain ⟨width, behind⟩ := Heredoc.exists_indents_dedent lines
    exact Heredoc.length_flatten_of_indents behind
  · exact Nat.le_refl _

theorem takeBody_append (both : rest = [] ↔ rest' = []) {opener : Heredoc.Opener} {line text after : List Char}
    {lines : List (List Char)} (h : Heredoc.takeBody opener line (text ++ rest) = some (lines, after ++ rest)) :
    Heredoc.takeBody opener line (text ++ rest') = some (lines, after ++ rest') := by
  induction text generalizing line lines with
  | nil =>
    by_cases empty : rest = []
    · have empty' := both.1 empty
      subst empty empty'
      exact h
    · have := takeBody_length h empty
      simp only [List.nil_append, List.length_append] at this
      omega
  | cons c more ih =>
    rw [List.cons_append] at h ⊢
    unfold Heredoc.takeBody at h ⊢
    split at h
    · rename_i line
      rw [if_pos line]
      split at h
      · rename_i closed
        rw [if_pos closed]
        obtain ⟨rfl, eq⟩ := Prod.mk.inj (Option.some.inj h)
        rw [List.append_cancel_right eq]
      · rename_i open'
        rw [if_neg open']
        obtain ⟨⟨found, behind⟩, hfound, eq⟩ := Option.map_eq_some_iff.1 h
        obtain ⟨rfl, rfl⟩ := Prod.mk.inj eq
        exact Option.map_eq_some_iff.2 ⟨_, ih hfound, rfl⟩
    · rename_i inline
      rw [if_neg inline]
      exact ih h

/-! Block comments -/

theorem afterBlockComment_suffix {fresh ending : Bool} {text after : List Char}
    (h : afterBlockComment fresh ending text = some after) : after <:+ text := by
  induction text generalizing fresh ending with
  | nil =>
    unfold afterBlockComment at h
    split at h
    · exact Option.some.inj h ▸ List.suffix_refl _
    · contradiction
  | cons c more ih =>
    unfold afterBlockComment at h
    dsimp only at h
    repeat' split at h
    all_goals first
      | exact Option.some.inj h ▸ List.suffix_cons c more
      | exact (ih h).trans (List.suffix_cons c more)

theorem afterBlockComment_length {fresh ending : Bool} {text after : List Char}
    (h : afterBlockComment fresh ending text = some after) (some : text ≠ []) : after.length < text.length := by
  cases text with
  | nil => contradiction
  | cons c more =>
    have behind : after <:+ more := by
      unfold afterBlockComment at h
      dsimp only at h
      repeat' split at h
      all_goals first
        | exact Option.some.inj h ▸ List.suffix_refl _
        | exact afterBlockComment_suffix h
    simpa [Nat.lt_succ_iff] using behind.length_le

theorem afterBlockComment_append (soft : Soft rest) (soft' : Soft rest') (both : rest = [] ↔ rest' = [])
    {fresh ending : Bool} {text after : List Char}
    (h : afterBlockComment fresh ending (text ++ rest) = some (after ++ rest)) :
    afterBlockComment fresh ending (text ++ rest') = some (after ++ rest') := by
  induction text generalizing fresh ending with
  | nil =>
    by_cases empty : rest = []
    · have empty' := both.1 empty
      subst empty empty'
      exact h
    · have := afterBlockComment_length h empty
      simp only [List.nil_append, List.length_append] at this
      omega
  | cons c more ih =>
    have ends := startsWith_append soft "=end" (by decide) (c :: more)
    have ends' := startsWith_append soft' "=end" (by decide) (c :: more)
    rw [List.cons_append] at h ends ends' ⊢
    unfold afterBlockComment at h ⊢
    rw [ends] at h
    rw [ends']
    dsimp only at h ⊢
    generalize (if fresh then startsWith (c :: more) "=end" else ending) = last at h
    split at h
    · rename_i line
      rw [if_pos line]
      cases last with
      | true => rw [List.append_cancel_right (Option.some.inj h)]; rfl
      | false => exact ih h
    · rename_i inline
      rw [if_neg inline]
      exact ih h

end Formulary.Body

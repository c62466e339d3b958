import Formulary.Proofs.Token.Enclosed

/-!
Where the code in strings stands in a source. Every place is on its line. Its column is right unless it is counted from
code or an escaped newline before it in a literal.
-/

namespace Formulary

open Literal (Item Inset items insets parts)

theorem Position.Notes.inside {pos place : Position} {known : Bool} (notes : pos.Notes known place) :
    (pos.right 2).Notes known (place.past ['#', '\x7b']) :=
  ⟨notes.1, fun h => by rw [notes.2 h]; rfl⟩

/-- Tokens stand in a text, the text in a source behind `before`, and `known` says whether the column it was taken to
begin at is known. The places of the tokens, of the code in their literals and of the tokens of that code, down to a
depth, are noted for what stands there in the source; in a heredoc that lost its margin, for what is left of its
lines. -/
def Located (start : Position) : Nat → Bool → List Char → List Char → List Token → Prop
  | 0, _, _, _, _ => True
  | depth + 1, known, before, text, tokens =>
    ∀ token ∈ tokens, ∃ front spelling behind,
      front ++ spelling ++ behind = text ∧ token.lexeme.Spelled spelling ∧
      token.pos.Notes (known || front.contains '\n') (start.past (before ++ front)) ∧
      (token.lexeme.segments ≠ [] → ∃ opened body embeds, Encloses text front opened body embeds ∧
        List.Forall₂ (fun (part : List Token × Position) (inset : Inset) =>
            let known := inset.before.foldl Item.knows (known || opened.contains '\n')
            let here := inset.before.flatMap Item.text
            (∃ behind, here ++ (Item.code inset.code).text ++ behind = body) ∧
              part.2.Notes known (start.past (before ++ opened ++ here)) ∧
              Located start depth known (before ++ opened ++ here ++ ['#', '\x7b']) inset.code part.1)
          (parts token.lexeme.segments) (insets (if embeds then items 0 body else [])))

theorem forall₂_and_right {α β : Type} {R : α → β → Prop} {P : β → Prop} {xs : List α} {ys : List β}
    (all : ∀ y ∈ ys, P y) (h : List.Forall₂ R xs ys) : List.Forall₂ (fun x y => P y ∧ R x y) xs ys :=
  ((List.forall₂_and_left ys xs).2 ⟨all, h.flip⟩).flip

theorem located_tokensWithin {start pos : Position} {nested depth : Nat} {known : Bool} {before text : List Char}
    {tokens : List Token} (notes : pos.Notes known (start.past before))
    (read : Scan.tokensWithin nested text pos = .ok tokens) : Located start depth known before text tokens := by
  induction depth generalizing nested pos known before text tokens with
  | zero => trivial
  | succ depth ih =>
    cases nested with
    | zero => contradiction
    | succ nested =>
      intro token member
      obtain ⟨front, spelling, behind, whole, counted, spelled, literal⟩ := Scan.readFrom_tokensWithin read token member
      refine ⟨front, spelling, behind, whole, spelled, ?_, fun some => ?_⟩
      · rw [← counted, Position.past_append]
        exact notes.past front
      obtain ⟨opened, body, embeds, closer, encloses, hfound⟩ := literal some
      have stand : ∀ inset ∈ insets (if embeds then items 0 body else []),
          ∃ behind, inset.before.flatMap Item.text ++ (Item.code inset.code).text ++ behind = body := by
        intro inset among
        cases embeds with
        | true => exact Literal.stands_of_mem_insets among
        | false => contradiction
      refine ⟨opened, body, embeds, encloses, (forall₂_and_right stand (Literal.parts_of_segments hfound)).imp ?_⟩
      rintro part inset ⟨stands, here, inner⟩
      have placed := Literal.foldl_noted_notes (notes.past opened) inset.before
      rw [← here, ← Position.past_append, ← Position.past_append, ← List.append_assoc] at placed
      refine ⟨stands, placed, ih ?_ inner⟩
      rw [Position.past_append]
      exact placed.inside

/-- In every string that embeds code, at any depth, the code and its tokens are noted on their lines, and at their
columns if no code and no escaped newline stands before them on their line of a literal. -/
theorem tokenize_located {text : List Char} {start : Position} {tokens : List Token}
    (read : tokenize text start = .ok tokens) (depth : Nat) : Located start depth true [] text tokens :=
  located_tokensWithin (Position.notes_self start true) read

theorem tokenize_located_nested :
    let text := "f \"p#\x7bg \"q#\x7bh\x7d\"\x7d\", <<-E\n  r#\x7bk\x7d\nE\n".toList
    ∃ tokens, tokenize text .origin = .ok tokens ∧ ∀ depth, Located .origin depth true [] text tokens := by
  intro text
  have accepted : (tokenize text .origin).toOption.isSome = true := by decide +kernel
  obtain ⟨tokens, read⟩ := Result.exists_ok_of_isSome accepted
  exact ⟨tokens, read, tokenize_located read⟩

/-- Whether a part of a string is code that is noted at a place. -/
def Segment.isCodeAt (pos : Position) : Segment Token → Bool
  | .text _ => false
  | .code _ place => place = pos

/-- Behind code the column is still that of the code, so that the second piece of code in a string is noted where none
begins. -/
theorem exists_misplaced_code :
    ∃ text tokens token inner pos, tokenize text .origin = .ok tokens ∧ token ∈ tokens ∧
      .code inner pos ∈ token.lexeme.segments ∧
      ∀ before behind, before ++ '#' :: '\x7b' :: behind = text → Position.origin.past before ≠ pos := by
  let text := "\"#\x7ba\x7d #\x7bb\x7d\"".toList
  have holds : (tokenize text .origin).toOption.any (fun tokens => tokens.any fun token =>
      token.lexeme.segments.any (Segment.isCodeAt ⟨1, 3⟩)) = true := by decide +kernel
  have elsewhere : ∀ n ≤ text.length, (text.drop n).take 2 = ['#', '\x7b'] →
      Position.origin.past (text.take n) ≠ ⟨1, 3⟩ := by decide
  obtain ⟨tokens, accepted, holds⟩ := (Option.any_eq_true ..).1 holds
  obtain ⟨token, member, holds⟩ := List.any_eq_true.1 holds
  obtain ⟨segment, within, here⟩ := List.any_eq_true.1 holds
  cases segment with
  | text _ => exact (Bool.false_ne_true here).elim
  | code inner pos =>
    obtain rfl : pos = ⟨1, 3⟩ := of_decide_eq_true here
    refine ⟨text, tokens, token, inner, _, Result.toOption_eq_some_iff.1 accepted, member, within, ?_⟩
    intro before behind whole
    have place := elsewhere before.length (by rw [← whole, List.length_append]; exact Nat.le_add_right _ _)
    rw [← whole, List.drop_left, List.take_left] at place
    exact place rfl

end Formulary

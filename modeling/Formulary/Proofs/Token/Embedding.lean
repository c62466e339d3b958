import Formulary.Proofs.Token.Passes
import Formulary.Proofs.Token.Quotation

/-!
Code in a string. The brace that ends the code is looked for once to find the end of the string and once to part its
body, and both times the code is what stands before it. Its tokens are those of a text of its own.
-/

namespace Formulary

/-- A string of nothing but code. -/
def interpolated (code : List Char) : List Char :=
  '"' :: '#' :: '\x7b' :: (code ++ ['\x7d', '"'])

/-- In a string of this code the brace that ends the code is the one right behind it. -/
def Braced (code : List Char) : Prop :=
  Literal.codeLength (code ++ ['\x7d', '"']) = some code.length

instance : DecidablePred Braced :=
  fun _ => inferInstanceAs (Decidable (_ = _))

namespace Literal

open Body Result

variable {code : List Char} {read : Reader} {closer : Option Char} {pos : Position}

theorem readBody_braced (braced : Braced code) : readBody ⟨none, '"', true⟩ 0 0 pos
    ('#' :: '\x7b' :: (code ++ ['\x7d', '"'])) = .ok ('#' :: '\x7b' :: (code ++ ['\x7d']), []) := by
  have ends (pos : Position) : readBody ⟨none, '"', true⟩ 0 0 pos ['"'] = .ok ([], []) :=
    readBody_closer (by decide) (by decide) nofun
  rw [readBody_code rfl braced, ends]
  simp [Except.map, Item.text]

theorem splitBody_braced (braced : Braced code) :
    splitBody read true closer 0 pos ('#' :: '\x7b' :: (code ++ ['\x7d'])) =
    (read code (pos.right 2)).map fun inner => [.code inner pos] := by
  have short : code.length < (code ++ ['\x7d']).length := by simp
  have closes : codeLength (code ++ ['\x7d']) = some code.length := by
    refine (codeLengthFrom_append 0 0 code.length none (code ++ ['\x7d']) ['"'] short).1 ?_
    rw [List.append_assoc]
    exact braced
  rw [splitBody_code closes]
  cases read code (pos.right 2) <;> rfl

end Literal

namespace Scan

open Body Result

variable {code : List Char} {read : Reader} {pos : Position}

theorem plainToken_interpolated (braced : Braced code) : plainToken read (.ofText (interpolated code) pos) '"' =
    (read code ((pos.after '"').right 2)).map fun inner => (.string [.code inner (pos.after '"')], []) := by
  have ends : body ⟨none, '"', true⟩ (Cursor.ofText (interpolated code) pos).next =
      .ok ('#' :: '\x7b' :: (code ++ ['\x7d']), []) := body_eq_ok_iff.2 (Literal.readBody_braced braced)
  have split : Literal.segments read true (some '"') (pos.after '"') ('#' :: '\x7b' :: (code ++ ['\x7d'])) =
      (read code ((pos.after '"').right 2)).map fun inner => [.code inner (pos.after '"')] := by
    rw [Literal.segments, Literal.splitBody_braced braced, map_map]
    rfl
  have all : literal read ⟨none, '"', true⟩ (Cursor.ofText (interpolated code) pos).next =
      (read code ((pos.after '"').right 2)).map fun inner => ([.code inner (pos.after '"')], []) := by
    rw [literal, ends]
    change (Literal.segments read true (some '"') (pos.after '"') _ >>= _) = _
    rw [split]
    cases read code ((pos.after '"').right 2) <;> rfl
  refine (congrArg (· >>= _) all).trans ?_
  cases read code ((pos.after '"').right 2) <;> rfl

end Scan

open Scan Body in
/-- The tokens of a string of code: one string of the tokens that the code has by itself. -/
theorem tokenize_interpolated {code : List Char} (braced : Braced code) :
    (tokenize (interpolated code) .origin).toOption.map unplaced = (tokenize code .origin).toOption.map fun inner =>
      unplaced [⟨.string [.code inner .origin], .origin, true⟩, ⟨.endOfText, .origin, true⟩] := by
  have longer : code.length + 1 ≤ (interpolated code).length := by simp [interpolated]
  have opens : '"' ∈ ['"', '\'', '%'] := by decide
  have plain : plainToken (tokensWithin (interpolated code).length) (.ofText (interpolated code) .origin) '"' = _ :=
    plainToken_interpolated braced
  cases read : tokensWithin (interpolated code).length code ((Position.origin.after '"').right 2) with
  | ok inner =>
    rw [read] at plain
    obtain ⟨inner', read', same⟩ := refines_tokensWithin (code.length + 1) (interpolated code).length (code.length + 1)
      (Nat.le_refl _) _ _ .origin _ (Nat.lt_succ_self _) read
    have alone : tokenize code .origin = .ok inner' := read'
    have whole : tokenize (interpolated code) .origin = .ok _ := tokenize_of_plainToken opens plain
    rw [whole, alone]
    have inside : unplaced inner = unplaced inner' := same.symm
    simp only [Except.toOption, Option.map_some, List.map_cons, List.map_nil, Token.place_eq, Lexeme.place, placeSegment,
      placeTokens_eq, inside]
    rfl
  | error fault =>
    rw [read] at plain
    have stops : tokenize (interpolated code) .origin = .error fault := tokenize_of_plainToken_error opens plain
    rw [stops]
    cases alone : tokenize code .origin with
    | error fault' => rfl
    | ok inner =>
      obtain ⟨inner', read', -⟩ := refines_tokensWithin (code.length + 1) (code.length + 1) (interpolated code).length
        longer _ _ ((Position.origin.after '"').right 2) _ (Nat.lt_succ_self _) alone
      rw [read'] at read
      contradiction

end Formulary

import Formulary.Grammar.Literal
import Mathlib.Data.List.Chain

/-!
The normal form of a string. Texts that stand side by side are joined and empty ones left out, so a string in normal
form is known from its characters and its code. Joining some of the literals of a run first makes no difference.
-/

namespace Formulary

namespace Piece

variable {ν : Type}

def text? : Piece ν → Option String
  | text value => some value
  | code _ _ => none

/-- The characters of a text, or code as it is. -/
def letters : Piece ν → List (Char ⊕ Position × List ν)
  | text value => value.toList.map .inl
  | code pos body => [.inr (pos, body)]

theorem letters_eq_nil_iff {piece : Piece ν} : piece.letters = [] ↔ piece = .text "" := by
  cases piece <;> simp [letters]

end Piece

namespace Grammar

/-- The texts of a string, with `none` in the place of code: no two are side by side, and an empty one is alone. -/
structure NormalTexts (texts : List (Option String)) : Prop where
  apart : texts.IsChain fun text next => text = none ∨ next = none
  filled : some "" ∈ texts → texts = [some ""]

/-- The texts of a string of which no two are side by side and none is empty. -/
structure Joined (texts : List (Option String)) : Prop where
  apart : texts.IsChain fun text next => text = none ∨ next = none
  filled : some "" ∉ texts

theorem NormalTexts.lone (value : String) : NormalTexts [some value] :=
  ⟨.singleton _, fun mem => by rw [List.mem_singleton.1 mem]⟩

variable {pieces others : List (Piece Node)}

/-- A text in front of some pieces. -/
def addText (value : String) : List (Piece Node) → List (Piece Node)
  | .text more :: rest => .text (value ++ more) :: rest
  | rest => .text value :: rest

theorem addText_addText (value more : String) (pieces : List (Piece Node)) :
    addText value (addText more pieces) = addText (value ++ more) pieces := by
  match pieces with
  | .text last :: rest => simp [addText, String.append_assoc]
  | [] | .code _ _ :: rest => rfl

theorem joinTexts_text (value : String) (rest : List (Piece Node)) :
    joinTexts (.text value :: rest) = if value.isEmpty then joinTexts rest else addText value (joinTexts rest) := by
  rw [joinTexts]
  rfl

/-- The pieces of a string from its characters and its code. -/
def regroup : List (Char ⊕ Position × List Node) → List (Piece Node)
  | [] => []
  | .inl c :: rest => addText (String.singleton c) (regroup rest)
  | .inr (pos, body) :: rest => .code pos body :: regroup rest

theorem regroup_letters (c : Char) (word : List Char) (rest : List (Char ⊕ Position × List Node)) :
    regroup ((c :: word).map .inl ++ rest) = addText (String.ofList (c :: word)) (regroup rest) := by
  induction word generalizing c with
  | nil => rfl
  | cons d word ih =>
    rw [List.map_cons, List.cons_append, regroup, ih, addText_addText, ← String.ofList_cons]

/-- Pieces are joined by their characters and their code alone. -/
theorem joinTexts_eq_regroup (pieces : List (Piece Node)) :
    joinTexts pieces = regroup (pieces.flatMap Piece.letters) := by
  induction pieces with
  | nil => rfl
  | cons piece rest ih =>
    rw [List.flatMap_cons]
    cases piece with
    | code pos body => rw [joinTexts, ih]; rfl
    | text value =>
      rw [joinTexts_text, ih, Piece.letters]
      cases word : value.toList with
      | nil =>
        obtain rfl := String.toList_eq_nil_iff.1 word
        rfl
      | cons c word' =>
        have filled : value ≠ "" := fun empty => by rw [empty] at word; cases word
        rw [regroup_letters, ← word, String.ofList_toList, if_neg (by simpa using filled)]

theorem letters_addText (value : String) (pieces : List (Piece Node)) :
    (addText value pieces).flatMap Piece.letters = value.toList.map .inl ++ pieces.flatMap Piece.letters := by
  match pieces with
  | .text more :: rest => simp [addText, Piece.letters]
  | [] | .code _ _ :: rest => rfl

/-- Joining keeps the characters and the code. -/
theorem letters_joinTexts (pieces : List (Piece Node)) :
    (joinTexts pieces).flatMap Piece.letters = pieces.flatMap Piece.letters := by
  induction pieces with
  | nil => rfl
  | cons piece rest ih =>
    cases piece with
    | code pos body => rw [joinTexts, List.flatMap_cons, ih, List.flatMap_cons]
    | text value =>
      rw [joinTexts_text, List.flatMap_cons, Piece.letters]
      split
      · rename_i empty
        obtain rfl : value = "" := by simpa using empty
        exact ih
      · rw [letters_addText, ih]

theorem joinTexts_eq_nil_iff : joinTexts pieces = [] ↔ pieces.flatMap Piece.letters = [] := by
  constructor
  · intro none
    rw [← letters_joinTexts, none]
    rfl
  · intro none
    rw [joinTexts_eq_regroup, none]
    rfl

theorem joined_code (h : Joined (pieces.map Piece.text?)) (pos : Position) (body : List Node) :
    Joined ((.code pos body :: pieces).map Piece.text?) :=
  ⟨List.isChain_cons.2 ⟨fun _ _ => .inl rfl, h.apart⟩, by simpa [Piece.text?] using h.filled⟩

theorem joined_addText (h : Joined (pieces.map Piece.text?)) {value : String} (filled : value ≠ "") :
    Joined ((addText value pieces).map Piece.text?) := by
  match pieces with
  | [] => exact ⟨.singleton _, by simpa [addText, Piece.text?] using filled.symm⟩
  | .text more :: rest =>
    obtain ⟨beside, apart⟩ := List.isChain_cons.1 h.apart
    refine ⟨List.isChain_cons.2 ⟨fun next mem => (beside next mem).imp_left nofun, apart⟩, ?_⟩
    have others : some "" ∉ rest.map Piece.text? := fun mem => h.filled (List.mem_cons_of_mem _ mem)
    exact List.not_mem_cons_of_ne_of_not_mem (by simp [Piece.text?, filled]) others
  | .code pos body :: rest =>
    refine ⟨List.isChain_cons.2 ⟨fun next mem => .inr (Option.some.inj mem).symm, h.apart⟩, ?_⟩
    exact List.not_mem_cons_of_ne_of_not_mem (by simp [Piece.text?, filled.symm]) h.filled

theorem joined_joinTexts (pieces : List (Piece Node)) : Joined ((joinTexts pieces).map Piece.text?) := by
  induction pieces with
  | nil => exact ⟨.nil, List.not_mem_nil⟩
  | cons piece rest ih =>
    cases piece with
    | code pos body => exact joined_code ih pos body
    | text value =>
      rw [joinTexts_text]
      split
      · exact ih
      · rename_i filled
        exact joined_addText ih (by simpa using filled)

theorem joinTexts_eq_self (h : Joined (pieces.map Piece.text?)) : joinTexts pieces = pieces := by
  induction pieces with
  | nil => rfl
  | cons piece rest ih =>
    obtain ⟨beside, apart⟩ := List.isChain_cons.1 h.apart
    have behind := ih ⟨apart, fun mem => h.filled (List.mem_cons_of_mem _ mem)⟩
    cases piece with
    | code pos body => rw [joinTexts, behind]
    | text value =>
      have filled : value ≠ "" := fun empty => h.filled (by rw [empty]; exact List.mem_cons_self)
      rw [joinTexts_text, behind, if_neg (by simpa using filled)]
      match rest with
      | [] | .code _ _ :: _ => rfl
      | .text more :: _ => simp [Piece.text?] at beside

/-! Normal pieces -/

theorem NormalTexts.joined_or (h : NormalTexts (pieces.map Piece.text?)) :
    Joined (pieces.map Piece.text?) ∨ pieces = [.text ""] := by
  by_cases empty : some "" ∈ pieces.map Piece.text?
  · obtain ⟨piece, rfl, text⟩ := List.map_eq_singleton_iff.1 (h.filled empty)
    cases piece with
    | text value => exact .inr (by rw [Option.some.inj text])
    | code _ _ => cases text
  · exact .inl ⟨h.apart, empty⟩

/-- Pieces in normal form are known from their characters and their code, if it is known that there are any. -/
theorem NormalTexts.eq_of_letters (h : NormalTexts (pieces.map Piece.text?)) (h' : NormalTexts (others.map Piece.text?))
    (same : pieces.flatMap Piece.letters = others.flatMap Piece.letters) (any : pieces = [] ↔ others = []) :
    pieces = others := by
  have blank {pieces : List (Piece Node)} (joined : Joined (pieces.map Piece.text?))
      (none : pieces.flatMap Piece.letters = []) : pieces = [] := by
    rw [← joinTexts_eq_self joined, joinTexts_eq_nil_iff, none]
  obtain joined | rfl := h.joined_or <;> obtain joined' | rfl := h'.joined_or
  · rw [← joinTexts_eq_self joined, ← joinTexts_eq_self joined', joinTexts_eq_regroup, same, ← joinTexts_eq_regroup]
  · exact absurd (any.1 (blank joined same)) nofun
  · exact absurd (any.2 (blank joined' same.symm)) nofun
  · rfl

theorem normalPieces_eq (pieces : List (Piece Node)) :
    normalPieces pieces = if pieces.flatMap Piece.letters = [] then pieces.take 1 else joinTexts pieces := by
  rw [normalPieces]
  simp only [List.isEmpty_iff, joinTexts_eq_nil_iff]

/-- The first piece alone of those that are all empty. -/
theorem take_one_of_letters (none : pieces.flatMap Piece.letters = []) :
    pieces = [] ∨ pieces.take 1 = [.text ""] := by
  cases pieces with
  | nil => exact .inl rfl
  | cons piece rest =>
    rw [List.flatMap_cons, List.append_eq_nil_iff, Piece.letters_eq_nil_iff] at none
    exact .inr (by rw [none.1]; rfl)

theorem normal_normalPieces (pieces : List (Piece Node)) : NormalTexts ((normalPieces pieces).map Piece.text?) := by
  rw [normalPieces_eq]
  split
  · rename_i none
    obtain rfl | one := take_one_of_letters none
    · exact ⟨.nil, nofun⟩
    · rw [one]
      exact ⟨.singleton _, fun _ => rfl⟩
  · exact ⟨(joined_joinTexts pieces).apart, fun mem => absurd mem (joined_joinTexts pieces).filled⟩

theorem letters_normalPieces (pieces : List (Piece Node)) :
    (normalPieces pieces).flatMap Piece.letters = pieces.flatMap Piece.letters := by
  rw [normalPieces_eq]
  split
  · rename_i none
    obtain rfl | one := take_one_of_letters none
    · rfl
    · rw [one, none]
      rfl
  · exact letters_joinTexts pieces

theorem normalPieces_eq_nil_iff : normalPieces pieces = [] ↔ pieces = [] := by
  rw [normalPieces_eq]
  split
  · simp
  · rename_i some
    rw [joinTexts_eq_nil_iff, iff_false_left some]
    rintro rfl
    exact some rfl

/-- What the normal form of a string is: it has the characters and the code of the string, and if the string has any
pieces, so has it. -/
theorem eq_normalPieces_iff : others = normalPieces pieces ↔ NormalTexts (others.map Piece.text?) ∧
    others.flatMap Piece.letters = pieces.flatMap Piece.letters ∧ (others = [] ↔ pieces = []) := by
  constructor
  · rintro rfl
    exact ⟨normal_normalPieces pieces, letters_normalPieces pieces, normalPieces_eq_nil_iff⟩
  · rintro ⟨normal, same, any⟩
    exact normal.eq_of_letters (normal_normalPieces pieces) (same.trans (letters_normalPieces pieces).symm)
      (any.trans normalPieces_eq_nil_iff.symm)

/-- Groups of pieces may be brought into normal form first. -/
theorem normalPieces_groups (groups : List (List (Piece Node))) :
    normalPieces (groups.map normalPieces).flatten = normalPieces groups.flatten := by
  have letters : (groups.map normalPieces).flatten.flatMap Piece.letters = groups.flatten.flatMap Piece.letters := by
    induction groups with
    | nil => rfl
    | cons group more ih =>
      rw [List.map_cons, List.flatten_cons, List.flatten_cons, List.flatMap_append, List.flatMap_append, ih,
        letters_normalPieces]
  have any : (groups.map normalPieces).flatten = [] ↔ groups.flatten = [] := by
    simp [List.flatten_eq_nil_iff, normalPieces_eq_nil_iff]
  exact eq_normalPieces_iff.2 ⟨normal_normalPieces _, (letters_normalPieces _).trans letters,
    normalPieces_eq_nil_iff.trans any⟩

end Grammar

end Formulary

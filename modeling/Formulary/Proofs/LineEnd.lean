import Formulary.Proofs.Grammar.Program
import Formulary.Proofs.LineEnd.Scan

/-! A recipe means the same whether its lines end with a newline or with a carriage return and a newline. -/

namespace Formulary

open Body Result Scan LineEnd

/-- No newline lies in a literal, in a variable or in the body of a heredoc. -/
def Unbroken (source : List Char) : Prop :=
  ∀ state, Visits source state → '\n' ∉ held state

/-- No line ends with a sign that means something else in front of a carriage return. -/
def ReturnsSeen (source : List Char) : Prop :=
  ∀ state, Visits source state → overlooksReturn state = false

variable {source : List Char}

theorem mutual_tokensWithin {bound depth depth' : Nat} (deep : bound ≤ depth) (deep' : bound ≤ depth') :
    Mutual bound (tokensWithin depth) (tokensWithin depth') :=
  ⟨refines_tokensWithin bound depth depth' deep', refines_tokensWithin bound depth' depth deep⟩

/-- The tokens of a text are the same but for positions, whichever way its lines end. -/
theorem tokenize_crlf (plain : '\r' ∉ source) (unbroken : Unbroken source) (seen : ReturnsSeen source) :
    (tokenize (crlf source) .origin).toOption.map unplaced = (tokenize source .origin).toOption.map unplaced := by
  have readers : Mutual source.length (tokensWithin source.length) (tokensWithin (crlf source).length) :=
    mutual_tokensWithin (Nat.le_refl _) (length_le_crlf source)
  have start : Near (.ofText source .origin) (.ofText (crlf source) .origin) := .inl ⟨⟨rfl, rfl⟩, rfl, rfl, rfl⟩
  refine Both.toOption_map_eq ((run_crlf readers start (Nat.lt_succ_self _) (Nat.lt_succ_self _) plain
    (Nat.le_refl _) fun tokens bodies last reached => ?_).bind ?_)
  · exact ⟨unbroken last ⟨tokens, bodies, reached⟩, seen last ⟨tokens, bodies, reached⟩⟩
  · rintro ⟨tokens, bodies⟩ ⟨tokens', bodies'⟩ - ⟨sameTokens, sameBodies⟩
    show unplaced (plug tokens' bodies') = unplaced (plug tokens bodies)
    rw [plug_unplaced, plug_unplaced, sameTokens, sameBodies]

/-- A recipe whose lines end with a carriage return and a newline has a tree if it has one with newlines alone, and the
trees are equal but for positions. -/
theorem parseRecipe_crlf (plain : '\r' ∉ source) (unbroken : Unbroken source) (seen : ReturnsSeen source) :
    (parseRecipe (crlf source)).toOption.map (Node.place nowhere) =
      (parseRecipe source).toOption.map (Node.place nowhere) := by
  rw [parseRecipe_unplaced, parseRecipe_unplaced, tokenize_crlf plain unbroken seen]

theorem parseRecipe_crlf_chained :
    let source := "class A < B # c\n  f :x, y: %w[p q]\n=begin\nz\n=end\n  g(<<~E, 4 / 2)\nE\n\n    .h\nend\n".toList
    (parseRecipe source).toOption.isSome = true ∧ (parseRecipe (crlf source)).toOption.map (Node.place nowhere) =
      (parseRecipe source).toOption.map (Node.place nowhere) := by
  intro source
  have holds : (trail (tokensWithin source.length) (source.length + 1) (.ofText source .origin)).all
      (fun state => !(held state).contains '\n' && !overlooksReturn state) = true := by decide +kernel
  have along (state : State) (visits : Visits source state) : '\n' ∉ held state ∧ overlooksReturn state = false := by
    simpa using of_trail holds state visits
  exact ⟨by decide +kernel, parseRecipe_crlf (by decide) (fun state visits => (along state visits).1)
    fun state visits => (along state visits).2⟩

/-- A division whose line ends with its sign is none with a carriage return behind the sign. -/
theorem exists_parseRecipe_crlf_ne : ∃ source, '\r' ∉ source ∧ Unbroken source ∧
    (parseRecipe (crlf source)).toOption.map (Node.place nowhere) ≠
      (parseRecipe source).toOption.map (Node.place nowhere) := by
  let source := "a /\n2".toList
  have holds : (trail (tokensWithin source.length) (source.length + 1) (.ofText source .origin)).all
      (fun state => !(held state).contains '\n') = true := by decide +kernel
  refine ⟨source, by decide, fun state visits => by simpa using of_trail holds state visits, fun same => ?_⟩
  have both := congrArg Option.isSome same
  revert both
  decide +kernel

end Formulary

import Formulary.Proofs.Grammar.Delimited

/-! The arguments of a call are read one by one, and its pairs become a last argument. -/

namespace Formulary.Grammar

variable {state after : State} {named : Bool}

/-- Items between commas, each read as an argument. A pair among them is followed by no plain expression. -/
inductive Listed : Bool → State → List (Node ⊕ Node × Node) → State → Prop
  | last {named : Bool} {state after : State} {item : Node ⊕ Node × Node} :
      Yields (argument · named) state item after → after.next.lexeme.isComma = false → Listed named state [item] after
  | cons {named : Bool} {state mid after : State} {item : Node ⊕ Node × Node} {items : List (Node ⊕ Node × Node)} :
      Yields (argument · named) state item mid → mid.next.lexeme.isComma = true →
      Listed (named || item.isRight) (mid.on (mid.ahead.tail.dropWhile (·.lexeme.isNewline))) items after →
      Listed named state (item :: items) after

/-- The arguments that items make up: the nodes in order, and behind them one hash of all pairs, in order. -/
def collected (items : List (Node ⊕ Node × Node)) : List Node :=
  match items.filterMap Sum.getRight? with
  | [] => items.filterMap Sum.getLeft?
  | (key, value) :: pairs => items.filterMap Sum.getLeft? ++ [.hash key.pos ((key, value) :: pairs) false]

theorem yields_argument {fuel : Nat} {item : Node ⊕ Node × Node}
    (run : (argument (rule fuel) named).run state = .ok (item, after)) :
    Yields (argument · named) state item after := by
  refine Filter.eventually_atTop.2 ⟨fuel, fun more le => ?_⟩
  have refines : RefinesRules (rule fuel) (rule more) := refines_rule le
  exact Lifting.lifted_argument refines.lifted named run

/-- Arguments are a single item, or an item, a comma and more arguments. -/
theorem arguments_eq (parse : Rules) : arguments parse none named = (do
    let item ← argument parse named
    if ← check Lexeme.isComma then
      discard advance
      skipNewlines
      withItem item <$> parse (.arguments none (named || item.isRight))
    else return withItem item ([], [])) := by
  rw [arguments]
  refine bind_congr fun item => bind_congr fun goOn => ?_
  cases goOn <;> cases item <;> rfl

theorem listed_of_arguments {fuel : Nat} {found : List Node × List (Node × Node)}
    (run : (rule fuel (.arguments none named)).run state = .ok (found, after)) :
    ∃ items, Listed named state items after ∧
      found = (items.filterMap Sum.getLeft?, items.filterMap Sum.getRight?) := by
  induction fuel generalizing named state found with
  | zero => cases run
  | succ fuel ih =>
    change (arguments (rule fuel) none named).run state = _ at run
    rw [arguments_eq] at run
    obtain ⟨item, mid, first, run⟩ := run_bind_eq_ok_iff.1 run
    have read := yields_argument first
    rw [run_bind_of_ok (run_check mid _)] at run
    cases comma : mid.next.lexeme.isComma with
    | false =>
      rw [comma] at run
      obtain ⟨rfl, rfl⟩ := Prod.mk.inj (Except.ok.inj run)
      exact ⟨[item], .last read comma, by cases item <;> rfl⟩
    | true =>
      rw [comma, if_pos rfl, run_bind_of_ok (run_discard_advance mid), skipNewlines, run_bind_of_ok (run_skipWhile _ _),
        StateT.run_map] at run
      obtain ⟨⟨more, last⟩, rest, same⟩ := Result.map_eq_ok_iff.1 run
      obtain ⟨rfl, rfl⟩ := Prod.mk.inj same
      obtain ⟨items, listed, rfl⟩ := ih rest
      exact ⟨item :: items, .cons read comma listed, by cases item <;> rfl⟩

/-- The arguments of a command are those that its items make up. -/
theorem listed_of_argumentList {fuel : Nat} {args : List Node}
    (run : (argumentList (rule fuel) none).run state = .ok (args, after)) :
    ∃ items, Listed false state items after ∧ args = collected items := by
  obtain ⟨⟨nodes, pairs⟩, mid, read, run⟩ := run_bind_eq_ok_iff.1 run
  obtain ⟨items, listed, same⟩ := listed_of_arguments read
  obtain ⟨rfl, rfl⟩ := Prod.mk.inj same
  refine ⟨items, ?_⟩
  rw [collected]
  cases pairs : items.filterMap Sum.getRight? with
  | nil =>
    rw [pairs] at run
    cases run
    exact ⟨listed, rfl⟩
  | cons pair rest =>
    rw [pairs] at run
    cases run
    exact ⟨listed, rfl⟩

end Formulary.Grammar

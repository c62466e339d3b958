import Formulary.Proofs.Grammar.Quiet
import Formulary.Proofs.Token.Climbing
import Formulary.Proofs.Tree.Lines

/-!
What a parser makes of tokens whose lines never fall. It reads some of them, and what it makes lies between the line
where it begins and that from which the tokens are left.
-/

namespace Formulary

/-- The sides of pairs, in the order of the source. -/
abbrev sides (pairs : List (Node × Node)) : List Node :=
  pairs.flatMap fun pair => [pair.1, pair.2]

/-- Code in a string that does not lie above a line. -/
def CodeBelow (low : Nat) (pieces : List (Piece Node)) : Prop :=
  ∀ code ∈ pieces.filterMap Piece.code?, low ≤ code.line ∧ code.AllLaid

namespace CodeBelow

variable {low mid : Nat} {pieces others : List (Piece Node)}

theorem append (first : CodeBelow low pieces) (rest : CodeBelow low others) : CodeBelow low (pieces ++ others) := by
  unfold CodeBelow
  rw [List.filterMap_append]
  exact List.forall_mem_append.2 ⟨first, rest⟩

theorem below (h : CodeBelow mid pieces) (le : low ≤ mid) : CodeBelow low pieces :=
  fun code mem => ⟨Nat.le_trans le (h code mem).1, (h code mem).2⟩

end CodeBelow

/-- Arguments and pairs, each in order. An argument stands before the pairs if it is not moved there, and no other one
stands behind a pair. -/
structure ArgumentsBetween (low : Nat) (named : Bool) (high : Nat) (found : List Node × List (Node × Node)) : Prop where
  args : Stretch low high found.1
  pairs : Stretch low high (sides found.2)
  first : ∀ pair ∈ found.2.head?, Stretch pair.1.line high (sides found.2)
  before : ∀ arg ∈ found.1, arg.isSpread = true ∨ ∀ side ∈ sides found.2, arg.Precedes side
  spread : named = true → ∀ arg ∈ found.1, arg.isSpread = true

/-- What holds of an argument or a pair. -/
def ItemBetween (low : Nat) (named : Bool) (high : Nat) : Node ⊕ Node × Node → Prop
  | .inl node => node.Fits low high ∧ (named = true → node.isSpread = true)
  | .inr pair => ∃ mid, pair.1.Fits low mid ∧ pair.2.Fits mid high

namespace ArgumentsBetween

variable {low mid high : Nat} {named : Bool} {found : List Node × List (Node × Node)}

theorem none (named : Bool) (low : Nat) : ArgumentsBetween low named low ([], []) where
  args := .nil (Nat.le_refl _)
  pairs := .nil (Nat.le_refl _)
  first := nofun
  before := List.forall_mem_nil _
  spread _ := List.forall_mem_nil _

theorem cons_arg {arg : Node} (h : ItemBetween low named mid (.inl arg))
    (others : ArgumentsBetween mid named high found) : ArgumentsBetween low named high (arg :: found.1, found.2) where
  args := .cons h.1 others.args
  pairs := others.pairs.below h.1.le
  first := others.first
  before := by
    refine List.forall_mem_cons.2 ⟨.inr fun side mem => ?_, others.before⟩
    exact h.1.precedes (others.pairs.fits side mem)
  spread moved := List.forall_mem_cons.2 ⟨h.2 moved, others.spread moved⟩

theorem cons_pair {pair : Node × Node} (h : ItemBetween low named mid (.inr pair))
    (others : ArgumentsBetween mid true high found) : ArgumentsBetween low named high (found.1, pair :: found.2) := by
  obtain ⟨_, key, value⟩ := h
  exact
    { args := others.args.below (Nat.le_trans key.le value.le)
      pairs := .cons key (.cons value others.pairs)
      first := fun _ head => Option.some.inj head ▸ .cons key.tight (.cons value others.pairs)
      before := fun arg mem => .inl (others.spread rfl arg mem)
      spread := fun _ => others.spread rfl }

end ArgumentsBetween

namespace Grammar

variable {α β : Type} {low mid high : Nat}

/-- The tokens do not lie above a line, their lines never fall, and so in the code of strings. -/
structure State.Ascends (low : Nat) (state : State) : Prop where
  ascending : Ascending low (state.ahead ++ [state.final])
  stacked : ∀ token ∈ state.ahead ++ [state.final], token.Stacked

namespace State.Ascends

variable {state after : State}

theorem left (h : state.Ascends low) (fewer : after.ahead <:+ state.ahead) (same : after.final = state.final) :
    after.Ascends low := by
  have behind : after.ahead ++ [after.final] <:+ state.ahead ++ [state.final] := by
    obtain ⟨front, taken⟩ := fewer
    exact ⟨front, by rw [same, ← taken, List.append_assoc]⟩
  exact ⟨h.ascending.suffix behind, fun token mem => h.stacked token (behind.mem mem)⟩

/-- No token lies above the next one. -/
theorem from_next (h : state.Ascends low) : state.Ascends state.next.pos.line := by
  refine ⟨⟨?_, h.ascending.ordered⟩, h.stacked⟩
  have ordered := h.ascending.ordered
  unfold State.next
  generalize state.ahead = ahead at ordered ⊢
  cases ahead with
  | nil => exact List.forall_mem_singleton.2 (Nat.le_refl _)
  | cons token more =>
    rw [List.cons_append, List.map_cons, List.pairwise_cons] at ordered
    exact List.forall_mem_cons.2 ⟨Nat.le_refl _, List.forall_mem_map.1 ordered.1⟩

end State.Ascends

/-- From tokens that do not lie above a line a parser makes something good, which ends at a line above which no token is
left. -/
def Proceeds (low : Nat) (p : Parser α) (good : Nat → α → Prop) : Prop :=
  ∀ ⦃state value after⦄, state.Ascends low → p.run state = .ok (value, after) →
    ∃ high, low ≤ high ∧ good high value ∧ after.Ascends high

namespace Proceeds

variable {p q : Parser α} {good : Nat → α → Prop} {fine : Nat → β → Prop}

theorem quiet (p : Parser α) [quiet : Quiet p] : Proceeds low p fun _ _ => True := by
  intro state value after ascends run
  obtain ⟨fewer, same⟩ := quiet.keeps run
  exact ⟨low, Nat.le_refl _, trivial, ascends.left fewer same⟩

theorem pure {value : α} (h : good low value) : Proceeds low (Pure.pure value) good := by
  intro state value' after ascends run
  obtain ⟨rfl, rfl⟩ := Prod.mk.inj (Except.ok.inj run)
  exact ⟨low, Nat.le_refl _, h, ascends⟩

theorem bind {next : α → Parser β} (h : Proceeds low p good)
    (hnext : ∀ mid value, low ≤ mid → good mid value → Proceeds mid (next value) fine) :
    Proceeds low (p >>= next) fine := by
  intro state value after ascends run
  obtain ⟨first, behind, here, there⟩ := run_bind_eq_ok_iff.1 run
  obtain ⟨mid, le, made, ascends⟩ := h ascends here
  obtain ⟨high, le', made', ascends'⟩ := hnext mid first le made ascends there
  exact ⟨high, Nat.le_trans le le', made', ascends'⟩

theorem imp {weak : Nat → α → Prop} (h : Proceeds low p good)
    (weaker : ∀ high value, low ≤ high → good high value → weak high value) : Proceeds low p weak := by
  intro state value after ascends run
  obtain ⟨high, le, made, ascends⟩ := h ascends run
  exact ⟨high, le, weaker high value le made, ascends⟩

theorem map {f : α → β} (h : Proceeds low p good)
    (made : ∀ high value, low ≤ high → good high value → fine high (f value)) : Proceeds low (f <$> p) fine := by
  rw [map_eq_pure_bind]
  exact h.bind fun mid value le here => .pure (made mid value le here)

theorem some {p : Parser Node} (h : Proceeds low p (Node.Fits low)) :
    Proceeds low (Option.some <$> p) fun high found => Stretch low high found.toList :=
  h.map fun _ _ _ made => .one made

theorem none : Proceeds low (Pure.pure Option.none) fun high (found : Option Node) => Stretch low high found.toList :=
  .pure (.nil (Nat.le_refl _))

theorem empty : Proceeds low (Pure.pure []) (Stretch low) :=
  .pure (.nil (Nat.le_refl _))

/-- Behind a parser of which nothing is used. -/
theorem after [Quiet p] {next : α → Parser β} (h : ∀ value, Proceeds low (next value) fine) :
    Proceeds low (p >>= next) fine := by
  intro state value after ascends run
  obtain ⟨first, behind, here, there⟩ := run_bind_eq_ok_iff.1 run
  obtain ⟨fewer, same⟩ := Quiet.keeps here
  exact h first (ascends.left fewer same) there

theorem throw {fault : ReadError} : Proceeds low (MonadExcept.throw fault : Parser α) good := by
  intro state value after ascends run
  cases run

theorem complainAt {complaint : Complaint} {token : Token} :
    Proceeds low (complainAt complaint token : Parser α) good :=
  throw

theorem complain {complaint : Complaint} : Proceeds low (complain complaint : Parser α) good :=
  .after fun _ => complainAt

theorem ite {test : Prop} {_ : Decidable test} (h : Proceeds low p good) (h' : Proceeds low q good) :
    Proceeds low (if test then p else q) good := by
  split
  · exact h
  · exact h'

/-- What follows begins at the line of the token that is looked at. -/
theorem look {next : Token → Parser β}
    (h : ∀ token, low ≤ token.pos.line → token.Stacked → Proceeds token.pos.line (next token) fine) :
    Proceeds low (peek >>= next) fine := by
  intro state value after ascends run
  obtain ⟨first, behind, here, there⟩ := run_bind_eq_ok_iff.1 run
  obtain ⟨rfl, rfl⟩ := Prod.mk.inj (Except.ok.inj ((run_peek state).symm.trans here))
  have le := ascends.ascending.begins _ state.next_mem
  obtain ⟨high, le', made, ascends⟩ := h state.next le (ascends.stacked _ state.next_mem) ascends.from_next there
  exact ⟨high, Nat.le_trans le le', made, ascends⟩

theorem read {next : Token → Parser β}
    (h : ∀ token, low ≤ token.pos.line → token.Stacked → Proceeds token.pos.line (next token) fine) :
    Proceeds low (advance >>= next) fine := by
  unfold advance
  rw [bind_assoc]
  refine .look fun token le stacked => ?_
  rw [bind_assoc]
  have := Quiet.modify (f := fun state => { state with ahead := state.ahead.tail }) (fun _ => List.tail_suffix _)
    fun _ => rfl
  exact .after fun _ => h token le stacked

theorem mapM {run : β → Parser α} {items : List β} {good : α → Prop}
    (h : ∀ item ∈ items, ∀ mid, low ≤ mid → Proceeds mid (run item) fun _ => good) :
    Proceeds low (items.mapM run) fun _ found => ∀ value ∈ found, good value := by
  induction items generalizing low with
  | nil => exact .pure (List.forall_mem_nil _)
  | cons item rest ih =>
    obtain ⟨here, beside⟩ := List.forall_mem_cons.1 h
    rw [List.mapM_cons]
    refine (here low (Nat.le_refl _)).bind fun mid value le made => ?_
    exact (ih fun item mem higher le' => beside item mem higher (Nat.le_trans le le')).bind fun _ more _ others =>
      .pure (List.forall_mem_cons.2 ⟨made, others⟩)

theorem around {enter : State → State} {leave : State → State → State} (brackets : Brackets enter leave)
    (h : Proceeds low p good) : Proceeds low (around enter leave p) good :=
  have := brackets.quiet_enter
  have := brackets.quiet_leave
  .after fun _ => .after fun _ => h.bind fun _ _ _ made => .after fun _ => .pure made

theorem inScope {hard : Bool} (h : Proceeds low p good) : Proceeds low (inScope hard p) good :=
  .around (.inScope hard) h

theorem enclosed (h : Proceeds low p good) : Proceeds low (enclosed p) good :=
  .around .enclosed h

theorem leavingDo (h : Proceeds low p good) : Proceeds low (leavingDo p) good :=
  .around .leavingDo h

end Proceeds

/-- What a rule is applied to: trees that begin at a line and end above the tokens that are left, or code in a string
that does not lie above the line. -/
def Rule.GivenLaid (start low : Nat) : {α : Type} → Rule α → Prop
  | _, .modifiers node => node.Fits start low
  | _, .connectiveRest left => left.Fits start low
  | _, .binaryRest _ left => left.Fits start low
  | _, .trailers base => base.Fits start low
  | _, .code tokens pos => start ≤ pos.line ∧ Ascending pos.line tokens ∧ ∀ token ∈ tokens, token.Stacked
  | _, _ => True

/-- What a rule makes: from what it is applied to, or else from the line of the tokens on. -/
def Rule.GivesLaid (start low high : Nat) : {α : Type} → Rule α → α → Prop
  | _, .statements _, nodes => Stretch low high nodes
  | _, .whens, nodes => Stretch low high nodes
  | _, .rescues, nodes => Stretch low high nodes
  | _, .exceptions, nodes => Stretch low high nodes
  | _, .arguments _ named, found => ArgumentsBetween low named high found
  | _, .adjacent, pieces => CodeBelow low pieces
  | _, .code _ _, piece => CodeBelow start [piece]
  | _, .pairs, found => Stretch low high (sides found)
  | _, .blockNames, _ => True
  | _, .params _, _ => True
  | _, .targets, _ => True
  | _, .constantNames, _ => True
  | _, .statement, node => node.Fits low high
  | _, .modifiers _, node => node.Fits start high
  | _, .connective, node => node.Fits low high
  | _, .connectiveRest _, node => node.Fits start high
  | _, .negation, node => node.Fits low high
  | _, .expression, node => node.Fits low high
  | _, .choice, node => node.Fits low high
  | _, .binary _, node => node.Fits low high
  | _, .binaryRest _ _, node => node.Fits start high
  | _, .unary, node => node.Fits low high
  | _, .operand, node => node.Fits low high
  | _, .trailers _, node => node.Fits start high
  | _, .branch, node => node.Fits low high

/-- Parsers of all rules that make what their rules give. -/
structure LaidRules (parse : Rules) : Prop where
  on {α : Type} (start : Nat) {low : Nat} (rule : Rule α) (given : rule.GivenLaid start low) :
    Proceeds low (parse rule) (rule.GivesLaid start low)

end Grammar

end Formulary

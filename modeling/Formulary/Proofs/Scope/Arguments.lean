import Formulary.Grammar.Call
import Formulary.Proofs.Scope.Reading

/-!
Argument lists. A list is kept as its arguments and its pairs, so a walk puts them back in the order of the text: what
is read first stands first.
-/

namespace Formulary

namespace Walk

/-- What stands before all other parts is walked first, wherever it is kept. -/
theorem inOrder_insert {front back : List (Position × Walk)} {part : Position × Walk}
    (first : ∀ other ∈ front ++ back, part.1.Before other.1) :
    inOrder (front ++ part :: back) = part :: inOrder (front ++ back) := by
  induction front with
  | nil =>
    show List.orderedInsert _ part (inOrder back) = part :: inOrder back
    cases sorted : inOrder back with
    | nil => rfl
    | cons other more =>
      have member : other ∈ back := (List.mem_insertionSort _).1 (sorted ▸ List.mem_cons_self : other ∈ inOrder back)
      exact List.orderedInsert_cons_of_le _ _ (first other member)
  | cons other front ih =>
    have before : part.1.Before other.1 := first other List.mem_cons_self
    show List.orderedInsert _ other (inOrder (front ++ part :: back)) =
      part :: List.orderedInsert _ other (inOrder (front ++ back))
    rw [ih fun other member => first other (List.mem_cons_of_mem _ member)]
    -- What is sorted in stands behind `part`, which therefore stays in front.
    exact List.orderedInsert_of_not_le _ _ before.not_before

theorem inTurn_eq_nothing {walks : List Walk} (h : ∀ walk ∈ walks, walk = nothing) : inTurn walks = nothing := by
  induction walks with
  | nil => rfl
  | cons walk more ih =>
    obtain ⟨first, others⟩ := List.forall_mem_cons.1 h
    rw [inTurn_cons, first, nothing_andThen, ih others]

theorem byPosition_eq_nothing {parts : List (Position × Walk)} (h : ∀ part ∈ parts, part.2 = nothing) :
    byPosition parts = nothing := by
  refine inTurn_eq_nothing fun walk member => ?_
  obtain ⟨part, sorted, rfl⟩ := List.mem_map.1 member
  exact h part ((List.mem_insertionSort _).1 sorted)

end Walk

namespace Grammar

/-- An argument or a pair, as it is read. -/
def itemWalk : Sum Node (Node × Node) → Walk
  | .inl node => node.walk
  | .inr (key, value) => key.walk.andThen value.walk

def itemPlace : Sum Node (Node × Node) → Option Position
  | .inl node | .inr (node, _) => node.place?

theorem argumentWalks_cons {arg : Node} {pos : Position} (h : arg.place? = some pos) (args : List Node) :
    argumentWalks (arg :: args) = (pos, arg.walk) :: argumentWalks args := by
  rw [← Node.pos_of_place? h]
  cases arg with
  | hash pos pairs braces =>
    cases braces with
    | true => simp
    | false => contradiction
  | _ => simp

theorem argumentWalks_map {α : Type} {f : α → Node} {pos : Position}
    (single : ∀ item, (f item).place? = some pos) (items : List α) :
    argumentWalks (items.map f) = items.map fun item => (pos, (f item).walk) := by
  induction items with
  | nil => rfl
  | cons item items ih => rw [List.map_cons, argumentWalks_cons (single item), ih, List.map_cons]

/-- An item is a part of the argument list that it is read for. -/
theorem argumentParts_withItem {item : Sum Node (Node × Node)} {pos : Position} (h : itemPlace item = some pos)
    (found : List Node × List (Node × Node)) : ∃ front back, argumentParts found = front ++ back ∧
      argumentParts (withItem item found) = front ++ (pos, itemWalk item) :: back := by
  obtain ⟨args, pairs⟩ := found
  match item, h with
  | .inl arg, h => exact ⟨[], _, rfl, by rw [withItem, argumentParts, argumentWalks_cons h]; rfl⟩
  | .inr (key, value), h =>
    refine ⟨argumentWalks args, pairWalks pairs, rfl, ?_⟩
    simp [withItem, argumentParts, itemWalk, Node.pos_of_place? (h : key.place? = some pos)]

theorem Reads.withItem {before : Walk} {places : List (Option Position)} {start state : State}
    {item : Sum Node (Node × Node)} {found : List Node × List (Node × Node)}
    (h : Reads ((before.andThen (itemWalk item)).andThen (.byPosition (argumentParts found)))
      (places ++ [itemPlace item] ++ (Walk.inOrder (argumentParts found)).map (some ·.1)) start state) :
    Reads (before.andThen (.byPosition (argumentParts (withItem item found))))
      (places ++ (Walk.inOrder (argumentParts (Grammar.withItem item found))).map (some ·.1)) start state := by
  have spread := h
  rw [List.append_assoc, List.singleton_append] at spread
  obtain ⟨pos, place, behind⟩ := spread.ordered
  have later (part : Position × Walk) (member : part ∈ argumentParts found) : pos.Before part.1 := by
    have sorted : part ∈ Walk.inOrder (argumentParts found) := (List.mem_insertionSort _).2 member
    obtain ⟨pos', same, before⟩ := behind _ (List.mem_map_of_mem sorted)
    exact Option.some.inj same ▸ before
  obtain ⟨front, back, parts, parts'⟩ := argumentParts_withItem place found
  have sorted : Walk.inOrder (argumentParts (Grammar.withItem item found)) =
      (pos, itemWalk item) :: Walk.inOrder (argumentParts found) := by
    rw [parts', parts]
    exact Walk.inOrder_insert (parts ▸ later)
  refine h.mono ?_ ?_
  · simp [Walk.byPosition, sorted]
  · simp [sorted, place]

section Lists

variable {parse : Rules} (rules : TracedRules parse)
include rules

theorem traces_argument (named : Bool) : Traces (argument parse named) itemWalk fun item => [itemPlace item] := by
  intro before places start
  refine triple_peek.bind fun token => ?_
  have plain : Triple (Reads before places start)
      (do let value ← parse .expression
          if ← check Lexeme.isArrow then
            discard advance
            skipNewlines
            return Sum.inr (value, ← parse .expression)
          else if named then complain .positionalAfterPairs
          else return Sum.inl value)
      fun item => Reads (before.andThen (itemWalk item)) (places ++ [itemPlace item]) start := by
    refine rules.expression.read.bind fun value => triple_check.bind fun _ => .ite (fun _ => ?_) fun _ =>
      .ite (fun _ => triple_complain) fun _ => .pure fun _ => id
    exact triple_skip.bind fun _ => triple_skipNewlines.bind fun _ => rules.expression.pass.bind fun _ =>
      .pure fun _ reads => reads.mono (Walk.andThen_assoc ..) (.refl _)
  have behind (inner : token.lexeme ≠ .endOfText) (item : Node → Sum Node (Node × Node))
      (same : ∀ value, itemWalk (item value) = value.walk ∧ itemPlace (item value) = some token.pos) :
      Triple (At token (Reads before places start)) (do discard advance; return item (← parse .expression))
        fun item => Reads (before.andThen (itemWalk item)) (places ++ [itemPlace item]) start :=
    (triple_read inner).bind fun _ => rules.expression.pass.bind fun value => .pure fun _ reads =>
      reads.mono (by rw [(same value).1]) (by rw [(same value).2])
  cases lexeme : token.lexeme with
  | label name =>
    refine (triple_read (by simp [lexeme])).bind fun _ => triple_skipNewlines.bind fun _ => ?_
    exact rules.expression.pass.bind fun value => .pure fun _ reads => reads.mono (by simp [itemWalk]) (.refl _)
  | operator spelling =>
    have inner : token.lexeme ≠ .endOfText := by simp [lexeme]
    dsimp only
    split
    · contradiction
    · exact behind inner (.inl <| .splat token.pos · false) fun _ => ⟨by simp [itemWalk], rfl⟩
    · exact behind inner (.inl <| .splat token.pos · true) fun _ => ⟨by simp [itemWalk], rfl⟩
    · exact behind inner (.inl <| .blockPass token.pos ·) fun _ => ⟨by simp [itemWalk], rfl⟩
    · exact plain.away token
  | _ => exact plain.away token

omit rules in
theorem triple_atCloser {before : State → Prop} (closer : Option Bracket) :
    Triple before (atCloser closer) fun _ => before := by
  cases closer with
  | none => exact .pure fun _ => id
  | some bracket => exact triple_check

theorem traces_arguments (closer : Option Bracket) (named : Bool) : Traces (arguments parse closer named)
    (fun found => .byPosition (argumentParts found)) fun found => (Walk.inOrder (argumentParts found)).map (some ·.1) := by
  intro before places start
  refine (traces_argument rules named).read.bind fun item => triple_check.bind fun goOn => ?_
  have last : Triple (Reads (before.andThen (itemWalk item)) (places ++ [itemPlace item]) start) (pure ([], []))
      fun found => Reads ((before.andThen (itemWalk item)).andThen (.byPosition (argumentParts found)))
        (places ++ [itemPlace item] ++ (Walk.inOrder (argumentParts found)).map (some ·.1)) start :=
    .pure fun _ reads => reads.mono (by simp [argumentParts]) (by simp [argumentParts, Walk.inOrder])
  -- An argument and a pair are read on alike; where each of them is kept is left to `withItem`.
  cases item
  all_goals
    refine .ite (fun _ => triple_skip.bind fun _ => triple_skipNewlines.bind fun _ => ?_) fun _ => ?_
    all_goals
      refine (triple_atCloser closer).bind fun _ => .ite (fun _ => last.bind fun _ => .pure fun _ => .withItem) fun _ => ?_
      exact (rules.arguments closer _).read.bind fun _ => .pure fun _ => .withItem

omit rules in
theorem argumentWalks_append (args more : List Node) :
    argumentWalks (args ++ more) = argumentWalks args ++ argumentWalks more := by
  induction args with
  | nil => rfl
  | cons arg args ih =>
    cases arg with
    | hash pos pairs braces => cases braces <;> simp [ih]
    | _ => simp [ih]

theorem traces_argumentList (closer : Option Bracket) :
    Traces (argumentList parse closer) (fun args => .byPosition (argumentWalks args)) fun _ => [] := by
  intro before places start
  refine (rules.arguments closer false).pass.bind fun found => ?_
  obtain ⟨args, pairs⟩ := found
  cases pairs with
  | nil => exact .pure fun _ reads => reads.mono (by simp [argumentParts]) (by simp)
  | cons pair more =>
    exact .pure fun _ reads => reads.mono (by simp [argumentParts, argumentWalks_append]) (by simp)

theorem traces_commandArguments :
    Traces (commandArguments parse) (fun args => .byPosition (argumentWalks args)) fun _ => [] :=
  (traces_argumentList rules none).leavingDo

theorem traces_delimitedArguments (closer : Bracket) :
    Traces (delimitedArguments parse closer) (fun args => .byPosition (argumentWalks args)) fun _ => [] := by
  refine Traces.enclosed fun before places start => triple_skipNewlines.bind fun _ => triple_check.bind fun _ =>
    .ite (fun _ => ?_) fun _ => ?_
  · exact triple_skip.bind fun _ => .pure fun _ reads => reads.mono (by simp) (by simp)
  · exact (traces_argumentList rules (some closer)).read.bind fun args => triple_skipNewlines.bind fun _ =>
      triple_consume.bind fun _ => .pure fun _ => id

end Lists

end Grammar

end Formulary

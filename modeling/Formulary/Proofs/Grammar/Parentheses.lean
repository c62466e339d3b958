import Formulary.Proofs.Grammar.BlockBinding
import Formulary.Proofs.Grammar.Border.Operands
import Formulary.Proofs.Grammar.Listing
import Formulary.Proofs.Grammar.Spacing
import Formulary.Proofs.Grammar.Unextended
import Formulary.Proofs.Lowering.Kinds

/-!
Calls with and without parentheses. What is read between the parentheses of a call is read as the arguments of a
command, too, if no parentheses hold it.
-/

namespace Formulary.Grammar

variable {border : Border} {state twin after : State} {named : Bool} {tokens : List Token}

/-! Arguments -/

/-- Arguments up to a closing bracket are a single item, or an item, a comma and more arguments, if there are any. -/
theorem closedArguments_eq (parse : Rules) (closer : Bracket) : arguments parse (some closer) named = (do
    let item ← argument parse named
    if ← check Lexeme.isComma then
      discard advance
      skipNewlines
      if ← check (·.isClosing closer) then return withItem item ([], [])
      else withItem item <$> parse (.arguments (some closer) (named || item.isRight))
    else return withItem item ([], [])) := by
  rw [arguments]
  refine bind_congr fun item => bind_congr fun goOn => ?_
  cases goOn with
  | false => cases item <;> rfl
  | true =>
    refine bind_congr fun _ => bind_congr fun _ => bind_congr fun closed => ?_
    cases closed <;> cases item <;> rfl

/-- What a run of closed arguments does: it reads an item, and more arguments behind a comma, if there are any. -/
theorem closedArguments_cases {parse : Rules} {closer : Bracket} {found : List Node × List (Node × Node)}
    (run : (arguments parse (some closer) named).run state = .ok (found, after)) :
    ∃ item mid, (argument parse named).run state = .ok (item, mid) ∧
      (mid.next.lexeme.isComma = false ∧ found = withItem item ([], []) ∧ after = mid ∨
        mid.next.lexeme.isComma = true ∧
          (found = withItem item ([], []) ∧ after = mid.on (mid.ahead.tail.dropWhile (·.lexeme.isNewline)) ∨
            ∃ others, (parse (.arguments (some closer) (named || item.isRight))).run
              (mid.on (mid.ahead.tail.dropWhile (·.lexeme.isNewline))) = .ok (others, after) ∧
                found = withItem item others)) := by
  rw [closedArguments_eq] at run
  obtain ⟨item, mid, first, run⟩ := run_bind_eq_ok_iff.1 run
  refine ⟨item, mid, first, ?_⟩
  rw [run_bind_of_ok (run_check mid _)] at run
  cases comma : mid.next.lexeme.isComma with
  | false =>
    rw [comma] at run
    obtain ⟨rfl, rfl⟩ := Prod.mk.inj (Except.ok.inj run)
    exact .inl ⟨rfl, rfl, rfl⟩
  | true =>
    rw [comma, if_pos rfl, run_bind_of_ok (run_discard_advance mid), skipNewlines, run_bind_of_ok (run_skipWhile _ _),
      run_bind_of_ok (run_check _ _)] at run
    refine .inr ⟨rfl, ?_⟩
    split at run
    · obtain ⟨rfl, rfl⟩ := Prod.mk.inj (Except.ok.inj run)
      exact .inl ⟨rfl, rfl⟩
    · obtain ⟨⟨others, last⟩, rest, same⟩ := Result.map_eq_ok_iff.1 run
      obtain ⟨rfl, rfl⟩ := Prod.mk.inj same
      exact .inr ⟨others, rest, rfl⟩

section Commas

variable {parse : Rules} {item : Node ⊕ Node × Node} {mid : State}

theorem arguments_of_last (first : (argument parse named).run state = .ok (item, mid))
    (ends : mid.next.lexeme.isComma = false) :
    (arguments parse none named).run state = .ok (withItem item ([], []), mid) := by
  rw [arguments_eq]
  refine run_bind_eq_ok_iff.2 ⟨item, mid, first, ?_⟩
  rw [run_bind_of_ok (run_check mid _), ends]
  rfl

theorem arguments_of_comma {others : List Node × List (Node × Node)}
    (first : (argument parse named).run state = .ok (item, mid)) (comma : mid.next.lexeme.isComma = true)
    (rest : (parse (.arguments none (named || item.isRight))).run
      (mid.on (mid.ahead.tail.dropWhile (·.lexeme.isNewline))) = .ok (others, after)) :
    (arguments parse none named).run state = .ok (withItem item others, after) := by
  rw [arguments_eq]
  refine run_bind_eq_ok_iff.2 ⟨item, mid, first, ?_⟩
  rw [run_bind_of_ok (run_check mid _), comma, if_pos rfl, run_bind_of_ok (run_discard_advance mid), skipNewlines,
    run_bind_of_ok (run_skipWhile _ _), StateT.run_map, State.ahead_on, State.on_on, rest]
  rfl

end Commas

theorem not_dangling_of_comma {comma : Token} (h : comma.lexeme.isComma = true) : ¬Dangling (comma :: tokens) := by
  rintro ⟨sign, same, binds⟩
  obtain ⟨rfl, -⟩ := List.cons_eq_cons.1 same
  cases found : comma.lexeme with
  | comma =>
    rw [found] at binds
    cases binds
  | _ =>
    rw [found] at h
    cases h

theorem allowed_nil (ends : border.endsStatement = true) : Allowed border true [] :=
  ⟨fun _ => rfl, fun _ => ends, by rintro ⟨_, same, _⟩; cases same⟩

/-- A state behind a token that is read alike in both runs. -/
theorem Alike.skip {tied : Bool} {token : Token} (alike : Alike border tied .outside (token :: tokens) state twin)
    (inert : isInert token.lexeme = true) :
    Alike border tied .outside tokens (state.on (border.left tokens)) (twin.on (border.right tokens)) := by
  have behind : Behind state (state.on (border.left tokens)) := ⟨⟨[token], alike.left.ahead.symm⟩, rfl, rfl⟩
  have behind' : Behind twin (twin.on (border.right tokens)) := ⟨⟨[token], alike.right.symm⟩, rfl, rfl⟩
  exact @Alike.behind border tied _ _ [token] tokens _ _ _ _ alike (steps_of_inert inert).1.spans behind rfl behind' rfl
    alike.scopes

/-- No newline stands outside nested brackets. -/
theorem dropWhile_of_shelters {token : Token} (shelters : Nest.outside.shelters (token :: tokens) = true)
    (rest : List Token) :
    (token :: tokens ++ rest).dropWhile (·.lexeme.isNewline) = token :: tokens ++ rest :=
  List.dropWhile_cons_of_neg (Bool.not_eq_true _ ▸ Nest.isNewline_of_shelters shelters)

section Items

variable {parse : Rules} {item : Node ⊕ Node × Node} {mid : State} (rules : CarryingRules border parse)
include rules

theorem mirrors_lastItem (ends : border.endsStatement = true)
    (alike : Alike border false .outside tokens state twin) (filled : tokens ≠ [])
    (first : (argument parse named).run state = .ok (item, mid)) (left : mid.ahead = border.left []) :
    Mirrors border (arguments parse none named) twin (withItem item ([], [])) [] mid := by
  have reads : Carries border false .firm .outside .outside (argument parse named) := carries_argument rules named
  obtain ⟨token, more, rfl⟩ := List.exists_cons_of_ne_nil filled
  obtain ⟨mid', first', right, scopes⟩ := (reads.at_token token).carries alike first left (allowed_nil ends)
  have final := (reads.behind first').final.trans alike.final
  have ends : mid'.next.lexeme.isComma = false := by
    rw [Border.next_of_right_nil right final]
    exact isComma_of_closesStatement ends
  exact ⟨mid', arguments_of_last first' ends, right, scopes⟩

/-- Behind an item and a comma, both runs are alike again, since the comma is not the last token before the border. -/
theorem alike_of_comma (alike : Alike border false .outside tokens state twin)
    (trailing : ∀ last ∈ tokens.getLast?, last.lexeme.isComma = false)
    (first : (argument parse named).run state = .ok (item, mid)) (comma : mid.next.lexeme.isComma = true)
    (behind : Behind mid after) (left : after.ahead = border.left []) :
    ∃ following others mid', (argument parse named).run twin = .ok (item, mid') ∧ mid'.next.lexeme.isComma = true ∧
      Alike border false .outside (following :: others) (mid.on (mid.ahead.tail.dropWhile (·.lexeme.isNewline)))
        (mid'.on (mid'.ahead.tail.dropWhile (·.lexeme.isNewline))) ∧ following :: others <:+ tokens := by
  have reads : Carries border false .firm .outside .outside (argument parse named) := carries_argument rules named
  obtain ⟨ahead, mid_eq, -, fewer⟩ := Border.between_of_behind alike.left.ahead left (reads.behind first) behind
  cases ahead with
  | nil =>
    have other : mid.next.lexeme.isComma = false :=
      (Border.rim_of_left_nil (alike.left.behind (reads.behind first) mid_eq)).test rfl rfl
    exact nomatch other.symm.trans comma
  | cons sep others =>
    rw [Border.next_of_left mid_eq] at comma
    have some : sep :: others ≠ [] := List.cons_ne_nil _ _
    cases others with
    | nil =>
      have last : tokens.getLast? = _ := getLast?_of_suffix fewer some
      exact nomatch (trailing sep last).symm.trans comma
    | cons following others =>
      obtain ⟨token, more, rfl⟩ := List.exists_cons_of_ne_nil (fewer.ne_nil some)
      obtain ⟨mid', first', right, scopes⟩ := (reads.at_token token).carries alike first mid_eq
        ⟨fun nil => absurd nil some, fun nil => absurd nil some, not_dangling_of_comma comma⟩
      obtain ⟨used, split, spans⟩ := (reads.at_token token).spans alike.left.ahead first mid_eq some
      refine ⟨following, others, mid', first', ?_, ?_, (List.suffix_cons _ _).trans fewer⟩
      · rwa [Border.next_of_right right]
      · rw [split] at alike
        have next := (alike.behind spans (reads.behind first) mid_eq (reads.behind first') right scopes).skip
          (inert_of_isComma comma)
        have kept := dropWhile_of_shelters (next.shelters rfl)
        have ahead : mid.ahead.tail.dropWhile (·.lexeme.isNewline) = border.left (following :: others) := by
          rw [mid_eq]
          exact kept _
        have ahead' : mid'.ahead.tail.dropWhile (·.lexeme.isNewline) = border.right (following :: others) := by
          rw [right]
          exact kept _
        rwa [ahead, ahead']

end Items

theorem mirrors_arguments {fuel : Nat} {found : List Node × List (Node × Node)} (ends : border.endsStatement = true)
    (alike : Alike border false .outside tokens state twin) (filled : tokens ≠ [])
    (trailing : ∀ last ∈ tokens.getLast?, last.lexeme.isComma = false)
    (run : (rule fuel (.arguments (some .round) named)).run state = .ok (found, after))
    (left : after.ahead = border.left []) : Mirrors border (rule fuel (.arguments none named)) twin found [] after := by
  induction fuel generalizing named state twin tokens found with
  | zero => cases run
  | succ fuel ih =>
    have rules : CarryingRules border (rule fuel) := carryingRules_rule fuel
    have step (mid : State) : Behind mid (mid.on (mid.ahead.tail.dropWhile (·.lexeme.isNewline))) :=
      ⟨(List.dropWhile_suffix _).trans (List.tail_suffix _), rfl, rfl⟩
    obtain ⟨item, mid, first, ⟨-, rfl, rfl⟩ | ⟨comma, ⟨rfl, rfl⟩ | ⟨others, rest, rfl⟩⟩⟩ := closedArguments_cases run
    · exact mirrors_lastItem rules ends alike filled first left
    · obtain ⟨following, others, mid', -, -, next, -⟩ := alike_of_comma rules alike trailing first comma (step mid) left
      exact nomatch border.left_injective (next.left.ahead.symm.trans left)
    · have more : Carries border false .inner .outside .outside (rule fuel (.arguments (some .round) _)) :=
        rules.arguments (some .round) (named || item.isRight)
      obtain ⟨following, others, mid', first', comma', next, fewer⟩ :=
        alike_of_comma rules alike trailing first comma ((step mid).trans (more.behind rest)) left
      have filled' : following :: others ≠ [] := List.cons_ne_nil _ _
      obtain ⟨last, rest', right, scopes⟩ := ih next filled' (by rwa [← getLast?_of_suffix fewer filled']) rest
      exact ⟨last, arguments_of_comma first' comma' rest', right, scopes⟩

/-! The closing parenthesis -/

section Closing

variable {parse : Rules} {close : Token} {rest : List Token} (rules : CarryingRules border parse)
  (here : border.here = close :: rest)

theorem next_of_consume {test : Lexeme Token → Bool} {complaint : Complaint} {value : Unit}
    (run : (consume test complaint).run state = .ok (value, after)) :
    test state.next.lexeme = true ∧ after = state.on state.ahead.tail := by
  rw [consume, run_bind_of_ok (run_check state test)] at run
  cases found : test state.next.lexeme with
  | false =>
    rw [found] at run
    cases run
  | true =>
    rw [found] at run
    exact ⟨rfl, (Prod.mk.inj (Except.ok.inj run)).2.symm⟩

include here in
/-- Where only the tokens behind the border are left after a token, that token is the parenthesis at the border. -/
theorem left_of_tail (final : state.final.lexeme = .endOfText) (inner : state.next.lexeme ≠ .endOfText)
    (fewer : state.ahead <:+ border.left tokens) (tail : state.ahead.tail = rest) : state.ahead = border.left [] := by
  obtain ⟨more, ahead⟩ := state.front final inner
  rw [ahead, List.tail_cons] at tail
  have same : (border.left []).length = (state.next :: rest).length := by rw [Border.left, here]; rfl
  have close : border.left [] <:+ border.left tokens := List.suffix_append tokens _
  rw [ahead, tail] at fewer ⊢
  exact (List.suffix_of_suffix_length_le fewer close same.ge).eq_of_length same.symm

include rules

theorem behind_blockParams {names : List String} (run : (blockParams parse).run state = .ok (names, after)) :
    Behind state after := by
  have step : Behind state (state.on state.ahead.tail) := ⟨List.tail_suffix _, rfl, rfl⟩
  rw [blockParams, run_bind_of_ok (run_peek state)] at run
  split at run
  · obtain ⟨-, rfl⟩ := Prod.mk.inj (Except.ok.inj run)
    exact step
  · have named : Carries border true .inner ⟨0, .params⟩ .outside (do
        let names ← parse .blockNames
        names.forM declare
        return names) :=
      (rules.carries .blockNames true rfl).bind_inner fun _ => .still fun _ => .done _
    exact step.trans (named.behind run)
  · obtain ⟨-, rfl⟩ := Prod.mk.inj (Except.ok.inj run)
    exact Behind.refl state

/-- The last token of a block is a brace or the word `end`. -/
theorem last_of_block {β : Type} {inside : List String → Parser β} {node : List String → β → Node} {value : Node}
    {test : Lexeme Token → Bool} {complaint : Complaint}
    (keeps : ∀ {names state after value}, (inside names).run state = .ok (value, after) → Behind state after)
    (run : (inScope false (enclosed do
      let names ← blockParams parse
      let statements ← inside names
      consume test complaint
      return node names statements)).run state = .ok (value, after)) :
    ∃ last : State, test last.next.lexeme = true ∧ last.ahead <:+ state.ahead ∧ last.final = state.final ∧
      after.ahead = last.ahead.tail := by
  obtain ⟨inner, barred, rfl⟩ := (wraps_inScope false _).run_iff.1 run
  obtain ⟨free, block, rfl⟩ := (wraps_enclosed _).run_iff.1 barred
  obtain ⟨names, first, params, block⟩ := run_bind_eq_ok_iff.1 block
  obtain ⟨statements, last, body, block⟩ := run_bind_eq_ok_iff.1 block
  obtain ⟨closed, past, close, made⟩ := run_bind_eq_ok_iff.1 block
  obtain ⟨-, rfl⟩ := Prod.mk.inj (Except.ok.inj made)
  obtain ⟨found, rfl⟩ := next_of_consume close
  have behind := (behind_blockParams rules params).trans (keeps body)
  exact ⟨last, found, behind.fewer, behind.final, rfl⟩

include here in
theorem blockOption_of_close {block : Option Node} (final : state.final.lexeme = .endOfText)
    (fewer : state.ahead <:+ border.left tokens) (run : (blockOption parse).run state = .ok (block, after))
    (left : after.ahead = rest) : block = none ∧ after = state := by
  have closes {last : State} {lexeme : Lexeme Token} (found : last.next.lexeme = lexeme)
      (other : lexeme ≠ .closing .round) (inner : lexeme ≠ .endOfText) (front : last.ahead <:+ state.ahead)
      (same : last.final = state.final) (tail : after.ahead = last.ahead.tail) : False := by
    have ahead := left_of_tail here (same ▸ final) (found ▸ inner) (front.trans fewer) (tail.symm.trans left)
    obtain rim | rim := (Border.rim_of_left_nil ⟨ahead, same ▸ final⟩).cases
    · exact other (found.symm.trans rim)
    · exact inner (found.symm.trans rim)
  rw [blockOption, run_bind_of_ok (run_peek state)] at run
  dsimp only at run
  split at run
  · obtain ⟨node, mid, block, made⟩ := run_bind_eq_ok_iff.1 run
    obtain ⟨-, rfl⟩ := Prod.mk.inj (Except.ok.inj made)
    rw [braceBlock, run_bind_of_ok (run_advance state)] at block
    have statements : Carries border true .inner .outside .outside (parse (.statements ⟨[], some .curly⟩)) :=
      rules.statements _
    obtain ⟨last, found, front, same, tail⟩ := last_of_block rules statements.behind block
    exact (closes (eq_of_isClosing found) (by simp) (by simp) (front.trans (List.tail_suffix _)) same tail).elim
  · rw [run_bind_of_ok (run_get state)] at run
    split at run
    · obtain ⟨node, mid, block, made⟩ := run_bind_eq_ok_iff.1 run
      obtain ⟨-, rfl⟩ := Prod.mk.inj (Except.ok.inj made)
      rw [doBlock, run_bind_of_ok (run_advance state)] at block
      have body : Carries border true .inner .outside .outside (body parse state.next.pos) := carries_body rules _
      obtain ⟨last, found, front, same, tail⟩ := last_of_block rules body.behind block
      exact (closes (eq_of_isKeyword found) (by simp) (by simp) (front.trans (List.tail_suffix _)) same tail).elim
    · obtain ⟨rfl, rfl⟩ := Prod.mk.inj (Except.ok.inj run)
      exact ⟨rfl, rfl⟩

include here in
/-- What stands between the parentheses of a call is a list of arguments, and nothing behind it but the parenthesis. -/
theorem argumentList_of_delimited {first : Token} {args : List Node} (final : state.final.lexeme = .endOfText)
    (ahead : state.ahead = border.left (first :: tokens)) (shelters : Nest.outside.shelters (first :: tokens) = true)
    (begins : first.lexeme.isClosing .round = false)
    (run : (delimitedArguments parse .round).run state = .ok (args, after)) (left : after.ahead = rest) :
    ∃ last, (argumentList parse (some .round)).run (state.bar 0) = .ok (args, last) ∧ last.ahead = border.left [] ∧
      after = (last.on rest).bar state.barred := by
  have reads : Carries border false .inner .outside .outside (argumentList parse (some .round)) :=
    carries_argumentList rules .round
  have here' : (state.bar 0).ahead = border.left (first :: tokens) := ahead
  have start : (state.bar 0).next = first := Border.next_of_left here'
  have stays : (state.bar 0).next.lexeme.isNewline = false := by
    rw [start]
    exact Nest.isNewline_of_shelters shelters
  obtain ⟨inner, read, rfl⟩ := (wraps_enclosed _).run_iff.1 run
  rw [skipNewlines, run_bind_of_ok (run_skipWhile_of_not stays), run_bind_of_ok (run_check _ _), start, begins,
    if_neg Bool.false_ne_true] at read
  obtain ⟨_, last, list, read⟩ := run_bind_eq_ok_iff.1 read
  rw [run_bind_of_ok (run_skipWhile last _)] at read
  obtain ⟨_, past, closed, made⟩ := run_bind_eq_ok_iff.1 read
  obtain ⟨rfl, rfl⟩ := Prod.mk.inj (Except.ok.inj made)
  obtain ⟨found, rfl⟩ := next_of_consume closed
  have behind := reads.behind list
  have skipped : last.ahead.dropWhile (·.lexeme.isNewline) = border.left [] := by
    refine @left_of_tail border (last.on _) (first :: tokens) close rest here ?_ ?_ ?_ left
    · exact behind.final ▸ final
    · simp [eq_of_isClosing found]
    · rw [← ahead]
      exact (List.dropWhile_suffix _).trans behind.fewer
  obtain ⟨newlines, ahead, -, fewer⟩ := Border.between (ahead ▸ behind.fewer) (skipped ▸ List.dropWhile_suffix _)
  have none : newlines = [] := by
    cases newlines with
    | nil => rfl
    | cons newline others =>
      obtain ⟨used, split, spans⟩ := (reads.at_token first).spans here' list ahead (List.cons_ne_nil _ _)
      rw [split] at shelters
      have kept : (border.left (newline :: others)).dropWhile (·.lexeme.isNewline) = border.left (newline :: others) :=
        dropWhile_of_shelters (Nest.shelters_of_across shelters spans.across) _
      rw [ahead, kept] at skipped
      exact absurd (border.left_injective skipped) (List.cons_ne_nil _ _)
  rw [none] at ahead
  refine ⟨last, list, ahead, ?_⟩
  rw [State.ahead_on, skipped, Border.left, here]
  rfl

end Closing

theorem mirrors_argumentList {fuel : Nat} {args : List Node} (ends : border.endsStatement = true)
    (alike : Alike border false .outside tokens state twin)
    (filled : tokens ≠ []) (trailing : ∀ last ∈ tokens.getLast?, last.lexeme.isComma = false)
    (run : (argumentList (rule fuel) (some .round)).run state = .ok (args, after))
    (left : after.ahead = border.left []) : Mirrors border (argumentList (rule fuel) none) twin args [] after := by
  obtain ⟨⟨nodes, pairs⟩, mid, read, made⟩ := run_bind_eq_ok_iff.1 run
  have same : mid = after := by
    cases pairs with
    | nil => exact (Prod.mk.inj (Except.ok.inj made)).2
    | cons pair pairs => exact (Prod.mk.inj (Except.ok.inj made)).2
  rw [same] at read
  obtain ⟨after', read', right, scopes⟩ := mirrors_arguments ends alike filled trailing read left
  refine ⟨after', run_bind_eq_ok_iff.2 ⟨_, after', read', ?_⟩, right, scopes⟩
  cases pairs with
  | nil =>
    obtain ⟨rfl, -⟩ := Prod.mk.inj (Except.ok.inj made)
    rfl
  | cons pair pairs =>
    obtain ⟨rfl, -⟩ := Prod.mk.inj (Except.ok.inj made)
    rfl

/-! Calls -/

/-- Whether tokens begin an argument of a call without parentheses, if a blank stands before them. -/
def Begins (first : Token) (more : List Token) : Prop :=
  beginsArgument first.lexeme = true ∨
    bindsArgument first.lexeme = true ∧ ∀ second ∈ more.head?, second.spaced = false

/-- Tokens that a command may have as its arguments in front of others, whoever waits for a `do`. -/
structure Bare (first : Token) (more : List Token) (following : Token) : Prop where
  begins : Begins first more
  shelters : Nest.outside.shelters (first :: more) = true
  trailing : ∀ last ∈ (first :: more).getLast?, last.lexeme.isComma = false
  ends : closesStatement following.lexeme = true
  range : endsRange following.lexeme = true ∨ ∀ last ∈ (first :: more).getLast?, opensRange last.lexeme = false

section Commands

variable {first close : Token} {more rest : List Token} {args : List Node} {fuel : Nat}

theorem isClosing_of_begins {bracket : Bracket} (begins : Begins first more) :
    first.lexeme.isClosing bracket = false := by
  cases found : first.lexeme with
  | closing other =>
    rw [Begins, found] at begins
    obtain begins | ⟨binds, -⟩ := begins
    · cases begins
    · cases binds
  | _ => rfl

theorem smooth_of_binds {lexeme : Lexeme Token} (binds : bindsArgument lexeme = true) : isSmooth lexeme = true := by
  cases lexeme with
  | doubleColon | operator spelling => rfl
  | _ => cases binds

theorem run_atArgument_of_begins (begins : Begins first more)
    (shelters : Nest.outside.shelters (first :: more) = true)
    (followed : bindsArgument first.lexeme = true → more ≠ []) :
    atArgument.run (state.on ({ first with spaced := true } :: more ++ rest)) =
      .ok (true, state.on ({ first with spaced := true } :: more ++ rest)) := by
  obtain begins | ⟨binds, glued⟩ := begins
  · rw [run_atArgument, List.cons_append, State.next_on_cons, begins]
    rfl
  · obtain ⟨second, others, rfl⟩ := List.exists_cons_of_ne_nil (followed binds)
    have next : Nest.outside.after first.lexeme = some .outside := steps_of_smooth (smooth_of_binds binds) 0
    have newline := Nest.isNewline_of_shelters ((Nest.shelters_cons.1 shelters).2 _ next)
    rw [run_atArgument, List.cons_append, State.next_on_cons, List.cons_append, State.ahead_on, List.tail_cons,
      List.headD_cons, binds, newline, glued second rfl]
    simp only [Bool.not_false, Bool.and_self, Bool.or_true]

/-- What is read between parentheses is read without them, where one more call waits for a `do`. -/
theorem argumentList_of_parens (final : state.final.lexeme = .endOfText) (closes : close.lexeme = .closing .round)
    (bare : Bare first more (rest.headD state.final))
    (run : (delimitedArguments (rule fuel) .round).run (state.on (first :: more ++ close :: rest)) = .ok (args, after))
    (left : after.ahead = rest) :
    (bindsArgument first.lexeme = true → more ≠ []) ∧ after.barred = state.barred ∧
      (argumentList (rule fuel) none).run
        ((state.on ({ first with spaced := true } :: more ++ rest)).bar (state.barred + 1)) =
          .ok (args, after.bar (state.barred + 1)) := by
  let border : Border := ⟨close :: rest, rest, state.final, fun _ mem => Option.some.inj mem ▸ closes⟩
  have rules : CarryingRules border (rule fuel) := carryingRules_rule fuel
  have here : (state.on (first :: more ++ close :: rest)).ahead = border.left (first :: more) := rfl
  have final' : (state.on (first :: more ++ close :: rest)).final.lexeme = .endOfText := final
  obtain ⟨last, list, ahead, rfl⟩ := argumentList_of_delimited rules (rfl : border.here = _) final' here bare.shelters
    (isClosing_of_begins bare.begins) run left
  have closed : Carries border false .inner .outside .outside (argumentList (rule fuel) (some .round)) :=
    carries_argumentList rules .round
  refine ⟨?_, rfl, ?_⟩
  · rintro binds rfl
    have before : border.Before [first] ((state.on (first :: [] ++ close :: rest)).bar 0) := ⟨rfl, final'⟩
    refine (closed.at_token first).alone (fun last mem => ?_) before list ahead
    obtain rfl := Option.some.inj mem
    exact Reach.strands_of_bindsArgument binds
  · have alike : Alike border false .outside (first :: more) ((state.on (first :: more ++ close :: rest)).bar 0)
        ((state.on (first :: more ++ rest)).bar (state.barred + 1)) :=
      ⟨⟨rfl, final'⟩, rfl, rfl, rfl, nofun, fun _ => bare.shelters, bare.range⟩
    have ends : border.endsStatement = true := bare.ends
    obtain ⟨inner, read, right, scopes⟩ :=
      mirrors_argumentList ends alike (List.cons_ne_nil _ _) bare.trailing list ahead
    have ignores : IgnoresBlank (argumentList (rule fuel) none) :=
      .bind (rulesIgnoreBlank_rule fuel (.arguments none false) rfl)
    refine (ignores (state.bar (state.barred + 1)) first (more ++ rest) true).trans ?_
    have bareList : Carries border false .firm .outside .outside (argumentList (rule fuel) none) :=
      carries_bareList rules
    have behind := bareList.behind read
    have behind' := closed.behind list
    have same : inner = (last.on rest).bar (state.barred + 1) := by
      change State.mk inner.ahead inner.final inner.scopes inner.barred =
        ⟨rest, last.final, last.scopes, state.barred + 1⟩
      rw [right, scopes, behind.final, behind.barred, behind'.final]
      rfl
    rw [same] at read
    exact read

theorem delimited_of_primary {parse : Rules} {name : String} {pos pos' : Position} {spaced : Bool} {node : Node}
    (run : (primary parse).run
      (state.on (⟨.identifier name, pos, spaced⟩ :: ⟨.opening .round, pos', false⟩ :: tokens)) = .ok (node, after)) :
    ∃ args mid block, (delimitedArguments parse .round).run (state.on tokens) = .ok (args, mid) ∧
      (blockOption parse).run mid = .ok (block, after) ∧ node = .call pos name none args block true := by
  change (identifier parse name pos).run (state.on (⟨.opening .round, pos', false⟩ :: tokens)) = _ at run
  have paren : ((Lexeme.opening .round : Lexeme Token).isOpening .round && !false) = true := rfl
  rw [identifier, run_bind_of_ok (run_isLocal _ _), run_bind_of_ok (run_atCallParen _), State.next_on_cons, paren,
    Bool.not_true, Bool.and_false, if_neg Bool.false_ne_true] at run
  change (delimitedArguments parse .round >>= fun args => blockOption parse >>= fun block =>
    pure (Node.call pos name none args block true)).run (state.on tokens) = _ at run
  obtain ⟨args, mid, inside, run⟩ := run_bind_eq_ok_iff.1 run
  obtain ⟨block, last, follows, made⟩ := run_bind_eq_ok_iff.1 run
  obtain ⟨rfl, rfl⟩ := Prod.mk.inj (Except.ok.inj made)
  exact ⟨args, mid, block, inside, follows, rfl⟩

theorem Bare.yields (bare : Bare first more (rest.headD state.final))
    (followed : bindsArgument first.lexeme = true → more ≠ []) (restored : after.barred = state.barred)
    (read : (argumentList (rule fuel) none).run
      ((state.on ({ first with spaced := true } :: more ++ rest)).bar (state.barred + 1)) =
        .ok (args, after.bar (state.barred + 1))) :
    Yields bareArguments (state.on ({ first with spaced := true } :: more ++ rest)) args after := by
  have refined : Yields (argumentList · none)
      ((state.on ({ first with spaced := true } :: more ++ rest)).bar (state.barred + 1)) args
      (after.bar (state.barred + 1)) :=
    Filter.eventually_atTop.2 ⟨fuel, fun wider le =>
      Lifting.lifted_argumentList (RefinesRules.lifted (refines_rule le)) none read⟩
  filter_upwards [refined] with fuel read
  have command := run_leavingDo_of_ok _ read
  rw [bareArguments, run_bind_of_ok (run_atArgument_of_begins bare.begins bare.shelters followed), if_pos rfl]
  refine command.trans ?_
  have same : (after.bar (state.barred + 1)).bar (state.barred + 1 - 1) = after := by
    rw [State.bar_bar, Nat.add_sub_cancel, ← restored, State.bar_self]
  rw [State.barred_bar, same]

theorem goesWithExpression_of_closesStatement {token : Token} (h : closesStatement token.lexeme = true) :
    goesWithExpression token = false := by
  obtain ⟨lexeme, pos, spaced⟩ := token
  have goes (spaced : Bool) : goesWithExpression ⟨lexeme, pos, spaced⟩ = false := by
    cases spaced <;> exact @test_of_closesStatement Bool lexeme (fun lexeme => goesWithExpression ⟨lexeme, pos, _⟩) _ h
      rfl rfl rfl (fun _ => rfl) fun _ _ => rfl
  exact goes spaced

theorem goesWithStatement_of_closesStatement {lexeme : Lexeme Token} (h : closesStatement lexeme = true) :
    goesWithStatement lexeme = false :=
  test_of_closesStatement h rfl rfl rfl (fun _ => rfl) (by decide)

/-- A call with parentheses is the command without them, whose arguments are those that its items make up, and both are
lowered alike. -/
theorem command_of_parens {name : String} {pos pos' place : Position} {spaced parens : Bool} {block : Option Node}
    (final : state.final.lexeme = .endOfText) (hidden : Scope.isLocal name state.scopes = false)
    (closes : close.lexeme = .closing .round) (bare : Bare first more (rest.headD state.final))
    (read : Parses .statement (state.on (⟨.identifier name, pos, spaced⟩ :: ⟨.opening .round, pos', false⟩ ::
      (first :: more ++ close :: rest))) (.call place name none args block parens) after) (left : after.ahead = rest) :
    place = pos ∧ block = none ∧ parens = true ∧
    Parses .statement (state.on (⟨.identifier name, pos, spaced⟩ :: ({ first with spaced := true } :: more ++ rest)))
      (.call pos name none args none false) after ∧
    (∃ items, Listed false ((state.on ({ first with spaced := true } :: more ++ rest)).bar (state.barred + 1)) items
      (after.bar (state.barred + 1)) ∧ args = collected items) ∧
    ∀ before following,
      (lowerInstall (before ++ .call pos name none args none true :: following)).mapError Unsupported.kind =
        (lowerInstall (before ++ .call pos name none args none false :: following)).mapError Unsupported.kind := by
  obtain ⟨fuel, primary⟩ := primary_of_statement read rfl rfl rfl
  obtain ⟨args', mid, block', inside, follows, same⟩ := delimited_of_primary primary
  obtain ⟨rfl, -, -, rfl, rfl, rfl⟩ := Node.call.inj same
  let border : Border := ⟨close :: rest, rest, state.final, fun _ mem => Option.some.inj mem ▸ closes⟩
  have rules : CarryingRules border (rule fuel) := carryingRules_rule fuel
  have delimited : Carries border false .firm .within .outside (delimitedArguments (rule fuel) .round) :=
    carries_delimitedArguments rules .round
  have behind := delimited.behind inside
  have final' : mid.final.lexeme = .endOfText := behind.final ▸ final
  have fewer : mid.ahead <:+ border.left (first :: more) := behind.fewer
  obtain ⟨rfl, rfl⟩ := blockOption_of_close rules (rfl : border.here = _) final' fewer follows left
  obtain ⟨followed, restored, list⟩ := argumentList_of_parens final closes bare inside left
  have ends : closesStatement after.next.lexeme = true := by
    rw [State.next, left, behind.final]
    exact bare.ends
  have command := bare.yields followed restored list
  have unblocked : Yields blockOption after none after :=
    Filter.Eventually.of_forall fun fuel => blockOption_of_closesStatement ends
  have expression : Parses .expression (state.on (⟨.identifier name, place, spaced⟩ ::
      ({ first with spaced := true } :: more ++ rest))) (.call place name none args none false) after :=
    call_expression hidden (callParen_of_spaced rfl) command unblocked (goesWithExpression_of_closesStatement ends)
  refine ⟨rfl, rfl, rfl, ?_, listed_of_argumentList list, fun before following => ?_⟩
  · exact statement_of_expression expression rfl (goesWithStatement_of_closesStatement ends)
  · exact Lowering.sameKind_lowerInstall place name args before following true false

end Commands

set_option maxRecDepth 8000 in
/-- A call with another call, which has a block, and a pair as its arguments. -/
theorem command_of_parens_nested :
    let state : State := ⟨[], ⟨.endOfText, .origin, true⟩, [⟨true, []⟩], 0⟩
    let name (text : String) : Token := ⟨.identifier text, .origin, true⟩
    let sign (lexeme : Lexeme Token) : Token := ⟨lexeme, .origin, true⟩
    let paren : Token := ⟨.opening .round, .origin, false⟩
    let block := [name "baz", sign (.keyword "do"), sign (.keyword "end"), sign (.closing .round)]
    let pair := [sign .comma, sign (.label "a"), sign (.integer "1")]
    let baz : Node := .call .origin "baz" none [] (some (.block .origin [] [] false)) false
    let hash : Node := .hash .origin [(.symbol .origin "a", .int .origin 1)] false
    let args := [.call .origin "bar" none [baz] none true, hash]
    Parses .statement (state.on (name "foo" :: name "bar" :: paren :: (block ++ pair)))
      (.call .origin "foo" none args none false) (state.on []) := by
  intro state name sign paren block pair baz hash args
  have bare : Bare (name "bar") (paren :: (block ++ pair)) state.final := by
    refine ⟨.inl rfl, rfl, fun last mem => ?_, rfl, .inl rfl⟩
    obtain rfl := Option.some.inj mem
    rfl
  have read : Parses .statement
      (state.on (name "foo" :: paren :: (name "bar" :: paren :: (block ++ pair) ++ sign (.closing .round) :: [])))
      (.call .origin "foo" none args none true) (state.on []) := ⟨40, rfl⟩
  exact (command_of_parens rfl rfl rfl bare read rfl).2.2.2.1

/-- A range without an end may be the last argument in front of a parenthesis, but not in front of a semicolon. -/
theorem exists_parens_needed :
    (parseRecipe "foo(1..); 2".toList).toOption.isSome = true ∧
      (parseRecipe "foo 1..; 2".toList).toOption.isNone = true := by
  decide +kernel

end Formulary.Grammar

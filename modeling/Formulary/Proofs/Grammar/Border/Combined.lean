import Formulary.Proofs.Grammar.Border.Carries
import Mathlib.Data.List.TakeWhile

/-! How parsers that carry over a border are put together. -/

namespace Formulary.Grammar

variable {α β : Type} {border : Border} {tied : Bool} {token : Token} {start mid finish : Nest}
  {reach reach' : Reach}

theorem Border.suffix_of_left {tokens rest : List Token} (h : border.left rest <:+ border.left tokens) :
    rest <:+ tokens := by
  obtain ⟨found, same, fewer, -⟩ := Border.between (List.suffix_refl _) h
  rwa [border.left_injective same]

theorem Carries.behind {p : Parser α} {state after : State} {value : α}
    (h : Carries border tied reach start finish p) (run : p.run state = .ok (value, after)) : Behind state after :=
  (h.at_token state.next).steady rfl run

theorem Border.between_of_behind {state middle after : State} {tokens rest : List Token}
    (here : state.ahead = border.left tokens) (left : after.ahead = border.left rest) (first : Behind state middle)
    (second : Behind middle after) : ∃ found, middle.ahead = border.left found ∧ rest <:+ found ∧ found <:+ tokens :=
  Border.between (here ▸ first.fewer) (left ▸ second.fewer)

theorem Border.dropWhile_left {test : Lexeme Token → Bool} {tokens : List Token}
    (stops : test (.closing .round) = false) :
    (border.left tokens).dropWhile (test ·.lexeme) = border.left (tokens.dropWhile (test ·.lexeme)) := by
  have kept : border.here.dropWhile (test ·.lexeme) = border.here := by
    cases here : border.here with
    | nil => rfl
    | cons close rest =>
      refine List.dropWhile_cons_of_neg ?_
      rw [border.closes close (by rw [here]; rfl), stops]
      exact Bool.false_ne_true
  rw [Border.left, List.dropWhile_append]
  split
  · rename_i none
    rw [List.isEmpty_iff.1 none, kept]
    rfl
  · rfl

theorem Border.dropWhile_right {test : Token → Bool} {tokens : List Token} (some : tokens.dropWhile test ≠ []) :
    (border.right tokens).dropWhile test = border.right (tokens.dropWhile test) := by
  rw [Border.right, List.dropWhile_append, if_neg (by rwa [List.isEmpty_iff])]
  rfl

/-! Parsers that leave the tokens alone -/

/-- A parser that neither reads a token nor looks at one. -/
class Still (p : Parser α) : Prop where
  stays {state after twin : State} {value : α} : p.run state = .ok (value, after) → twin.scopes = state.scopes →
    ∃ scopes, after = { state with scopes } ∧ p.run twin = .ok (value, { twin with scopes })

namespace Still

variable {p q : Parser α}

instance pure (value : α) : Still (Pure.pure value : Parser α) where
  stays {state _ _ _} run same := by
    obtain ⟨rfl, rfl⟩ := Prod.mk.inj (Except.ok.inj run)
    exact ⟨state.scopes, rfl, by rw [← same]; rfl⟩

theorem modify (f : List Scope → List Scope) :
    Still (modify fun state => { state with scopes := f state.scopes } : Parser Unit) where
  stays {state _ _ _} run same := by
    obtain ⟨rfl, rfl⟩ := Prod.mk.inj (Except.ok.inj run)
    exact ⟨f state.scopes, rfl, by rw [← same]; rfl⟩

instance declare (name : String) : Still (declare name) :=
  modify (Scope.declare name)

instance isLocal (name : String) : Still (isLocal name) where
  stays {state _ _ _} run same := by
    obtain ⟨rfl, rfl⟩ := Prod.mk.inj (Except.ok.inj run)
    exact ⟨state.scopes, rfl, by rw [← same]; rfl⟩

instance complainAt (complaint : Complaint) (found : Token) : Still (complainAt complaint found : Parser α) where
  stays := nofun

instance bind {next : α → Parser β} [first : Still p] [second : ∀ value, Still (next value)] : Still (p >>= next) where
  stays {state _ twin _} run same := by
    obtain ⟨value, middle, here, there⟩ := run_bind_eq_ok_iff.1 run
    obtain ⟨scopes, rfl, here'⟩ := first.stays here same
    have same' : State.scopes { twin with scopes } = State.scopes { state with scopes } := rfl
    obtain ⟨scopes', rfl, there'⟩ := (second value).stays there same'
    exact ⟨scopes', rfl, run_bind_eq_ok_iff.2 ⟨value, _, here', there'⟩⟩

instance ite {test : Prop} [Decidable test] [Still p] [Still q] : Still (if test then p else q) := by
  split <;> infer_instance

instance forM_declare (names : List String) : Still (names.forM Grammar.declare) := by
  induction names with
  | nil => exact pure _
  | cons name rest ih =>
    change Still (Grammar.declare name >>= fun _ => rest.forM Grammar.declare)
    infer_instance

instance assignable (node : Node) (found : Token) : Still (assignable node found) := by
  unfold Grammar.assignable
  split <;> infer_instance

instance fromNumber (value : Except Text.NumberFault α) : Still (fromNumber value) := by
  cases value with
  | ok value => exact pure value
  | error fault => exact ⟨nofun⟩

end Still

/-! At the border -/

section Rests

variable {p : Parser α} {next : α → Parser β}

theorem Eager.rests (h : Eager border p) : Rests border p :=
  fun _ _ _ _ _ here _ _ _ run left => absurd left (h here run)

theorem Eager.of_fails (h : ∀ state lexeme, Rim lexeme → state.next.lexeme = lexeme → ∀ result, p.run state ≠ .ok result) :
    Eager border p :=
  fun state _ _ here run => absurd run (h state _ (Border.rim_of_left_nil here) rfl _)

theorem Rim.cases {lexeme : Lexeme Token} (rim : Rim lexeme) : lexeme = .closing .round ∨ lexeme = .endOfText := by
  cases rim with
  | close => exact .inl rfl
  | ended => exact .inr rfl

theorem Rim.test {lexeme : Lexeme Token} (rim : Rim lexeme) {test : Lexeme Token → α} {value : α}
    (close : test (.closing .round) = value) (ended : test .endOfText = value) : test lexeme = value := by
  cases rim with
  | close => exact close
  | ended => exact ended

theorem Rim.closesStatement {lexeme : Lexeme Token} (rim : Rim lexeme) : closesStatement lexeme = true :=
  rim.test rfl rfl

/-- What a parser does that goes no further than where a statement ends. -/
theorem Rests.of_stays (value : α)
    (h : ∀ state, closesStatement state.next.lexeme = true → p.run state = .ok (value, state)) : Rests border p := by
  intro state twin after value' ends here there final scopes run _
  have left : closesStatement state.next.lexeme = true := (Border.rim_of_left_nil here).closesStatement
  have right : closesStatement twin.next.lexeme = true := by
    rw [Border.next_of_right_nil there final]
    exact ends
  rw [h state left] at run
  obtain ⟨rfl, rfl⟩ := Prod.mk.inj (Except.ok.inj run)
  exact ⟨twin, h twin right, there, scopes⟩

end Rests

/-! After a token -/

theorem Reach.strands_mono {lexeme : Lexeme Token} (le : reach'.full = true → reach.full = true)
    (strands : reach'.strands lexeme = true) : reach.strands lexeme = true := by
  rw [Reach.strands, Bool.or_eq_true, Bool.and_eq_true] at strands ⊢
  exact strands.imp_right fun ⟨separator, full⟩ => ⟨separator, le full⟩

theorem Reach.strands_of_bindsArgument {lexeme : Lexeme Token} (binds : bindsArgument lexeme = true) :
    reach.strands lexeme = true := by
  rw [Reach.strands, binds, Bool.true_or]

namespace CarriesAt

variable {p q : Parser α} {next : α → Parser β}

/-- Parsers that run alike where they begin with the token. -/
theorem congr (h : CarriesAt border tied token start finish reach q)
    (same : ∀ state, state.next = token → p.run state = q.run state) :
    CarriesAt border tied token start finish reach p where
  steady here run := h.steady here (same _ here ▸ run)
  spans here run := h.spans here (same _ (Border.next_of_left here) ▸ run)
  alone strands here run := h.alone strands here (same _ (Border.next_of_left here.ahead) ▸ run)
  carries alike run left allowed := by
    obtain ⟨after', run', rest⟩ := h.carries alike (same _ (Border.next_of_left alike.left.ahead) ▸ run) left allowed
    exact ⟨after', (same _ (Border.next_of_right alike.right)).trans run', rest⟩

theorem of_fails (h : ∀ state, state.next = token → ∀ result, p.run state ≠ .ok result) :
    CarriesAt border tied token start finish reach p where
  steady here run := absurd run (h _ here _)
  spans here run := absurd run (h _ (Border.next_of_left here) _)
  alone _ here run := absurd run (h _ (Border.next_of_left here.ahead) _)
  carries alike run := absurd run (h _ (Border.next_of_left alike.left.ahead) _)

theorem mono (h : CarriesAt border tied token start finish reach p) (le : reach'.full = true → reach.full = true) :
    CarriesAt border tied token start finish reach' p where
  steady := h.steady
  spans := h.spans
  alone strands := h.alone fun last mem => Reach.strands_mono le (strands last mem)
  carries alike run left allowed := h.carries alike run left (allowed.mono le)

theorem to_firm (h : CarriesAt border tied token start finish .whole p) :
    CarriesAt border tied token start finish .firm p :=
  h.mono fun _ => rfl

theorem to_whole (h : CarriesAt border tied token start finish .firm p) :
    CarriesAt border tied token start finish .whole p :=
  h.mono fun _ => rfl

theorem still [still : Still p] (h : ∀ value, CarriesAt border tied token start finish reach (next value)) :
    CarriesAt border tied token start finish reach (p >>= next) where
  steady {state _ _} here run := by
    obtain ⟨value, middle, first, second⟩ := run_bind_eq_ok_iff.1 run
    obtain ⟨scopes, rfl, -⟩ := still.stays first (rfl : state.scopes = state.scopes)
    have here' : State.next { state with scopes } = token := here
    obtain ⟨fewer, final, barred⟩ := (h value).steady here' second
    exact ⟨fewer, final, barred⟩
  spans {state _ _ _ _} here run := by
    obtain ⟨value, middle, first, second⟩ := run_bind_eq_ok_iff.1 run
    obtain ⟨scopes, rfl, -⟩ := still.stays first (rfl : state.scopes = state.scopes)
    have here' : State.ahead { state with scopes } = border.left (token :: _) := here
    exact (h value).spans here' second
  alone {state _ _ _} strands here run := by
    obtain ⟨value, middle, first, second⟩ := run_bind_eq_ok_iff.1 run
    obtain ⟨scopes, rfl, -⟩ := still.stays first (rfl : state.scopes = state.scopes)
    have here' : border.Before (token :: _) { state with scopes } := ⟨here.ahead, here.ended⟩
    exact (h value).alone strands here' second
  carries {state twin _ _ _ _} alike run left allowed := by
    obtain ⟨value, middle, first, second⟩ := run_bind_eq_ok_iff.1 run
    obtain ⟨scopes, rfl, first'⟩ := still.stays first alike.scopes
    have alike' : Alike border tied start (token :: _) { state with scopes } { twin with scopes } :=
      ⟨⟨alike.left.ahead, alike.left.ended⟩, alike.right, alike.final, rfl, alike.barred, alike.shelters, alike.range⟩
    obtain ⟨after', second', rest⟩ := (h value).carries alike' second left allowed
    exact ⟨after', run_bind_eq_ok_iff.2 ⟨value, _, first', second'⟩, rest⟩

/-- A parser, and what follows it. What follows must read something if the parser itself may not reach the border. -/
theorem bind (h : CarriesAt border tied token start mid reach' p)
    (tail : ∀ value, Carries border tied reach mid finish (next value))
    (reaches : reach = .whole → reach'.full = true) : CarriesAt border tied token start finish reach (p >>= next) where
  steady here run := by
    obtain ⟨value, middle, first, second⟩ := run_bind_eq_ok_iff.1 run
    exact (h.steady here first).trans ((tail value).behind second)
  spans {state after _ more rest} here run left some := by
    obtain ⟨value, middle, first, second⟩ := run_bind_eq_ok_iff.1 run
    obtain ⟨found, found_eq, fewer, -⟩ := Border.between_of_behind here left
      (h.steady (Border.next_of_left here) first) ((tail value).behind second)
    have found_some : found ≠ [] := by
      rintro rfl
      exact some (List.suffix_nil.1 fewer)
    obtain ⟨used, split, spans⟩ := h.spans here first found_eq found_some
    obtain ⟨token', more', rfl⟩ := List.exists_cons_of_ne_nil found_some
    obtain ⟨used', split', spans'⟩ := ((tail value).at_token token').spans found_eq second left some
    exact ⟨used ++ used', by rw [split, split', List.append_assoc], spans.append spans'⟩
  alone {state after _ more} strands here run left := by
    obtain ⟨value, middle, first, second⟩ := run_bind_eq_ok_iff.1 run
    have behind := h.steady (Border.next_of_left here.ahead) first
    obtain ⟨found, found_eq, -, fewer⟩ := Border.between_of_behind here.ahead left behind ((tail value).behind second)
    have middle_eq := here.behind behind found_eq
    cases found with
    | nil =>
      cases reach with
      | inner => exact h.alone (fun last mem => @Reach.strands_mono reach' .inner _ nofun (strands last mem)) here first found_eq
      | whole => exact h.alone (fun last mem => Reach.strands_mono (fun _ => reaches rfl) (strands last mem)) here first found_eq
      | firm => exact (tail value).fits middle_eq second left
    | cons token' more' =>
      rw [getLast?_of_suffix fewer (List.cons_ne_nil _ _)] at strands
      exact ((tail value).at_token token').alone strands middle_eq second left
  carries {state twin after _ more rest} alike run left allowed := by
    obtain ⟨value, middle, first, second⟩ := run_bind_eq_ok_iff.1 run
    have behind := h.steady (Border.next_of_left alike.left.ahead) first
    obtain ⟨found, found_eq, fewer, -⟩ :=
      Border.between_of_behind alike.left.ahead left behind ((tail value).behind second)
    have middle_eq := alike.left.behind behind found_eq
    cases found with
    | nil =>
      obtain rfl := List.suffix_nil.1 fewer
      cases reach with
      | inner => exact nomatch allowed.full_of_nil rfl
      | firm => exact absurd left ((tail value).fits middle_eq second)
      | whole =>
        obtain ⟨middle', first', right, scopes⟩ :=
          h.carries alike first found_eq (allowed.mono fun _ => reaches rfl)
        have behind' := h.steady (Border.next_of_right alike.right) first'
        obtain ⟨after', second', rest⟩ :=
          (tail value).fits (allowed.ends_of_nil rfl) middle_eq right (behind'.final.trans alike.final) scopes second left
        exact ⟨after', run_bind_eq_ok_iff.2 ⟨value, middle', first', second'⟩, rest⟩
    | cons token' more' =>
      have some : token' :: more' ≠ [] := List.cons_ne_nil _ _
      have steadfast : ¬Dangling (token' :: more') := by
        intro dangling
        by_cases none : rest = []
        · obtain ⟨sign, same, binds⟩ := dangling
          obtain ⟨rfl, rfl⟩ := List.cons_eq_cons.1 same
          rw [none] at left
          refine ((tail value).at_token token').alone (fun last mem => ?_) middle_eq second left
          obtain rfl := Option.some.inj mem
          exact Reach.strands_of_bindsArgument binds
        · exact allowed.not_dangling (dangling.of_suffix fewer none)
      obtain ⟨middle', first', right, scopes⟩ :=
        h.carries alike first found_eq ⟨fun nil => absurd nil some, fun nil => absurd nil some, steadfast⟩
      obtain ⟨used, split, spans⟩ := h.spans alike.left.ahead first found_eq some
      rw [split] at alike
      have alike' := alike.behind spans behind found_eq (h.steady ?_ first') right scopes
      · obtain ⟨after', second', rest⟩ := ((tail value).at_token token').carries alike' second left allowed
        exact ⟨after', run_bind_eq_ok_iff.2 ⟨value, middle', first', second'⟩, rest⟩
      · rw [← split] at alike
        exact Border.next_of_right alike.right

theorem ite {test : Prop} {_ : Decidable test} (h : test → CarriesAt border tied token start finish reach p)
    (h' : ¬test → CarriesAt border tied token start finish reach q) :
    CarriesAt border tied token start finish reach (if test then p else q) := by
  split
  · exact h ‹_›
  · exact h' ‹_›

theorem pure (value : α) : CarriesAt border tied token start start reach (Pure.pure value) where
  steady _ run := by
    obtain ⟨-, rfl⟩ := Prod.mk.inj (Except.ok.inj run)
    exact Behind.refl _
  spans {_ _ _ more rest} here run left _ := by
    obtain ⟨-, rfl⟩ := Prod.mk.inj (Except.ok.inj run)
    rw [here] at left
    exact ⟨[], border.left_injective left, Spans.nil start⟩
  alone _ here run left := by
    obtain ⟨-, rfl⟩ := Prod.mk.inj (Except.ok.inj run)
    rw [here.ahead] at left
    exact nomatch border.left_injective left
  carries {_ twin _ _ _ _} alike run left _ := by
    obtain ⟨rfl, rfl⟩ := Prod.mk.inj (Except.ok.inj run)
    refine ⟨twin, rfl, ?_, alike.scopes⟩
    rw [alike.right, border.left_injective (alike.left.ahead.symm.trans left)]

/-- The token is read. Behind a sign something else must follow. -/
theorem read {next : Token → Parser α} (steps : Steps start token.lexeme mid)
    (tail : ∀ token', CarriesAt border tied token' mid finish reach (next token))
    (sign : reach.strands token.lexeme = true → Eager border (next token))
    (rests : reach.full = true → border.endsRange = true ∨ opensRange token.lexeme = false →
      Rests border (next token)) :
    CarriesAt border tied token start finish reach (advance >>= next) where
  steady {state after _} here run := by
    rw [run_bind_of_ok (run_advance state), here] at run
    have behind : Behind state (state.on state.ahead.tail) := ⟨List.tail_suffix _, rfl, rfl⟩
    exact behind.trans ((tail _).steady rfl run)
  spans {state after _ more rest} here run left some := by
    rw [run_bind_of_ok (run_advance state), Border.next_of_left here] at run
    have middle : (state.on state.ahead.tail).ahead = border.left more := by
      rw [State.ahead_on, here]
      rfl
    cases more with
    | nil =>
      have fewer := ((tail _).steady rfl run).fewer
      rw [left, middle] at fewer
      exact absurd (List.suffix_nil.1 (Border.suffix_of_left fewer)) some
    | cons token' more' =>
      obtain ⟨used, split, spans⟩ := (tail token').spans middle run left some
      exact ⟨token :: used, by rw [split, List.cons_append], steps.spans.append spans⟩
  alone {state after _ more} strands here run left := by
    rw [run_bind_of_ok (run_advance state), Border.next_of_left here.ahead] at run
    have middle : border.Before more (state.on state.ahead.tail) := ⟨by rw [State.ahead_on, here.ahead]; rfl, here.ended⟩
    cases more with
    | nil => exact sign (strands token rfl) middle run left
    | cons token' more' =>
      rw [getLast?_of_suffix (List.suffix_cons _ _) (List.cons_ne_nil _ _)] at strands
      exact (tail token').alone strands middle run left
  carries {state twin after _ more rest} alike run left allowed := by
    rw [run_bind_of_ok (run_advance state), Border.next_of_left alike.left.ahead] at run
    have middle : border.Before more (state.on state.ahead.tail) :=
      ⟨by rw [State.ahead_on, alike.left.ahead]; rfl, alike.left.ended⟩
    have middle' : (twin.on twin.ahead.tail).ahead = border.right more := by
      rw [State.ahead_on, alike.right]
      rfl
    have run' : (advance >>= next).run twin = (next token).run (twin.on twin.ahead.tail) := by
      rw [run_bind_of_ok (run_advance twin), Border.next_of_right alike.right]
    cases more with
    | nil =>
      have fewer := ((tail _).steady rfl run).fewer
      rw [left, middle.ahead] at fewer
      obtain rfl := List.suffix_nil.1 (Border.suffix_of_left fewer)
      have range : border.endsRange = true ∨ opensRange token.lexeme = false :=
        alike.range.imp_right fun closed => closed token rfl
      obtain ⟨after', found, rest⟩ :=
        rests (allowed.full_of_nil rfl) range (allowed.ends_of_nil rfl) middle middle' alike.final alike.scopes run left
      exact ⟨after', run'.trans found, rest⟩
    | cons token' more' =>
      have behind : Behind state (state.on state.ahead.tail) := ⟨List.tail_suffix _, rfl, rfl⟩
      have behind' : Behind twin (twin.on twin.ahead.tail) := ⟨List.tail_suffix _, rfl, rfl⟩
      rw [← List.singleton_append] at alike
      have alike' := alike.behind steps.spans behind middle.ahead behind' middle' alike.scopes
      obtain ⟨after', found, rest⟩ := (tail token').carries alike' run left allowed
      exact ⟨after', run'.trans found, rest⟩

theorem read_skip {next : Unit → Parser α} (steps : Steps start token.lexeme mid)
    (tail : ∀ token', CarriesAt border tied token' mid finish reach (next ()))
    (sign : reach.strands token.lexeme = true → Eager border (next ()))
    (rests : reach.full = true → border.endsRange = true ∨ opensRange token.lexeme = false → Rests border (next ())) :
    CarriesAt border tied token start finish reach (discard advance >>= next) :=
  (@read _ _ _ _ _ _ _ _ (fun _ => next ()) steps tail sign rests).congr fun _ _ => rfl

theorem advance {next : Token → Parser α} (steps : Steps start token.lexeme mid)
    (tail : Carries border tied reach mid finish (next token))
    (sign : reach.strands token.lexeme = true → reach = .firm) :
    CarriesAt border tied token start finish reach (Grammar.advance >>= next) := by
  refine .read steps tail.at_token (fun strands => ?_) fun full _ => ?_
  · have fits := tail.fits
    rwa [sign strands] at fits
  · cases reach with
    | inner => exact nomatch full
    | whole => exact tail.fits
    | firm => exact Eager.rests tail.fits

theorem skip {next : Unit → Parser α} (steps : Steps start token.lexeme mid)
    (tail : Carries border tied reach mid finish (next ()))
    (sign : reach.strands token.lexeme = true → reach = .firm) :
    CarriesAt border tied token start finish reach (discard Grammar.advance >>= next) :=
  (@advance _ _ _ _ _ _ _ _ (fun _ => next ()) steps tail sign).congr fun _ _ => rfl

/-! Looking at the token -/

theorem peek {next : Token → Parser α} (h : CarriesAt border tied token start finish reach (next token)) :
    CarriesAt border tied token start finish reach (Grammar.peek >>= next) := by
  refine h.congr fun state here => ?_
  rw [run_bind_of_ok (run_peek state), here]

theorem check {test : Lexeme Token → Bool} {next : Bool → Parser α}
    (h : CarriesAt border tied token start finish reach (next (test token.lexeme))) :
    CarriesAt border tied token start finish reach (Grammar.check test >>= next) := by
  refine h.congr fun state here => ?_
  rw [run_bind_of_ok (run_check state test), here]

theorem atCallParen {next : Bool → Parser α}
    (h : CarriesAt border tied token start finish reach (next (token.lexeme.isOpening .round && !token.spaced))) :
    CarriesAt border tied token start finish reach (Grammar.atCallParen >>= next) := by
  refine h.congr fun state here => ?_
  rw [run_bind_of_ok (run_atCallParen state), here]

/-- Whether an argument begins does not depend on what is behind the border, but for a sign that dangles there. -/
theorem atArgument {next : Bool → Parser α}
    (h : ∀ begins, CarriesAt border tied token start finish reach (next begins)) :
    CarriesAt border tied token start finish reach (Grammar.atArgument >>= next) where
  steady {state _ _} here run := (h _).steady here ((run_bind_of_ok (run_atArgument state) next).symm.trans run)
  spans {state _ _ _ _} here run := (h _).spans here ((run_bind_of_ok (run_atArgument state) next).symm.trans run)
  alone {state _ _ _} strands here run :=
    (h _).alone strands here ((run_bind_of_ok (run_atArgument state) next).symm.trans run)
  carries {state twin after _ more rest} alike run left allowed := by
    rw [run_bind_of_ok (run_atArgument state), Border.next_of_left alike.left.ahead, alike.left.ahead] at run
    have second_eq : (Grammar.atArgument >>= next).run twin = _ := run_bind_of_ok (run_atArgument twin) next
    rw [Border.next_of_right alike.right, alike.right] at second_eq
    cases more with
    | cons second more =>
      obtain ⟨after', run', found⟩ := (h _).carries alike run left allowed
      exact ⟨after', second_eq.trans run', found⟩
    | nil =>
      cases binds : bindsArgument token.lexeme with
      | false =>
        rw [binds] at run second_eq
        obtain ⟨after', run', found⟩ := (h _).carries alike run left allowed
        exact ⟨after', second_eq.trans run', found⟩
      | true =>
        have fewer := ((h _).steady (Border.next_of_left alike.left.ahead) run).fewer
        rw [left, alike.left.ahead] at fewer
        obtain rfl | none := List.suffix_cons_iff.1 (Border.suffix_of_left fewer)
        · exact absurd ⟨token, rfl, binds⟩ allowed.not_dangling
        · rw [List.suffix_nil.1 none] at left
          refine absurd left ((h _).alone (fun last mem => ?_) alike.left run)
          obtain rfl := Option.some.inj mem
          exact Reach.strands_of_bindsArgument binds

/-! Tokens that are skipped or demanded -/

theorem skipWhile {test : Lexeme Token → Bool}
    (h : ∀ lexeme, test lexeme = true → Steps start lexeme start ∧ bindsArgument lexeme = false)
    (stops : test (.closing .round) = false) : CarriesAt border tied token start start .inner (skipWhile test) where
  steady {state _ _} _ run := by
    obtain ⟨-, rfl⟩ := Prod.mk.inj (Except.ok.inj run)
    exact ⟨List.dropWhile_suffix _, rfl, rfl⟩
  spans {state _ _ more rest} here run left _ := by
    obtain ⟨-, rfl⟩ := Prod.mk.inj (Except.ok.inj run)
    have kept := (congrArg _ here).symm.trans left
    rw [Border.dropWhile_left stops] at kept
    refine ⟨(token :: more).takeWhile (test ·.lexeme), ?_, ?_⟩
    · rw [← border.left_injective kept, List.takeWhile_append_dropWhile]
    · exact Spans.of_forall fun skipped mem => (h _ (List.all_eq_true.1 List.all_takeWhile skipped mem)).1
  alone {state _ _ more} strands here run left := by
    obtain ⟨-, rfl⟩ := Prod.mk.inj (Except.ok.inj run)
    have kept := (congrArg _ here.ahead).symm.trans left
    rw [Border.dropWhile_left stops] at kept
    have last := List.getLast?_eq_some_getLast (List.cons_ne_nil token more)
    have skipped := List.dropWhile_eq_nil_iff.1 (border.left_injective kept) _ (List.mem_of_getLast? last)
    have binds := strands _ last
    rw [Reach.strands, (h _ skipped).2, Reach.full, Bool.and_false, Bool.or_false] at binds
    contradiction
  carries {state twin _ _ more rest} alike run left allowed := by
    obtain ⟨-, rfl⟩ := Prod.mk.inj (Except.ok.inj run)
    have kept := (congrArg _ alike.left.ahead).symm.trans left
    rw [Border.dropWhile_left stops] at kept
    obtain rfl := border.left_injective kept
    refine ⟨_, rfl, ?_, alike.scopes⟩
    have some : (token :: more).dropWhile (test ·.lexeme) ≠ [] := fun nil => nomatch allowed.full_of_nil nil
    exact (congrArg _ alike.right).trans (Border.dropWhile_right some)

end CarriesAt

end Formulary.Grammar

import Formulary.Proofs.Grammar.Lifting

/-!
Parsers that make progress. They are told apart by what they leave of the tokens ahead: some of them always read one,
and where one was read every construct goes on with less.
-/

namespace Formulary

/-! Weights -/

theorem tokensWeight_append (front back : List Token) :
    tokensWeight (front ++ back) = tokensWeight front + tokensWeight back := by
  induction front with
  | nil => simp [tokensWeight]
  | cons token rest ih => rw [List.cons_append, tokensWeight, tokensWeight, ih, Nat.add_assoc]

theorem weight_le_of_mem {tokens : List Token} {token : Token} (mem : token ∈ tokens) :
    token.weight ≤ tokensWeight tokens := by
  obtain ⟨front, back, rfl⟩ := List.append_of_mem mem
  rw [tokensWeight_append, tokensWeight]
  omega

theorem weight_pos (token : Token) : 0 < token.weight := by
  unfold Token.weight
  split <;> omega

theorem weight_eq (token : Token) : token.weight = 1 + segmentsWeight token.lexeme.segments := by
  obtain ⟨lexeme, pos, spaced⟩ := token
  cases lexeme <;> rfl

theorem tokensWeight_lt_of_mem {segments : List (Segment Token)} {code : List Token} {pos : Position}
    (mem : .code code pos ∈ segments) : tokensWeight code < segmentsWeight segments := by
  induction segments with
  | nil => cases mem
  | cons segment rest ih =>
    rw [segmentsWeight]
    obtain rfl | mem := List.mem_cons.1 mem
    · rw [segmentWeight]
      omega
    · have := ih mem
      omega

namespace Grammar

/-- The complaint that a text is nested too deep for the rules that are unrolled. -/
inductive Deep : ReadError → Prop
  | intro {error : Malformed} : error.cause = .tooDeep → Deep (.malformed error)

variable {α β : Type}

theorem ne_end_of_test {test : Lexeme Token → Bool} {lexeme : Lexeme Token} (ends : test .endOfText = false)
    (h : test lexeme = true) : lexeme ≠ .endOfText := by
  rintro rfl
  rw [ends] at h
  contradiction

theorem ne_end_of_view {view : Lexeme Token → Option β} {lexeme : Lexeme Token} {value : β}
    (ends : view .endOfText = none) (h : view lexeme = some value) : lexeme ≠ .endOfText := by
  rintro rfl
  rw [ends] at h
  contradiction

/-- A parser that leads from some states to others, or to a complaint that is not about the depth of the text. -/
structure Settles (before : State → Prop) (p : Parser α) (after : State → Prop) : Prop where
  leads {state next : State} {value : α} : before state → p.run state = .ok (value, next) → after next
  fair {state : State} {fault : ReadError} : before state → p.run state = .error fault → ¬Deep fault

/-- The tokens ahead weigh less than a bound. -/
structure Under (n : Nat) (state : State) : Prop where
  capped : Capped (state.ahead ++ [state.final])
  weight_lt : tokensWeight state.ahead < n

/-- There is a token to read. -/
structure Brink (n : Nat) (state : State) : Prop extends Under n state where
  more : state.next.lexeme ≠ .endOfText

/-- The token that is looked at. -/
structure Facing (token : Token) (n : Nat) (state : State) : Prop extends Under n state where
  here : state.next = token

/-- A token was read, unless there was none. -/
structure Past (token : Token) (n : Nat) (state : State) : Prop extends Under (n + 1) state where
  under : token.lexeme ≠ .endOfText → Under n state

/-- Code that weighs less than a bound. -/
structure Light (n : Nat) (tokens : List Token) : Prop where
  capped : Capped tokens
  weight_lt : tokensWeight tokens < n

/-- All code in a token weighs less than a bound. -/
def Encloses (n : Nat) (token : Token) : Prop :=
  ∀ tokens pos, .code tokens pos ∈ token.lexeme.segments → Light n tokens

namespace Under

variable {n m : Nat} {state after : State}

theorem mono (h : Under n state) (le : n ≤ m) : Under m state :=
  ⟨h.capped, Nat.lt_of_lt_of_le h.weight_lt le⟩

theorem of_suffix (h : Under n state) (fewer : after.ahead <:+ state.ahead) (same : after.final = state.final) :
    Under n after := by
  refine ⟨?_, ?_⟩
  · rw [same]
    exact h.capped.behind fewer
  · obtain ⟨used, eq⟩ := fewer
    have := h.weight_lt
    rw [← eq, tokensWeight_append] at this
    omega

theorem encloses (h : Under (n + 1) state) : Encloses n state.next := by
  intro tokens pos within
  refine ⟨h.capped.inner state.next_mem within, ?_⟩
  -- The end of the tokens has no code in it.
  obtain ahead | final := List.mem_append.1 state.next_mem
  · have := weight_le_of_mem ahead
    rw [weight_eq] at this
    have := tokensWeight_lt_of_mem within
    have := h.weight_lt
    omega
  · rw [List.mem_singleton.1 final, h.capped.final] at within
    cases within

end Under

theorem Encloses.mono {n m : Nat} {token : Token} (h : Encloses n token) (le : n ≤ m) : Encloses m token :=
  fun tokens pos within => ⟨(h tokens pos within).capped, Nat.lt_of_lt_of_le (h tokens pos within).weight_lt le⟩

namespace Settles

variable {n m : Nat} {before before' after after' : State → Prop} {p q : Parser α} {token : Token}

theorem mono (h : Settles before p after) (weaker : ∀ state, before' state → before state)
    (stronger : ∀ state, after state → after' state) : Settles before' p after' :=
  ⟨fun start run => stronger _ (h.leads (weaker _ start) run), fun start run => h.fair (weaker _ start) run⟩

theorem keep (h : Settles before p (Under n)) : Settles before p (Under (n + 1)) :=
  h.mono (fun _ => id) fun _ under => under.mono (Nat.le_succ n)

theorem away (h : Settles (Under n) p after) : Settles (Facing token n) p after :=
  h.mono (fun _ => Facing.toUnder) fun _ => id

theorem at_brink (h : Settles (Brink n) p after) (more : token.lexeme ≠ .endOfText) :
    Settles (Facing token n) p after :=
  h.mono (fun _ facing => ⟨facing.toUnder, facing.here ▸ more⟩) fun _ => id

theorem of_zero : Settles (Under 0) p after :=
  ⟨fun start => absurd start.weight_lt (Nat.not_lt_zero _), fun start => absurd start.weight_lt (Nat.not_lt_zero _)⟩

theorem of_quiet (p : Parser α) [quiet : Quiet p] : Settles (Under n) p (Under n) where
  leads start run := start.of_suffix (quiet.keeps run).1 (quiet.keeps run).2
  fair _ run := by
    obtain ⟨⟩ := quiet.complains run
    rintro ⟨⟨⟩⟩

theorem bind {middle : State → Prop} {next : α → Parser β} (h : Settles before p middle)
    (hnext : ∀ value, Settles middle (next value) after) : Settles before (p >>= next) after where
  leads start run := by
    obtain ⟨value, mid, here, there⟩ := run_bind_eq_ok_iff.1 run
    exact (hnext value).leads (h.leads start here) there
  fair {state fault} start run := by
    rw [StateT.run_bind] at run
    cases here : p.run state with
    | error error =>
      rw [here] at run
      obtain rfl := Except.error.inj run
      exact h.fair start here
    | ok found =>
      rw [here] at run
      exact (hnext found.1).fair (h.leads start here) run

theorem around {enter : State → State} {leave : State → State → State} (brackets : Brackets enter leave)
    (h : Settles (Under n) p (Under n)) : Settles (Under n) (around enter leave p) (Under n) :=
  have := brackets.quiet_enter
  have := brackets.quiet_leave
  (of_quiet get).bind fun _ => (of_quiet _).bind fun _ => h.bind fun _ => (of_quiet _).bind fun _ => of_quiet _

theorem map {f : α → β} (h : Settles before p after) : Settles before (f <$> p) after := by
  rw [map_eq_pure_bind]
  exact h.bind fun value => ⟨fun start run => (Prod.mk.inj (Except.ok.inj run)).2 ▸ start, fun _ => nofun⟩

theorem ite {test : Prop} {_ : Decidable test} (h : test → Settles before p after)
    (h' : ¬test → Settles before q after) : Settles before (if test then p else q) after := by
  split
  · exact h ‹_›
  · exact h' ‹_›

/-- A token that is looked at. -/
theorem look {next : Token → Parser α}
    (h : ∀ token, Encloses n token → Settles (Facing token (n + 1)) (next token) after) :
    Settles (Under (n + 1)) (peek >>= next) after where
  leads start run := (h _ start.encloses).leads ⟨start, rfl⟩ run
  fair start run := (h _ start.encloses).fair ⟨start, rfl⟩ run

/-- A test of the token that comes next, of which the end of the text does not fulfil it. -/
theorem test {test : Lexeme Token → Bool} {next : Bool → Parser α} (inner : test .endOfText = false)
    (yes : Settles (Brink n) (next true) after) (no : Settles (Under n) (next false) after) :
    Settles (Under n) (check test >>= next) after := by
  constructor
  · intro state last value start run
    rw [run_bind_of_ok (run_check state test)] at run
    cases h : test state.next.lexeme <;> rw [h] at run
    · exact no.leads start run
    · exact yes.leads ⟨start, ne_end_of_test inner h⟩ run
  · intro state fault start run
    rw [run_bind_of_ok (run_check state test)] at run
    cases h : test state.next.lexeme <;> rw [h] at run
    · exact no.fair start run
    · exact yes.fair ⟨start, ne_end_of_test inner h⟩ run

/-- A token is read. -/
theorem advance : Settles (Brink (n + 1)) advance (Under n) where
  leads {state _ _} start run := by
    obtain ⟨-, rfl⟩ := Prod.mk.inj (Except.ok.inj ((run_advance state).symm.trans run))
    obtain ⟨tokens, front⟩ := state.front start.capped.final start.more
    refine ⟨start.capped.behind (List.tail_suffix _), ?_⟩
    have bound := start.weight_lt
    have := weight_pos state.next
    rw [front, tokensWeight] at bound
    simp only [State.ahead_on, front, List.tail_cons]
    omega
  fair _ := nofun

theorem skip : Settles (Brink (n + 1)) (discard Grammar.advance) (Under n) :=
  advance.map

/-- A token is read, if there is one. -/
theorem read {next : Token → Parser α} (h : ∀ token, Settles (Past token n) (next token) after) :
    Settles (Under (n + 1)) (Grammar.advance >>= next) after := by
  have past {state : State} (start : Under (n + 1) state) : Past state.next n (state.on state.ahead.tail) :=
    ⟨start.of_suffix (List.tail_suffix _) rfl, fun more => advance.leads ⟨start, more⟩ (run_advance state)⟩
  constructor
  · intro state last value start run
    rw [run_bind_of_ok (run_advance state)] at run
    exact (h _).leads (past start) run
  · intro state fault start run
    rw [run_bind_of_ok (run_advance state)] at run
    exact (h _).fair (past start) run

theorem past (h : Settles (Under n) p after) (more : token.lexeme ≠ .endOfText) : Settles (Past token n) p after :=
  h.mono (fun _ past => past.under more) fun _ => id

theorem past_end (h : Settles (Under (n + 1)) p after) : Settles (Past token n) p after :=
  h.mono (fun _ => Past.toUnder) fun _ => id

theorem complains (complaint : Complaint) : Settles before (complain complaint : Parser α) after where
  leads _ := nofun
  fair _ run := by
    cases run
    rintro ⟨⟨⟩⟩

theorem identifier (complaint : Complaint) : Settles (Under (n + 1)) (consumeIdentifier complaint) (Under n) := by
  refine look fun token _ => ?_
  split
  · rename_i name found
    exact at_brink (skip.bind fun _ => of_quiet _) (by simp [found])
  · exact complains complaint

theorem constant (complaint : Complaint) : Settles (Under (n + 1)) (consumeConstant complaint) (Under n) := by
  refine look fun token _ => ?_
  split
  · rename_i name found
    exact at_brink (skip.bind fun _ => of_quiet _) (by simp [found])
  · exact complains complaint

theorem number (value : Except Text.NumberFault α) : Settles before (fromNumber value) before where
  leads start run := by
    cases value with
    | ok value => exact (Prod.mk.inj (Except.ok.inj run)).2 ▸ start
    | error fault => cases run
  fair _ run := by
    cases value with
    | ok value => cases run
    | error fault =>
      cases run
      rintro ⟨⟨⟩⟩

theorem restore {outer : State} (start : Under m outer) :
    Settles (Under n) (modify fun inner => { outer with scopes := inner.scopes } : Parser Unit) (Under m) where
  leads _ run := by
    obtain ⟨-, rfl⟩ := Prod.mk.inj (Except.ok.inj run)
    exact ⟨start.capped, start.weight_lt⟩
  fair _ := nofun

theorem embedded {parse : Rules} {code : List Token} (pos : Position) (light : Light n code)
    (h : Settles (Under n) (parse (.statements {})) (Under n)) :
    Settles (Under n) (embedded parse code pos) (Under n) := by
  have inside (outer : State) (start : Under n outer) : Settles (Under n) (do
      let statements ← parse (.statements {})
      if !(← atStop {}) then complain .unexpectedInCode
      modify fun inner => { outer with scopes := inner.scopes }
      return Piece.code pos statements) (Under n) := by
    refine h.bind fun statements => (of_quiet (atStop {})).bind fun stops => .ite (fun _ => ?_) fun _ => ?_
    · exact (of_quiet (complain _)).bind fun _ => (restore start).bind fun _ => of_quiet (pure _)
    · exact (restore start).bind fun _ => of_quiet (pure _)
  have begins (scopes : List Scope) (barred : Nat) : Under n
      ⟨code.dropLast, code.getLast?.getD ⟨.endOfText, pos, true⟩, scopes, barred⟩ := by
    have split := light.capped.split ⟨.endOfText, pos, true⟩
    refine ⟨by rw [split]; exact light.capped, ?_⟩
    have bound := light.weight_lt
    rw [← split, tokensWeight_append] at bound
    exact Nat.lt_of_le_of_lt (Nat.le_add_right _ _) bound
  exact ⟨fun {state _ _} start run => (inside state start).leads (begins _ _) run,
    fun {state _} start run => (inside state start).fair (begins _ _) run⟩

end Settles

/-- Where tokens are left over, all is well with what follows. -/
def fuelling (n : Nat) : Lifting where
  good := Encloses n
  sound := Light n
  Related p _ := Settles (Under n) p (Under n)
  inner good within := good _ _ within
  quiet p _ := .of_quiet p
  bind h hnext := h.bind hnext
  around brackets h := .around brackets h
  look {_ next _} h := by
    cases n with
    | zero => exact .of_zero
    | succ n =>
      refine .look fun token encloses => ?_
      exact (h token (encloses.mono (Nat.le_succ n))).away
  number {_ _ value} _ _ := .number value
  embedded pos light h := Settles.embedded pos light h

theorem Settles.tail {n : Nat} {p : Parser α} (h : (fuelling n).Related p p) : Settles (Under n) p (Under n) :=
  h

/-- A token is read that is not the end of the text. -/
theorem Settles.skipping {n : Nat} {token : Token} {next : Unit → Parser α} (more : token.lexeme ≠ .endOfText)
    (h : (fuelling n).Related (next ()) (next ())) :
    Settles (Facing token (n + 1)) (discard Grammar.advance >>= next) (Under n) :=
  .at_brink (Settles.skip.bind fun _ => h) more

theorem Settles.led {n : Nat} {before : State → Prop} {first : Parser β} {p : Parser α}
    (h : (fuelling n).Led first first p p) (begin : Settles before first (Under n)) : Settles before p (Under n) := by
  obtain ⟨next, _, rfl, _, h⟩ := h
  exact begin.bind h

theorem Settles.headed {n : Nat} {p : Parser α} (h : (fuelling n).Headed p p) : Settles (Brink (n + 1)) p (Under n) :=
  .led h .advance

end Grammar

end Formulary

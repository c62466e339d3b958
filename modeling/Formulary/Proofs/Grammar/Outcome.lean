import Formulary.Proofs.Grammar.Parses

/-!
What comes of reading. Whatever the tokens are, every rule of the grammar comes to an end, with as many scopes open as
before and as many who wait for a `do`. A construct that is read as a node takes at least one token, and none of them
passes the end of the text.
-/

namespace Formulary.Grammar

open Filter (Eventually atTop)

variable {α β : Type} {state mid after : State} {value : α}

/-! What is as before -/

/-- A state that was reached by reading tokens, with as many scopes as before and as many who wait for a `do`. -/
structure Restored (state after : State) : Prop where
  fewer : after.ahead <:+ state.ahead
  final : after.final = state.final
  barred : after.barred = state.barred
  depth : after.scopes.length = state.scopes.length

theorem Restored.trans (h : Restored state mid) (h' : Restored mid after) : Restored state after :=
  ⟨h'.fewer.trans h.fewer, h'.final.trans h.final, h'.barred.trans h.barred, h'.depth.trans h.depth⟩

/-- Tokens that were read weigh something. -/
theorem Restored.length_lt (h : Restored state after) (lighter : tokensWeight after.ahead < tokensWeight state.ahead) :
    after.ahead.length < state.ahead.length := by
  refine Nat.lt_of_le_of_ne h.fewer.length_le fun same => ?_
  rw [h.fewer.eq_of_length same] at lighter
  exact Nat.lt_irrefl _ lighter

/-- A parser that restores all but the tokens. -/
def Restores (p : Parser α) : Prop :=
  ∀ ⦃state value after⦄, p.run state = .ok (value, after) → Restored state after

namespace Restores

variable {p : Parser α}

theorem of_restoring (p : Parser α) [restoring : Restoring p] : Restores p := by
  intro state value after run
  obtain ⟨fewer, final⟩ := restoring.keeps run
  obtain ⟨barred, depth⟩ := restoring.restores run
  exact ⟨fewer, final, barred, depth⟩

theorem bind {next : α → Parser β} (h : Restores p) (hnext : ∀ value, Restores (next value)) :
    Restores (p >>= next) := by
  intro state value after run
  obtain ⟨found, mid, here, there⟩ := run_bind_eq_ok_iff.1 run
  exact (h here).trans (hnext found there)

theorem around {enter : State → State} {leave : State → State → State} (brackets : Brackets enter leave)
    (h : Restores p) : Restores (around enter leave p) := by
  intro state value after run
  rw [Grammar.around, run_bind_of_ok (run_get state), run_bind_of_ok (run_modify state enter)] at run
  obtain ⟨found, inner, here, there⟩ := run_bind_eq_ok_iff.1 run
  obtain ⟨rfl, rfl⟩ := Prod.mk.inj (Except.ok.inj there)
  obtain ⟨fewer, final, barred, depth⟩ := h here
  obtain ⟨ahead, last⟩ := brackets.enters state
  obtain ⟨ahead', last'⟩ := brackets.leaves state inner
  refine ⟨?_, ?_, brackets.barred barred, brackets.depth depth⟩
  · rw [ahead', ← ahead]
    exact fewer
  · rw [last', final, last]

theorem number (value : Except Text.NumberFault α) : Restores (fromNumber value) := by
  cases value with
  | ok value => exact of_restoring (pure value)
  | error fault => exact fun _ _ _ => nofun

/-- The tokens of a string are ahead again when the code in it was read. -/
theorem embedded {parse : Rules} {code : List Token} (pos : Position) (h : Restores (parse (.statements {}))) :
    Restores (embedded parse code pos) := by
  intro state value after run
  obtain ⟨statements, last, here, -, -, rfl⟩ := run_embedded_eq_ok_iff.1 run
  exact ⟨List.suffix_refl _, rfl, rfl, (h here).depth⟩

end Restores

/-- Restoring all but the tokens is lifted, whatever the tokens are. -/
def restoration : Lifting where
  good _ := True
  sound _ := True
  Related p _ := Restores p
  inner _ _ := trivial
  quiet p _ := .of_restoring p
  bind h hnext := Restores.bind h hnext
  around brackets h := Restores.around brackets h
  look h := (Restores.of_restoring peek).bind fun token => h token trivial
  number _ _ := .number _
  embedded pos _ h := .embedded pos h

theorem restores_rule (fuel : Nat) : restoration.Rules (rule fuel) (rule fuel) := by
  induction fuel with
  | zero => exact ⟨fun _ _ _ _ _ => nofun⟩
  | succ fuel ih => exact Lifting.lifted_step ih

/-! Constructs -/

/-- The constructs that are read as one node. -/
inductive Construct where
  | statement | connective | negation | expression | choice | range | binary (least : Nat) | unary | operand | primary
  | keyword (token : Token) (word : String)
  | branch | loop (polarity : Polarity) | forLoop | caseOf | beginBlock | methodDef | classDef | moduleDef
  | jump (word : String) | keywordCall (word : String)
  | hash | braceBlock | doBlock | rescueClause

namespace Construct

/-- What reads a construct, in terms of the rules. -/
def parser (parse : Rules) : Construct → Parser Node
  | statement => Grammar.statement parse
  | connective => Grammar.connective parse
  | negation => Grammar.negation parse
  | expression => Grammar.expression parse
  | choice => Grammar.choice parse
  | range => Grammar.range parse
  | binary least => Grammar.binary parse least
  | unary => Grammar.unary parse
  | operand => Grammar.operand parse
  | primary => Grammar.primary parse
  | keyword token word => Grammar.keyword parse token word
  | branch => Grammar.branch parse
  | loop polarity => Grammar.loop parse polarity
  | forLoop => Grammar.forLoop parse
  | caseOf => Grammar.caseOf parse
  | beginBlock => Grammar.beginBlock parse
  | methodDef => Grammar.methodDef parse
  | classDef => Grammar.classDef parse
  | moduleDef => Grammar.moduleDef parse
  | jump word => Grammar.jump parse word
  | keywordCall word => Grammar.keywordCall parse word
  | hash => Grammar.hash parse
  | braceBlock => Grammar.braceBlock parse
  | doBlock => Grammar.doBlock parse
  | rescueClause => Grammar.rescueClause parse

/-- Whether a construct is read only where a sign or a word of its own begins it. -/
def marked : Construct → Bool
  | statement | connective | negation | expression | choice | range | binary _ | unary | operand | primary => false
  | _ => true

end Construct

open Lifting in
theorem lifted_construct {lifting : Lifting} {parse wider : Rules} (rules : lifting.Rules parse wider) (c : Construct) :
    lifting.Related (c.parser parse) (c.parser wider) := by
  have step := lifted_step rules
  cases c with
  | statement => exact step.on .statement trivial
  | connective => exact step.on .connective trivial
  | negation => exact step.on .negation trivial
  | expression => exact step.on .expression trivial
  | choice => exact step.on .choice trivial
  | range => exact (lifted_range rules).related (rules.on (.binary 0) trivial)
  | binary least => exact step.on (.binary least) trivial
  | unary => exact step.on .unary trivial
  | operand => exact step.on .operand trivial
  | primary => exact lifted_primary rules
  | keyword token word => exact lifted_keyword rules token word
  | branch => exact step.on .branch trivial
  | loop polarity => exact (lifted_loop rules polarity).related
  | forLoop => exact (lifted_forLoop rules).related
  | caseOf => exact (lifted_caseOf rules).related
  | beginBlock => exact (lifted_beginBlock rules).related
  | methodDef => exact (lifted_methodDef rules).related
  | classDef => exact (lifted_classDef rules).related
  | moduleDef => exact (lifted_moduleDef rules).related
  | jump word => exact (lifted_jump rules word).related
  | keywordCall word => exact (lifted_keywordCall rules word).related
  | hash => exact (lifted_hash rules).related
  | braceBlock => exact (lifted_braceBlock rules).related
  | doBlock => exact (lifted_doBlock rules).related
  | rescueClause => exact (lifted_rescueClause rules).related

/-- A state where a construct may begin. -/
structure Construct.At (c : Construct) (n : Nat) (state : State) : Prop extends Under n state where
  more : c.marked = true → state.next.lexeme ≠ .endOfText

open Lifting in
/-- A construct that is read takes a token. -/
theorem settles_construct {fuel n : Nat} (enough : 16 * (n + 1) ≤ fuel) (c : Construct) :
    Settles (c.At (n + 1)) (c.parser (rule fuel)) (Under n) := by
  have below : (fuelling n).Rules (rule fuel) (rule fuel) := (fuelled_rule fuel).below (by omega)
  have branch : Settles (Brink (n + 1)) (rule fuel .branch) (Under n) := (fuelled_rule fuel).branch n (by omega)
  have reads (r : Rule Node) (reads : r.Reads) : Settles (c.At (n + 1)) (rule (fuel + 1) r) (Under n) :=
    have := r.rank_lt
    ((fuelled_rule (fuel + 1)).reads r n reads (by omega)).mono (fun _ => Construct.At.toUnder) fun _ => id
  have operators : Settles (c.At (n + 1)) (rule fuel (.binary 0)) (Under n) :=
    ((fuelled_rule fuel).reads _ n (.binary 0) (by rw [Rule.rank]; omega)).mono (fun _ => Construct.At.toUnder)
      fun _ => id
  have marked {p : Parser Node} (own : c.marked = true) (h : Settles (Brink (n + 1)) p (Under n)) :
      Settles (c.At (n + 1)) p (Under n) :=
    h.mono (fun _ start => ⟨start.toUnder, start.more own⟩) fun _ => id
  cases c with
  | statement => exact reads _ .statement
  | connective => exact reads _ .connective
  | negation => exact reads _ .negation
  | expression => exact reads _ .expression
  | choice => exact reads _ .choice
  | range => exact .led (lifted_range below) operators
  | binary least => exact reads _ (.binary least)
  | unary => exact reads _ .unary
  | operand => exact reads _ .operand
  | primary => exact (settles_primary below branch).mono (fun _ => Construct.At.toUnder) fun _ => id
  | keyword token word => exact marked rfl (settles_keyword below token word branch)
  | branch => exact marked rfl (.headed (lifted_branch below))
  | loop polarity => exact marked rfl (.headed (lifted_loop below polarity))
  | forLoop => exact marked rfl (.headed (lifted_forLoop below))
  | caseOf => exact marked rfl (.headed (lifted_caseOf below))
  | beginBlock => exact marked rfl (.headed (lifted_beginBlock below))
  | methodDef => exact marked rfl (.headed (lifted_methodDef below))
  | classDef => exact marked rfl (.headed (lifted_classDef below))
  | moduleDef => exact marked rfl (.headed (lifted_moduleDef below))
  | jump word => exact marked rfl (.headed (lifted_jump below word))
  | keywordCall word => exact marked rfl (.headed (lifted_keywordCall below word))
  | hash => exact marked rfl (.headed (lifted_hash below))
  | braceBlock => exact marked rfl (.headed (lifted_braceBlock below))
  | doBlock => exact marked rfl (.headed (lifted_doBlock below))
  | rescueClause => exact marked rfl (.headed (lifted_rescueClause below))

/-! Outcomes -/

/-- What comes of a parser in the end, whatever the number of calls this takes. -/
structure ComesTo (p : Rules → Parser α) (state : State) (outcome : Except ReadError (α × State)) : Prop where
  eventually : ∀ᶠ fuel in atTop, (p (rule fuel)).run state = outcome
  ended {fault : ReadError} : outcome = .error fault → ¬Deep fault

/-- A parser that does not complain about the depth of the text comes to what it comes to with the calls at hand. -/
theorem comesTo_of_settles {p : Rules → Parser α} {fuel : Nat} {before behind : State → Prop}
    (settles : Settles before (p (rule fuel)) behind) (start : before state)
    (agrees : ∀ more, fuel ≤ more → Agrees (p (rule fuel)) (p (rule more))) :
    ComesTo p state ((p (rule fuel)).run state) where
  eventually := by
    refine Filter.eventually_atTop.2 ⟨fuel, fun more le => ?_⟩
    obtain ⟨fault, run, deep⟩ | same := agrees more le state
    · exact absurd deep (settles.fair start run)
    · exact same
  ended run := settles.fair start run

section Outcomes

variable (capped : Capped (state.ahead ++ [state.final]))
include capped

/-- Every construct comes to an end. -/
theorem exists_comesTo_construct (c : Construct) : ∃ outcome, ComesTo (fun parse => c.parser parse) state outcome ∧
    ∀ node after, outcome = .ok (node, after) → Restored state after ∧
      ((c.marked = true → state.next.lexeme ≠ .endOfText) → after.ahead.length < state.ahead.length) := by
  have under : Under (tokensWeight state.ahead + 1) state := ⟨capped, Nat.lt_succ_self _⟩
  have below := (fuelled_rule (16 * (tokensWeight state.ahead + 1))).below (Nat.le_refl _)
  refine ⟨_, comesTo_of_settles (lifted_construct below c) under fun more le => lifted_construct (agrees_rule le) c,
    fun node after run => ?_⟩
  have restored : Restored state after := lifted_construct (restores_rule _) c run
  refine ⟨restored, fun more => restored.length_lt ?_⟩
  exact ((settles_construct (Nat.le_refl _) c).leads ⟨under, more⟩ run).weight_lt

/-- How much the code weighs that a rule reads. -/
def Rule.weight : {α : Type} → Rule α → Nat
  | _, .code tokens _ => tokensWeight tokens
  | _, _ => 0

omit capped in
theorem Rule.Holds.light {r : Rule α} {n : Nat} (h : r.Holds Capped) (le : r.weight ≤ n) :
    r.Holds (Light (n + 1)) := by
  cases r with
  | code tokens pos => exact ⟨h, Nat.lt_succ_of_le le⟩
  | _ => trivial

/-- Every rule comes to an end. -/
theorem exists_comesTo_rule (r : Rule α) (holds : r.Holds Capped) : ∃ outcome,
    ComesTo (fun parse => parse r) state outcome ∧
      ∀ value after, outcome = .ok (value, after) → Restored state after := by
  have under : Under (tokensWeight state.ahead + r.weight + 1) state := ⟨capped, by omega⟩
  have := r.rank_lt
  have settles := (fuelled_rule (16 * (tokensWeight state.ahead + r.weight + 1))).keeps r
    (tokensWeight state.ahead + r.weight) (holds.light (Nat.le_add_left _ _)) (by omega)
  have sound : r.Holds fun _ => True := by cases r <;> trivial
  exact ⟨_, comesTo_of_settles settles under fun more le => (agrees_rule le).on r sound,
    fun value after run => (restores_rule _).on r sound run⟩

end Outcomes

/-- Reading comes to an end, with a tree or without one. It goes on by a token wherever a construct is read, and it
leaves as many scopes and as many who wait for a `do` as it found. -/
theorem reading_ends (capped : Capped (state.ahead ++ [state.final])) :
    (∀ c : Construct, ∃ outcome, ComesTo (fun parse => c.parser parse) state outcome ∧
      ∀ node after, outcome = .ok (node, after) → Restored state after ∧
        ((c.marked = true → state.next.lexeme ≠ .endOfText) → after.ahead.length < state.ahead.length)) ∧
    ∀ {α : Type} (r : Rule α), r.Holds Capped → ∃ outcome, ComesTo (fun parse => parse r) state outcome ∧
      ∀ value after, outcome = .ok (value, after) → Restored state after :=
  ⟨exists_comesTo_construct capped, fun r holds => exists_comesTo_rule capped r holds⟩

/-- The tokens of `a: 1,` and the end. -/
def unclosedPairs : List Token :=
  [⟨.label "a", ⟨1, 1⟩, false⟩, ⟨.integer "1", ⟨1, 4⟩, true⟩, ⟨.comma, ⟨1, 5⟩, false⟩, ⟨.endOfText, ⟨1, 6⟩, false⟩]

/-- Pairs that nothing closes are read up to the end. -/
theorem reading_ends_pairs : Capped unclosedPairs ∧ ∃ outcome,
    ComesTo (fun parse => parse .pairs) (start unclosedPairs) outcome ∧
      ∀ value after, outcome = .ok (value, after) → Restored (start unclosedPairs) after := by
  have capped : Capped unclosedPairs := .intro ⟨[_, _, _], _, rfl, rfl⟩ (by simp [unclosedPairs, Lexeme.segments])
  exact ⟨capped, (@reading_ends (start unclosedPairs) capped).2 .pairs trivial⟩

end Formulary.Grammar

import Formulary.Proofs.Scope.Arguments

/-!
Blocks, bodies with their clauses, and calls. A name without receiver and parentheses begins a call where it is not
local.
-/

namespace Formulary.Grammar

open Walk (inTurn)

variable {parse : Rules} (rules : TracedRules parse)
include rules

/-! Names -/

theorem traces_blockNames : Traces (blockNames parse) (fun _ => .nothing) fun _ => [] := by
  intro before places start
  have more (name : String) : Triple (Reads before places start) (do return name :: (← parse .blockNames))
      fun _ => Reads (before.andThen .nothing) (places ++ []) start :=
    rules.blockNames.read.bind fun _ => .pure fun _ => id
  refine triple_check.bind fun _ => .ite (fun _ => ?_) fun _ => triple_advance.bind fun token => ?_
  · exact triple_skip.bind fun _ => .pure fun _ reads => reads.mono (by simp) (by simp)
  cases token.lexeme with
  | identifier name | label name => exact more name
  | operator op =>
    refine triple_glance.bind fun next => ?_
    cases next.lexeme with
    | identifier name =>
      exact .ite (fun _ => triple_skip.bind fun _ => more name) fun _ => triple_complainAt
    | _ => exact triple_complainAt
  | comma => exact rules.blockNames.read
  | opening bracket | closing bracket =>
    cases bracket with
    | round => exact rules.blockNames.read
    | _ => exact triple_complainAt
  | _ => exact triple_complainAt

theorem traces_blockParams : Traces (blockParams parse) (fun names => inTurn (names.map .declare)) fun _ => [] := by
  intro before places start
  refine triple_glance.bind fun token => ?_
  generalize token.lexeme.operator? = op
  split
  · exact triple_skip.bind fun _ => .pure fun _ reads => reads.mono (by simp) (by simp)
  · refine triple_skip.bind fun _ => rules.blockNames.pass.bind fun names => (triple_forM_declare names).bind fun _ => ?_
    exact .pure fun _ reads => reads.mono (by simp) (by simp)
  · exact .pure fun _ reads => reads.mono (by simp) (by simp)

/-! Bodies -/

/-- After a body that began at a place: a body that is a single node stands there, or where that node was read. -/
structure BodyTraced (before : Walk) (places : List (Option Position)) (start : State) (pos : Position)
    (nodes : List Node) (state : State) : Prop where
  reads : Reads (before.andThen (walkAll nodes)) places start state
  single (node : Node) (only : nodes = [node]) :
    node.place? = some pos ∨ Reads (before.andThen node.walk) (places ++ [node.place?]) start state

omit rules in
theorem steady_bodyTraced {before : Walk} {places : List (Option Position)} {start : State} {pos : Position}
    {nodes : List Node} : Steady (BodyTraced before places start pos nodes) :=
  fun _ _ rest traced => ⟨traced.reads.on rest, fun node only => (traced.single node only).imp_right (·.on rest)⟩

theorem triple_body {before : Walk} {places : List (Option Position)} {start : State} (pos : Position) :
    Triple (Reads before places start) (body parse pos) (BodyTraced before places start pos) := by
  refine (rules.statements _).read.bind fun statements => rules.rescues.pass.bind fun rescues => ?_
  have finish (elseBody ensureBody : List Node) (nothingElse : rescues.isEmpty = true → elseBody = []) : Triple
      (Reads ((((before.andThen (walkAll statements)).andThen (walkAll rescues)).andThen (walkAll elseBody)).andThen
        (walkAll ensureBody)) (places ++ statements.map Node.place?) start)
      (if rescues.isEmpty && ensureBody.isEmpty then pure statements
        else pure [.guarded pos statements rescues elseBody ensureBody])
      (BodyTraced before places start pos) := by
    refine .ite (fun plain => .pure fun state reads => ?_) fun _ => .pure fun state reads => ?_
    · obtain ⟨noRescue, noEnsure⟩ := Bool.and_eq_true_iff.1 plain
      rw [nothingElse noRescue, List.isEmpty_iff.1 noRescue, List.isEmpty_iff.1 noEnsure] at reads
      refine ⟨reads.mono (by simp) (List.sublist_append_left _ _), fun node only => ?_⟩
      exact .inr (reads.mono (by simp [only]) (by simp [only]))
    · refine ⟨reads.mono (by simp) (List.sublist_append_left _ _), fun node only => .inl ?_⟩
      obtain rfl := (List.singleton_injective only).symm
      rfl
  refine triple_check.bind fun _ => .ite (fun clauses => ?_) fun _ => ?_
  · have some : rescues.isEmpty = true → ∀ elseBody : List Node, elseBody = [] := by simp_all
    refine triple_skip.bind fun _ => (rules.statements _).pass.bind fun elseBody => triple_check.bind fun _ =>
      .ite (fun _ => ?_) fun _ => ?_
    · exact triple_skip.bind fun _ => (rules.statements _).pass.bind fun ensureBody =>
        finish elseBody ensureBody fun none => some none elseBody
    · exact (finish elseBody [] fun none => some none elseBody).weaken fun _ reads => reads.mono (by simp) (.refl _)
  · refine triple_check.bind fun _ => .ite (fun _ => ?_) fun _ => ?_
    · refine triple_skip.bind fun _ => (rules.statements _).pass.bind fun ensureBody => ?_
      exact (finish [] ensureBody fun _ => rfl).weaken fun _ reads => reads.mono (by simp) (.refl _)
    · exact (finish [] [] fun _ => rfl).weaken fun _ reads => reads.mono (by simp) (.refl _)

theorem traces_exceptions : TracesAll (exceptions parse) := by
  intro before places start
  refine triple_check.bind fun _ => .ite (fun _ => ?_) fun _ => ?_
  · exact .pure fun _ reads => reads.mono (by simp) (by simp)
  refine rules.choice.pass.bind fun first => triple_check.bind fun _ => .ite (fun _ => ?_) fun _ => ?_
  · exact triple_skip.bind fun _ => rules.exceptions.pass.bind fun more =>
      .pure fun _ reads => reads.mono (by simp) (by simp)
  · exact .pure fun _ reads => reads.mono (by simp) (by simp)

theorem traces_rescueClause : Traces (rescueClause parse) Node.walk fun _ => [] := by
  intro before places start
  refine triple_advance.bind fun token => rules.exceptions.pass.bind fun classes => ?_
  have finish (binder : Option String) : Triple
      (Reads ((before.andThen (walkAll classes)).andThen (binder.elim .nothing .declare)) places start)
      (do skipWord "then"; return Node.rescueClause token.pos classes binder (← parse (.statements ⟨bodyWords, none⟩)))
      fun node => Reads (before.andThen node.walk) (places ++ []) start :=
    triple_skipWord.bind fun _ => (rules.statements _).pass.bind fun statements => .pure fun _ reads =>
      reads.mono (by simp) (by simp)
  refine triple_check.bind fun _ => .ite (fun _ => ?_) fun _ => ?_
  · exact triple_skip.bind fun _ => triple_consumeIdentifier.bind fun name => (triple_declare name).bind fun _ =>
      finish (some name)
  · exact (finish none).weaken fun _ reads => reads.mono (by simp) (.refl _)

theorem traces_rescues : TracesAll (rescues parse) := by
  intro before places start
  refine triple_check.bind fun _ => .ite (fun _ => ?_) fun _ => ?_
  · exact (traces_rescueClause rules).pass.bind fun clause => rules.rescues.pass.bind fun more =>
      .pure fun _ reads => reads.mono (by simp) (by simp)
  · exact .pure fun _ reads => reads.mono (by simp) (by simp)

/-! Blocks -/

theorem traces_braceBlock : Traces (braceBlock parse) Node.walk fun _ => [] := by
  intro before places start
  refine triple_advance.bind fun token => (Triple.scoped token.pos fun start => ?_).mono (fun _ => id) fun _ _ read =>
    read.2.mono rfl (by simp)
  refine (traces_blockParams rules).pass.bind fun params => (rules.statements _).pass.bind fun statements => ?_
  exact triple_consume.bind fun _ => .pure fun _ reads => ⟨_, by simp, rfl, reads⟩

theorem traces_doBlock : Traces (doBlock parse) Node.walk fun _ => [] := by
  intro before places start
  refine triple_advance.bind fun token => (Triple.scoped token.pos fun start => ?_).mono (fun _ => id) fun _ _ read =>
    read.2.mono rfl (by simp)
  refine (traces_blockParams rules).pass.bind fun params => (triple_body rules token.pos).bind fun statements => ?_
  exact (triple_consumeWord.weaken fun _ => BodyTraced.reads).bind fun _ => .pure fun _ reads =>
    ⟨_, by simp, rfl, reads⟩

theorem traces_blockOption : Traces (blockOption parse) walkOption fun _ => [] := by
  intro before places start
  refine triple_glance.bind fun token => .ite (fun _ => ?_) fun _ => triple_getState.bind fun state =>
    .ite (fun _ => ?_) fun _ => .pure fun _ reads => reads.mono (by simp) (by simp)
  · exact (traces_braceBlock rules).read.bind fun _ => .pure fun _ reads => reads.mono (by simp) (.refl _)
  · exact (traces_doBlock rules).read.bind fun _ => .pure fun _ reads => reads.mono (by simp) (.refl _)

/-! Calls -/

omit rules in
/-- A name without receiver that begins a call has a parenthesis behind it, or it is not local. -/
def Callable (name : String) (receiver : Option Node) (state : State) : Prop :=
  receiver.isNone → (state.next.lexeme.isOpening .round && !state.next.spaced) = false →
    Scope.isLocal name state.scopes = false

theorem triple_callRest {before : Walk} {places : List (Option Position)} {start : State} (name : String)
    (receiver : Option Node) (pos : Position) :
    Triple (fun state => Reads (before.andThen (walkOption receiver)) (places ++ [some pos]) start state ∧
        Callable name receiver state) (callRest parse name receiver pos)
      (ReadsNode before places start) := by
  refine (Triple.of_run run_atCallParen).bind fun parens => triple_atArgument.bind fun _ => ?_
  -- The name stands behind its receiver and before the arguments, so this is where a walk comes upon it.
  have noted (state : State) (h : (Reads (before.andThen (walkOption receiver)) (places ++ [some pos]) start state ∧
      Callable name receiver state) ∧ parens = (state.next.lexeme.isOpening .round && !state.next.spaced)) :
      Reads ((before.andThen (walkOption receiver)).andThen
        (if receiver.isNone && !parens then .mention name false else .nothing)) (places ++ [some pos]) start state := by
    obtain ⟨⟨reads, callable⟩, same⟩ := h
    split
    · rename_i alone
      obtain ⟨noReceiver, noParens⟩ := Bool.and_eq_true_iff.1 alone
      rw [same, Bool.not_eq_true'] at noParens
      exact reads.follow (.mention_call (callable noReceiver noParens))
    · exact reads.mono (by simp) (.refl _)
  have finish (args : List Node) : Triple
      (Reads (((before.andThen (walkOption receiver)).andThen
        (if receiver.isNone && !parens then .mention name false else .nothing)).andThen
          (.byPosition (argumentWalks args))) (places ++ [some pos]) start)
      (do return Node.call pos name receiver args (← blockOption parse) parens)
      (ReadsNode before places start) :=
    (traces_blockOption rules).pass.bind fun block => .pure fun _ reads => reads.mono (by simp) (.refl _)
  refine .weaken (.ite (fun _ => ?_) fun _ => .ite (fun _ => ?_) fun _ => ?_) noted
  · exact triple_skip.bind fun _ => (traces_delimitedArguments rules .round).pass.bind finish
  · exact (traces_commandArguments rules).pass.bind finish
  · exact (finish []).weaken fun _ reads => reads.mono (by simp) (.refl _)

theorem extends_callRest (name : String) (base : Node) :
    Extends base (callRest parse name (some base) base.pos) := by
  intro before places start
  refine (triple_callRest rules name (some base) base.pos).weaken fun state reads => ⟨?_, nofun⟩
  exact reads.based.mono (by simp) (.refl _)

theorem extends_colonTrailer (base : Node) : Extends base (colonTrailer parse base) := by
  intro before places start
  refine triple_advance.bind fun token => triple_atCallParen.bind fun called => ?_
  cases token.lexeme with
  | constant name =>
    refine .ite (fun _ => extends_callRest rules name base _ _ _) fun _ => ?_
    exact .pure fun _ reads => reads.based.mono (by simp) (.refl _)
  | identifier name => exact extends_callRest rules name base _ _ _
  | _ => exact triple_complainAt

theorem extends_trailers (base : Node) : Extends base (trailers parse base) := by
  intro before places start
  refine triple_glance.bind fun token => .ite (fun _ => ?_) fun _ => .ite (fun _ => ?_) fun _ => .ite (fun _ => ?_)
    fun _ => .pure fun _ => id
  · refine triple_skip.bind fun _ => triple_skipNewlines.bind fun _ => triple_advance.bind fun name => ?_
    cases methodName? name.lexeme with
    | none => exact triple_complainAt
    | some word => exact (extends_callRest rules word base _ _ _).bind fun node => rules.trailers node _ _ _
  · exact triple_skip.bind fun _ => (extends_colonTrailer rules base _ _ _).bind fun node => rules.trailers node _ _ _
  · exact triple_skip.bind fun _ => (traces_delimitedArguments rules .square).pass.bind fun args =>
      (rules.trailers _ _ _ _).weaken fun _ reads => reads.based.mono (by simp) (.refl _)

/-- A name in small letters is a variable where it is local and no parenthesis is attached, and begins a call
elsewhere. -/
theorem triple_identifier {before : Walk} {places : List (Option Position)} {start : State} (name : String)
    (pos : Position) : Triple (Reads before (places ++ [some pos]) start) (identifier parse name pos)
      (ReadsNode before places start) := by
  refine (Triple.of_run (run_isLocal · name)).bind fun known => (Triple.of_run run_atCallParen).bind fun called => ?_
  refine .ite (fun bare => .pure fun state ⟨⟨reads, found⟩, _⟩ => ?_) fun callable => ?_
  · have here : Scope.isLocal name state.scopes = true := found ▸ (Bool.and_eq_true_iff.1 bare).1
    cases possible : isVariableName name with
    | true => exact (reads.follow (.mention_variable possible here)).mono (by simp [possible]) (.refl _)
    | false => exact reads.mono (by simp [possible]) (.refl _)
  · refine (triple_callRest rules name none pos).weaken fun state ⟨⟨reads, found⟩, parens⟩ =>
      ⟨reads.mono (by simp) (.refl _), fun _ bare => ?_⟩
    rw [← parens] at bare
    simpa [bare, found] using callable

theorem triple_constant {before : Walk} {places : List (Option Position)} {start : State} {name : String}
    (marked : isVariableName name = false) (pos : Position) :
    Triple (Reads before (places ++ [some pos]) start) (constant parse name pos)
      (ReadsNode before places start) := by
  refine (Triple.of_run run_atCallParen).bind fun called => .ite (fun paren => ?_) fun _ =>
    .pure fun _ ⟨reads, _⟩ => reads.mono (by simp [marked]) (.refl _)
  refine (triple_callRest rules name none pos).weaken fun state ⟨reads, found⟩ =>
    ⟨reads.mono (by simp) (.refl _), fun _ bare => ?_⟩
  rw [← found, paren] at bare
  contradiction

end Formulary.Grammar

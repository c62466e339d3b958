import Formulary.Proofs.Lowering.Derivation

/-!
What can be lowered. Statements and expressions are supported by their kind and by what they hold, wherever they
stand. Lowering succeeds exactly on lists of supported statements, each by itself, and where it fails it fails as
the first statement that is not supported does.
-/

namespace Formulary

mutual

/-- Whether a node has a counterpart among the expressions. The elements of an array do not matter. -/
def Node.isSupportedExpression : Node → Bool
  | .string _ pieces => areSupportedPieces pieces
  | .symbol .. | .int .. | .reference .. | .array .. => true
  | .call _ _ none args none _ => areSupportedExpressions args
  | .call _ _ (some receiver) args none _ => receiver.isSupportedExpression && areSupportedExpressions args
  | .index _ base [subscript] => base.isSupportedExpression && subscript.isSupportedExpression
  | .binary _ _ left right => left.isSupportedExpression && right.isSupportedExpression
  | .unary _ _ operand => operand.isSupportedExpression
  | .assign _ target value => target.isSupportedExpression && value.isSupportedExpression
  | .splat _ value false => value.isSupportedExpression
  | .paren _ [inner] => inner.isSupportedExpression
  | _ => false

def areSupportedExpressions : List Node → Bool
  | [] => true
  | node :: rest => node.isSupportedExpression && areSupportedExpressions rest

/-- Whether each piece of code in a string is one supported expression. -/
def areSupportedPieces : List (Piece Node) → Bool
  | [] => true
  | .text _ :: rest => areSupportedPieces rest
  | .code _ [inner] :: rest => inner.isSupportedExpression && areSupportedPieces rest
  | .code _ _ :: _ => false

end

mutual

/-- Whether a node has a counterpart among the instructions. -/
def Node.isSupported : Node → Bool
  | .branchModifier _ _ cond inner => cond.isSupportedExpression && inner.isSupported
  | .branch _ _ cond statements orelse =>
    cond.isSupportedExpression && areSupported statements && isSupportedElse orelse
  | .paren _ [inner] => inner.isSupported
  | node => node.isSupportedExpression

def areSupported : List Node → Bool
  | [] => true
  | node :: rest => node.isSupported && areSupported rest

/-- The statements of an else clause or of a further test; nothing else in that place is lowered. -/
def isSupportedElse : Option Node → Bool
  | some (.elseClause _ statements) => areSupported statements
  | some (.branch _ _ cond statements orelse) =>
    cond.isSupportedExpression && areSupported statements && isSupportedElse orelse
  | _ => true

end

theorem areSupported_iff {statements : List Node} :
    areSupported statements = true ↔ ∀ statement ∈ statements, statement.isSupported = true := by
  induction statements with
  | nil => simp [areSupported]
  | cons statement rest ih => simp [areSupported, ih]

namespace Lowering

open Node

/-! Expressions -/

mutual

theorem supportedExpression_of_yields : ∀ {node : Node} {e : Expression}, Yields node e →
    node.isSupportedExpression = true
  | _, _, .string h => by rw [isSupportedExpression, supportedPieces_of_yields h]
  | _, _, .symbol | _, _, .int | _, _, .array | _, _, .reference => by rw [isSupportedExpression]
  | _, _, .bareCall h => by rw [isSupportedExpression, supportedExpressions_of_yields h]
  | _, _, .methodCall hr ha => by
    rw [isSupportedExpression, supportedExpression_of_yields hr, supportedExpressions_of_yields ha]
    rfl
  | _, _, .index hb hs => by
    rw [isSupportedExpression, supportedExpression_of_yields hb, supportedExpression_of_yields hs]
    rfl
  | _, _, .binary hl hr => by
    rw [isSupportedExpression, supportedExpression_of_yields hl, supportedExpression_of_yields hr]
    rfl
  | _, _, .unary h => by rw [isSupportedExpression, supportedExpression_of_yields h]
  | _, _, .assign ht hv => by
    rw [isSupportedExpression, supportedExpression_of_yields ht, supportedExpression_of_yields hv]
    rfl
  | _, _, .splat h => by rw [isSupportedExpression, supportedExpression_of_yields h]
  | _, _, .paren h => by rw [isSupportedExpression, supportedExpression_of_yields h]

theorem supportedExpressions_of_yields : ∀ {nodes : List Node} {found : List Expression}, YieldsAll nodes found →
    areSupportedExpressions nodes = true
  | _, _, .nil => by rw [areSupportedExpressions]
  | _, _, .cons h ht => by
    rw [areSupportedExpressions, supportedExpression_of_yields h, supportedExpressions_of_yields ht]
    rfl

theorem supportedPieces_of_yields : ∀ {pieces : List (Piece Node)} {found : List (Part Expression)},
    YieldsParts pieces found → areSupportedPieces pieces = true
  | _, _, .nil => by rw [areSupportedPieces]
  | _, _, .empty _ h | _, _, .text _ h => by rw [areSupportedPieces, supportedPieces_of_yields h]
  | _, _, .code h ht => by
    rw [areSupportedPieces, supportedExpression_of_yieldsEmbedded h, supportedPieces_of_yields ht]
    rfl

theorem supportedExpression_of_yieldsEmbedded : ∀ {inner : Node} {e : Expression}, YieldsEmbedded inner e →
    inner.isSupportedExpression = true
  | .call _ _ none [] none false, _, .name _ => by rw [isSupportedExpression, areSupportedExpressions]
  | _, _, .expression _ h => supportedExpression_of_yields h

end

theorem yieldsEmbedded_of_yields {inner : Node} {e : Expression} (h : Yields inner e) :
    ∃ e, YieldsEmbedded inner e := by
  cases hn : inner.bareName? with
  | some name => exact ⟨.var name, .name hn⟩
  | none => exact ⟨e, .expression hn h⟩

mutual

theorem yields_of_supported : ∀ {node : Node}, node.isSupportedExpression = true → ∃ e, Yields node e
  | .string _ pieces, h => by
    rw [isSupportedExpression] at h
    obtain ⟨found, hp⟩ := yieldsParts_of_supported h
    exact ⟨_, .string hp⟩
  | .symbol _ _, _ => ⟨_, .symbol⟩
  | .int _ _, _ => ⟨_, .int⟩
  | .reference _ _, _ => ⟨_, .reference⟩
  | .array _ _, _ => ⟨_, .array⟩
  | .call _ _ none args none _, h => by
    rw [isSupportedExpression] at h
    obtain ⟨lowered, ha⟩ := yieldsAll_of_supported h
    exact ⟨_, .bareCall ha⟩
  | .call _ _ (some receiver) args none _, h => by
    rw [isSupportedExpression, Bool.and_eq_true] at h
    obtain ⟨base, hr⟩ := yields_of_supported h.1
    obtain ⟨lowered, ha⟩ := yieldsAll_of_supported h.2
    exact ⟨_, .methodCall hr ha⟩
  | .index _ base [subscript], h => by
    rw [isSupportedExpression, Bool.and_eq_true] at h
    obtain ⟨b, hb⟩ := yields_of_supported h.1
    obtain ⟨s, hs⟩ := yields_of_supported h.2
    exact ⟨_, .index hb hs⟩
  | .binary _ _ left right, h => by
    rw [isSupportedExpression, Bool.and_eq_true] at h
    obtain ⟨l, hl⟩ := yields_of_supported h.1
    obtain ⟨r, hr⟩ := yields_of_supported h.2
    exact ⟨_, .binary hl hr⟩
  | .unary _ _ operand, h => by
    rw [isSupportedExpression] at h
    obtain ⟨e, he⟩ := yields_of_supported h
    exact ⟨_, .unary he⟩
  | .assign _ target value, h => by
    rw [isSupportedExpression, Bool.and_eq_true] at h
    obtain ⟨t, ht⟩ := yields_of_supported h.1
    obtain ⟨v, hv⟩ := yields_of_supported h.2
    exact ⟨_, .assign ht hv⟩
  | .splat _ value false, h => by
    rw [isSupportedExpression] at h
    obtain ⟨e, he⟩ := yields_of_supported h
    exact ⟨_, .splat he⟩
  | .paren _ [inner], h => by
    rw [isSupportedExpression] at h
    obtain ⟨e, he⟩ := yields_of_supported h
    exact ⟨_, .paren he⟩

theorem yieldsAll_of_supported :
    ∀ {nodes : List Node}, areSupportedExpressions nodes = true → ∃ found, YieldsAll nodes found
  | [], _ => ⟨_, .nil⟩
  | node :: rest, h => by
    rw [areSupportedExpressions, Bool.and_eq_true] at h
    obtain ⟨e, he⟩ := yields_of_supported h.1
    obtain ⟨found, hr⟩ := yieldsAll_of_supported h.2
    exact ⟨_, .cons he hr⟩

theorem yieldsParts_of_supported :
    ∀ {pieces : List (Piece Node)}, areSupportedPieces pieces = true → ∃ found, YieldsParts pieces found
  | [], _ => ⟨_, .nil⟩
  | .text value :: rest, h => by
    rw [areSupportedPieces] at h
    obtain ⟨found, hr⟩ := yieldsParts_of_supported h
    cases he : value.isEmpty with
    | true => exact ⟨_, .empty he hr⟩
    | false => exact ⟨_, .text he hr⟩
  | .code _ [inner] :: rest, h => by
    rw [areSupportedPieces, Bool.and_eq_true] at h
    obtain ⟨e, he⟩ := yields_of_supported h.1
    obtain ⟨e, he⟩ := yieldsEmbedded_of_yields he
    obtain ⟨found, hr⟩ := yieldsParts_of_supported h.2
    exact ⟨_, .code he hr⟩

end

theorem exists_yields_iff {node : Node} : (∃ e, Yields node e) ↔ node.isSupportedExpression = true :=
  ⟨fun ⟨_, h⟩ => supportedExpression_of_yields h, yields_of_supported⟩

/-! Statements -/

theorem isSupported_of_evaluated {node : Node} (h : evaluated node = true) :
    node.isSupported = node.isSupportedExpression := by
  rw [isSupported]
  all_goals
    intros
    subst_vars
    cases h

theorem isSupported_call (pos : Position) (name : String) (receiver : Option Node) (args : List Node)
    (attached : Option Node) (parens : Bool) :
    (Node.call pos name receiver args attached parens).isSupported =
      (Node.call pos name receiver args attached parens).isSupportedExpression := by
  rw [isSupported] <;> nofun

theorem isSupportedElse_of_ignored {node : Node} (hb : node.isBranch = false)
    (hc : ∀ pos statements, node ≠ .elseClause pos statements) : isSupportedElse (some node) = true := by
  rw [isSupportedElse]
  · exact fun pos statements h => hc pos statements (Option.some.inj h)
  · rintro pos head cond statements orelse ⟨⟩
    cases hb

mutual

theorem supported_of_becomes : ∀ {node : Node} {instruction : Instruction}, Becomes node instruction →
    node.isSupported = true
  | _, _, .command h => by
    rw [isSupported_call, isSupportedExpression, supportedExpressions_of_yields h]
  | _, _, .commandOn hr h => by
    rw [isSupported_call, isSupportedExpression, supportedExpression_of_yields hr, supportedExpressions_of_yields h]
    rfl
  | _, _, .modifier hc h => by
    rw [isSupported, supportedExpression_of_yields hc, supported_of_becomes h]
    rfl
  | _, _, .branch hc hs he => by
    rw [isSupported, supportedExpression_of_yields hc, areSupported_of_becomes hs, supportedElse_of_becomes he]
    rfl
  | _, _, .paren h => by rw [isSupported, supported_of_becomes h]
  | _, _, .expression he h => by rw [isSupported_of_evaluated he, supportedExpression_of_yields h]

theorem areSupported_of_becomes : ∀ {statements : List Node} {instructions : List Instruction},
    BecomesAll statements instructions → areSupported statements = true
  | _, _, .nil => by rw [areSupported]
  | _, _, .cons h ht => by
    rw [areSupported, supported_of_becomes h, areSupported_of_becomes ht]
    rfl

theorem supportedElse_of_becomes : ∀ {orelse : Option Node} {elseBranch : Option (List Instruction)},
    BecomesElse orelse elseBranch → isSupportedElse orelse = true
  | _, _, .absent => by rw [isSupportedElse] <;> nofun
  | _, _, .clause h => by rw [isSupportedElse, areSupported_of_becomes h]
  | _, _, .further hc hs he => by
    rw [isSupportedElse, supportedExpression_of_yields hc, areSupported_of_becomes hs, supportedElse_of_becomes he]
    rfl
  | _, _, .ignored hb hc => isSupportedElse_of_ignored hb hc

end

theorem becomes_of_supportedExpression {node : Node} (h : node.isSupportedExpression = true)
    (hparen : ∀ pos inner, node ≠ .paren pos [inner]) : ∃ instruction, Becomes node instruction := by
  obtain ⟨e, he⟩ := exists_yields_iff.2 h
  cases he with
  | @bareCall _ _ args _ _ ha =>
    cases args with
    | nil => exact ⟨_, .expression rfl (.bareCall ha)⟩
    | cons first rest => exact ⟨_, .command ha⟩
  | @methodCall _ _ _ args _ _ _ hr ha =>
    cases args with
    | nil => exact ⟨_, .expression rfl (.methodCall hr ha)⟩
    | cons first rest => exact ⟨_, .commandOn hr ha⟩
  | paren => exact (hparen _ _ rfl).elim
  | _ => exact ⟨_, .expression rfl (by constructor <;> assumption)⟩

/-- The cases are those of the definition: every node that is not tested here is evaluated. -/
theorem becomes_of_supported :
    (∀ node : Node, node.isSupported = true → ∃ instruction, Becomes node instruction) ∧
    (∀ orelse, isSupportedElse orelse = true → ∃ elseBranch, BecomesElse orelse elseBranch) ∧
    (∀ statements, areSupported statements = true → ∃ instructions, BecomesAll statements instructions) := by
  apply isSupported.mutual_induct
  case case1 =>
    intro pos polarity cond inner ih h
    rw [isSupported, Bool.and_eq_true] at h
    obtain ⟨test, hc⟩ := yields_of_supported h.1
    obtain ⟨instruction, hi⟩ := ih h.2
    exact ⟨_, .modifier hc hi⟩
  case case2 =>
    intro pos head cond statements orelse ihs ihe h
    rw [isSupported, Bool.and_eq_true, Bool.and_eq_true] at h
    obtain ⟨test, hc⟩ := yields_of_supported h.1.1
    obtain ⟨thenBranch, hs⟩ := ihs h.1.2
    obtain ⟨elseBranch, he⟩ := ihe h.2
    exact ⟨_, .branch hc hs he⟩
  case case3 =>
    intro pos inner ih h
    rw [isSupported] at h
    obtain ⟨instruction, hi⟩ := ih h
    exact ⟨_, .paren hi⟩
  case case4 =>
    intro node hmodifier hbranch hparen h
    rw [isSupported] at h <;> first | assumption | skip
    exact becomes_of_supportedExpression h hparen
  case case5 => exact fun _ => ⟨_, .nil⟩
  case case6 =>
    intro node rest ihn ihr h
    rw [areSupported, Bool.and_eq_true] at h
    obtain ⟨instruction, hi⟩ := ihn h.1
    obtain ⟨more, hr⟩ := ihr h.2
    exact ⟨_, .cons hi hr⟩
  case case7 =>
    intro pos statements ih h
    rw [isSupportedElse] at h
    obtain ⟨instructions, hs⟩ := ih h
    exact ⟨_, .clause hs⟩
  case case8 =>
    intro pos head cond statements orelse ihs ihe h
    rw [isSupportedElse, Bool.and_eq_true, Bool.and_eq_true] at h
    obtain ⟨test, hc⟩ := yields_of_supported h.1.1
    obtain ⟨thenBranch, hs⟩ := ihs h.1.2
    obtain ⟨elseBranch, he⟩ := ihe h.2
    exact ⟨_, .further hc hs he⟩
  case case9 =>
    intro orelse hclause hbranch h
    cases orelse with
    | none => exact ⟨_, .absent⟩
    | some node =>
      refine ⟨_, .ignored ?_ fun pos statements he => hclause pos statements (congrArg some he)⟩
      cases node with
      | branch => exact (hbranch _ _ _ _ _ rfl).elim
      | _ => rfl

theorem exists_becomes_iff {node : Node} : (∃ instruction, Becomes node instruction) ↔ node.isSupported = true :=
  ⟨fun ⟨_, h⟩ => supported_of_becomes h, becomes_of_supported.1 node⟩

/-! Lists of statements -/

theorem lowerInstall_singleton_iff {statement : Node} {instruction : Instruction} :
    lowerInstall [statement] = .ok [instruction] ↔ Becomes statement instruction := by
  rw [lowerInstall_eq_ok_iff]
  constructor
  · rintro (_ | ⟨h, _⟩)
    exact h
  · exact fun h => .cons h .nil

theorem map_lowerInstall_of_becomesAll : ∀ {statements : List Node} {instructions : List Instruction},
    BecomesAll statements instructions →
    statements.map (fun statement => lowerInstall [statement]) =
      instructions.map (fun instruction => .ok [instruction])
  | _, _, .nil => rfl
  | _, _, .cons h ht => by
    rw [List.map_cons, List.map_cons, lowerInstall_singleton_iff.2 h, map_lowerInstall_of_becomesAll ht]

theorem exists_lowerInstall_iff {statements : List Node} :
    (∃ instructions, lowerInstall statements = .ok instructions) ↔
      ∀ statement ∈ statements, statement.isSupported = true := by
  simp only [lowerInstall_eq_ok_iff, ← areSupported_iff]
  exact ⟨fun ⟨_, h⟩ => areSupported_of_becomes h, becomes_of_supported.2.2 statements⟩

theorem lowerInstall_cons (statement : Node) (rest : List Node) :
    lowerInstall (statement :: rest) = (do
      let instruction ← Lowering.statement (some (.ofNode statement)) statement
      let more ← lowerInstall rest
      return instruction :: more) := rfl

theorem exists_error_of_unsupported {bad : Node} (h : bad.isSupported = false) :
    ∃ fault, Lowering.statement (some (.ofNode bad)) bad = .error fault := by
  cases hs : Lowering.statement (some (.ofNode bad)) bad with
  | error fault => exact ⟨fault, rfl⟩
  | ok instruction =>
    have supported := supported_of_becomes (becomes_of_ok.1 _ _ _ hs)
    exact absurd supported (by simp [h])

theorem lowerInstall_cons_of_error {bad : Node} {fault : Unsupported}
    (h : Lowering.statement (some (.ofNode bad)) bad = .error fault) (after : List Node) :
    lowerInstall (bad :: after) = .error fault := by
  rw [lowerInstall_cons, h]
  rfl

theorem lowerInstall_append_of_error {before rest : List Node} {fault : Unsupported}
    (hbefore : areSupported before = true) (h : lowerInstall rest = .error fault) :
    lowerInstall (before ++ rest) = .error fault := by
  induction before with
  | nil => exact h
  | cons statement before ih =>
    rw [areSupported, Bool.and_eq_true] at hbefore
    obtain ⟨instruction, hi⟩ := exists_becomes_iff.2 hbefore.1
    rw [List.cons_append, lowerInstall_cons, statement_eq_ok hi, ih hbefore.2]
    rfl

/-- Exactly the lists of supported statements are lowered. Each statement gives one instruction, the one that it
gives alone, and a failure is that of the first statement that is not supported. -/
theorem lowerInstall_accepts (statements : List Node) :
    ((∃ instructions, lowerInstall statements = .ok instructions) ↔
      ∀ statement ∈ statements, statement.isSupported = true) ∧
    (∀ instructions, lowerInstall statements = .ok instructions →
      statements.map (fun statement => lowerInstall [statement]) =
        instructions.map (fun instruction => .ok [instruction])) ∧
    (∀ before bad after, statements = before ++ bad :: after →
      (∀ statement ∈ before, statement.isSupported = true) → bad.isSupported = false →
      ∃ fault, lowerInstall [bad] = .error fault ∧ lowerInstall statements = .error fault) := by
  refine ⟨exists_lowerInstall_iff, ?each, ?first⟩
  case each => exact fun instructions h => map_lowerInstall_of_becomesAll (lowerInstall_eq_ok_iff.1 h)
  case first =>
    rintro before bad after rfl hbefore hbad
    obtain ⟨fault, hfault⟩ := exists_error_of_unsupported hbad
    have alone (rest : List Node) := lowerInstall_cons_of_error hfault rest
    exact ⟨fault, alone [], lowerInstall_append_of_error (areSupported_iff.2 hbefore) (alone after)⟩

theorem lowerInstall_accepts_nested :
    let name (text : String) : Node := .call ⟨1, 4⟩ text none [] none false
    let chosen : Node := .branch ⟨1, 1⟩ (.opening .negative) (name "a")
      [.call ⟨2, 3⟩ "system" none [.string ⟨2, 10⟩ [.text "x", .code ⟨2, 12⟩ [name "b"]]] none false]
      (some (.branch ⟨3, 1⟩ .further (name "c") [.array ⟨4, 3⟩ [.float ⟨4, 4⟩ 1.5]] none))
    let repeated : Node := .paren ⟨6, 1⟩ [.branchModifier ⟨6, 2⟩ .positive (name "d")
      (.loop ⟨6, 2⟩ .positive (name "e") [name "f"] true)]
    let fault : Unsupported := ⟨"while_mod", some ⟨"while_mod", 6⟩, 6⟩
    (chosen.isSupported = true ∧ repeated.isSupported = false) ∧
      lowerInstall [repeated] = .error fault ∧ lowerInstall [chosen, repeated, chosen] = .error fault := by
  intro name chosen repeated fault
  have hchosen : chosen.isSupported = true := by rfl
  have hrepeated : repeated.isSupported = false := by rfl
  obtain ⟨fault', halone, hlist⟩ :=
    (lowerInstall_accepts [chosen, repeated, chosen]).2.2 [chosen] repeated [chosen] rfl (by simpa using hchosen)
      hrepeated
  have hfault : lowerInstall [repeated] = .error fault := by rfl
  obtain rfl : fault' = fault := Except.error.inj (halone.symm.trans hfault)
  exact ⟨⟨hchosen, hrepeated⟩, halone, hlist⟩

end Lowering

end Formulary

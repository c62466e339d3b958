import Formulary.Proofs.Grammar.Ends
import Formulary.Proofs.Tree.Place

/-!
The trees of operator expressions. A sequence of operands with binary operators between them is read as the one tree
that has its operands and operators in this order and groups them by precedence: what stands to the left of an operator
binds at least as tightly as it does, and what stands to the right binds more tightly. For the power operator it is the
other way round.
-/

namespace Formulary

namespace Node

/-- The operands and operators of a tree of binary operations, in order. -/
def reading : Node → Node × List (String × Node)
  | .binary _ op left right =>
    (left.reading.1, left.reading.2 ++ (op, right.reading.1) :: right.reading.2)
  | operand => (operand, [])

/-- The operator at the root of a tree. -/
def root? : Node → Option String
  | .binary _ op _ _ => some op
  | _ => none

end Node

namespace Grammar

/-- How tightly an operator binds; zero stands for what is no binary operator. -/
def strength (op : String) : Nat :=
  (precedence? op).getD 0

/-- Whether every operator of a tree binds its operands as the precedence of the operators has it. -/
def Grouped : Node → Prop
  | .binary _ op left right =>
    Grouped left ∧ Grouped right ∧
      (∀ below ∈ left.root?, op ≠ "**" ∧ strength op ≤ strength below) ∧
      (∀ below ∈ right.root?, strength op < strength below ∨ op = "**" ∧ below = "**")
  | _ => True

/-- A token that is an operand, with the node it stands for. -/
inductive Atom (scopes : List Scope) : Token → Node → Prop
  | integer {digits : String} {value : Nat} {pos : Position} {spaced : Bool} :
      Text.integerLiteral digits = .ok value → Atom scopes ⟨.integer digits, pos, spaced⟩ (.int pos value)
  | constant {name : String} {pos : Position} {spaced : Bool} :
      Atom scopes ⟨.constant name, pos, spaced⟩ (.reference pos name)
  | declared {name : String} {pos : Position} {spaced : Bool} : Scope.isLocal name scopes = true →
      Atom scopes ⟨.identifier name, pos, spaced⟩ (.reference pos name)

/-- Tokens that spell operators of the table, each with newlines and an operand behind it. -/
inductive Operations (scopes : List Scope) : List Token → List (String × Node) → Prop
  | nil : Operations scopes [] []
  | cons {op : String} {pos : Position} {spaced : Bool} {newlines tokens : List Token} {token : Token} {operand : Node}
      {links : List (String × Node)} : (precedence? op).isSome = true →
      Newlines newlines → Atom scopes token operand → Operations scopes tokens links →
      Operations scopes (⟨.operator op, pos, spaced⟩ :: (newlines ++ token :: tokens)) ((op, operand) :: links)

variable {state : State} {scopes : List Scope} {token : Token} {tokens rest : List Token} {first : Node}
  {links : List (String × Node)}

/-! Operands -/

theorem Atom.primary {operand : Node} (atom : Atom state.scopes token operand)
    (ends : goesWithOperand (state.on tokens).next = false) (parse : Rules) :
    (primary parse).run (state.on (token :: tokens)) = .ok (operand, state.on tokens) := by
  have paren := callParen_of_not ends
  cases atom with
  | integer value => simp [Grammar.primary, fromNumber, value]
  | constant =>
    rw [Grammar.primary, run_bind_of_ok (run_peek _), State.next_on_cons]
    dsimp only
    rw [run_bind_of_ok (run_discard_on _ _ _), Grammar.constant, run_bind_of_ok (run_atCallParen _), paren]
    rfl
  | declared found =>
    rw [Grammar.primary, run_bind_of_ok (run_peek _), State.next_on_cons]
    dsimp only
    rw [run_bind_of_ok (run_discard_on _ _ _), identifier, run_bind_of_ok (run_isLocal _ _), State.scopes_on, found,
      run_bind_of_ok (run_atCallParen _), paren]
    rfl

theorem Atom.operator?_eq_none {operand : Node} (atom : Atom scopes token operand) :
    token.lexeme.operator? = none := by
  cases atom <;> rfl

theorem Atom.isNewline_eq_false {operand : Node} (atom : Atom scopes token operand) :
    token.lexeme.isNewline = false := by
  cases atom <;> rfl

theorem Atom.reading {operand : Node} (atom : Atom scopes token operand) : operand.reading = (operand, []) := by
  cases atom <;> rfl

theorem Atom.root? {operand : Node} (atom : Atom scopes token operand) : operand.root? = none := by
  cases atom <;> rfl

theorem Atom.grouped {operand : Node} (atom : Atom scopes token operand) : Grouped operand := by
  cases atom <;> trivial

theorem Atom.unary {operand : Node} (atom : Atom state.scopes token operand)
    (ends : goesWithOperand (state.on tokens).next = false) :
    Parses .unary (state.on (token :: tokens)) operand (state.on tokens) := by
  have read : Parses .operand (state.on (token :: tokens)) operand (state.on tokens) := by
    apply Parses.of_step
    filter_upwards [(trailers_of_not ends).eventually] with fuel trailers
    exact (run_bind_of_ok (atom.primary ends (rule fuel)) _).trans trailers
  apply Parses.of_step
  filter_upwards [read.eventually] with fuel operand
  change (Grammar.unary (rule fuel)).run _ = _
  rw [Grammar.unary, run_bind_of_ok (run_peek _), State.next_on_cons, atom.operator?_eq_none]
  exact operand

/-! Precedences -/

theorem eq_power_of_strength {op : String} (h : strength op = 11) : op = "**" := by
  unfold strength precedence? at h
  split at h <;> first | rfl | cases h

theorem strength_le (op : String) : strength op ≤ 11 := by
  unfold strength precedence?
  split <;> decide

theorem strength_of_some {op : String} {precedence : Nat} (h : precedence? op = some precedence) :
    strength op = precedence := by
  rw [strength, h, Option.getD_some]

theorem strength_lt_of_ne {op : String} (h : op ≠ "**") : strength op < 11 :=
  Nat.lt_of_le_of_ne (strength_le op) fun top => h (eq_power_of_strength top)

/-! Reading -/

theorem binaryRest_goes_on {least precedence : Nat} {left right tree : Node} {op : String} {pos : Position}
    {spaced : Bool} {newlines : List Token} {mid after : State} (table : precedence? op = some precedence)
    (tight : least ≤ precedence) (skipped : Newlines newlines)
    (stops : token.lexeme.isNewline = false)
    (operand : Parses (.binary (if isRightAssociative op then precedence else precedence + 1))
      (state.on (token :: tokens)) right mid)
    (more : Parses (.binaryRest least (.binary left.pos op left right)) mid tree after) :
    Parses (.binaryRest least left) (state.on (⟨.operator op, pos, spaced⟩ :: (newlines ++ token :: tokens))) tree
      after := by
  have operand_next : (state.on (token :: tokens)).next.lexeme.isNewline = false := stops
  apply Parses.of_step
  filter_upwards [operand.eventually, more.eventually] with fuel operand more
  change (binaryRest (rule fuel) least left).run _ = _
  rw [binaryRest, run_bind_of_ok (run_peek _), State.next_on_cons]
  simp only [Lexeme.operator?, table]
  rw [if_neg (Nat.not_lt.2 tight), run_bind_of_ok (run_discard_on _ _ _),
    run_bind_of_ok (run_skipNewlines skipped operand_next), run_bind_of_ok operand]
  exact more

/-- A rule reads some of the operators and operands ahead, and stops at the first one that binds less tightly than
`least`. The tree goes on from a first operand and what was read of the sequence before. -/
def Climbs (r : Rule Node) (least : Nat) (state : State) (tokens rest : List Token) (first : Node)
    (before links : List (String × Node)) : Prop :=
  ∃ tree front back behind, links = front ++ back ∧ Operations state.scopes behind back ∧
    Parses r (state.on (tokens ++ rest)) tree (state.on (behind ++ rest)) ∧
    tree.reading = (first, before ++ front) ∧ Grouped tree ∧ (∀ op ∈ tree.root?, least ≤ strength op) ∧
    ∀ link ∈ back.head?, strength link.1 < least

theorem goesWithOperand_of_operations (spells : Operations scopes tokens links)
    (ends : goesWithOperand (state.on rest).next = false) :
    goesWithOperand (state.on (tokens ++ rest)).next = false := by
  cases spells with
  | nil => exact ends
  | cons =>
    rw [List.cons_append, State.next_on_cons]
    exact Bool.and_false _

/-- Reading operands at a precedence is reading the first one and going on with it. -/
theorem climbs_binary {least : Nat} (atom : Atom state.scopes token first)
    (spells : Operations state.scopes tokens links) (ends : goesWithOperand (state.on rest).next = false)
    (climbs : Climbs (.binaryRest least first) least state tokens rest first [] links) :
    Climbs (.binary least) least state (token :: tokens) rest first [] links := by
  obtain ⟨tree, front, back, behind, split, spelled, parses, shape⟩ := climbs
  refine ⟨tree, front, back, behind, split, spelled, ?_, shape⟩
  have operand := atom.unary (goesWithOperand_of_operations spells ends)
  apply Parses.of_step
  filter_upwards [operand.eventually, parses.eventually] with fuel operand more
  exact (run_bind_of_ok operand _).trans more

/-- The precedence at which the right operand of an operator is read: one more than its own, but its own for the
power operator. -/
def rightLeast (op : String) : Nat :=
  if isRightAssociative op then strength op else strength op + 1

theorem fits_right {op below : String} (h : rightLeast op ≤ strength below) :
    strength op < strength below ∨ op = "**" ∧ below = "**" := by
  unfold rightLeast at h
  by_cases power : op = "**"
  · subst op
    exact .inr ⟨rfl, eq_power_of_strength (Nat.le_antisymm (strength_le below) h)⟩
  · rw [isRightAssociative, decide_eq_false power] at h
    exact .inl h

theorem fits_left {op next : String} (h : strength next < rightLeast op) :
    next ≠ "**" ∧ strength next ≤ strength op := by
  unfold rightLeast at h
  have lt_top : strength next < 11 := by
    by_cases power : op = "**"
    · subst op
      exact h
    · rw [isRightAssociative, decide_eq_false power] at h
      exact Nat.lt_of_le_of_lt (Nat.le_of_lt_succ h) (strength_lt_of_ne power)
  refine ⟨?_, ?_⟩
  · rintro rfl
    exact absurd lt_top (by decide)
  · split at h <;> omega

theorem climbs_binaryRest {least : Nat} {left : Node} {before : List (String × Node)}
    (spells : Operations state.scopes tokens links) (ends : goesWithExpression (state.on rest).next = false)
    (reading : left.reading = (first, before)) (grouped : Grouped left)
    (tight : ∀ op ∈ left.root?, least ≤ strength op)
    (fits : ∀ below ∈ left.root?, ∀ link ∈ links.head?, link.1 ≠ "**" ∧ strength link.1 ≤ strength below) :
    Climbs (.binaryRest least left) least state tokens rest first before links := by
  have behind := goesWithOperand_of_expression ends
  induction length : links.length using Nat.strong_induction_on generalizing least left tokens links first before with
  | h length ih =>
    have whole := spells
    cases spells with
    | nil =>
      refine ⟨left, [], [], [], rfl, .nil, ?_, by rw [reading, List.append_nil], grouped, tight, nofun⟩
      apply binaryRest_stays
      intro op precedence sign table
      have none := (operator_of_ends ends sign).1
      rw [table] at none
      contradiction
    | cons table skipped atom spells =>
      rename_i op pos spaced newlines tokens token operand links
      obtain ⟨precedence, table⟩ := Option.isSome_iff_exists.1 table
      obtain rfl := strength_of_some table
      by_cases weak : strength op < least
      · refine ⟨left, [], _, _, rfl, whole, ?_, by rw [reading, List.append_nil], grouped, tight, ?_⟩
        · apply binaryRest_stays
          rintro op precedence ⟨⟩ other
          rwa [← strength_of_some other]
        · rintro link ⟨⟩
          exact weak
      · -- The right operand takes all that binds more tightly, and the loop goes on behind it.
        have right : Climbs (.binary (rightLeast op)) (rightLeast op) state (token :: tokens) rest operand [] links := by
          apply climbs_binary atom spells behind
          apply ih links.length _ spells atom.reading atom.grouped _ _ rfl
          · rw [← length]
            exact Nat.lt_succ_self _
          · rw [atom.root?]
            exact nofun
          · rw [atom.root?]
            exact nofun
        obtain ⟨right, front, back, behind', rfl, spelled, parsed, reading', grouped', tight', weaker⟩ := right
        have more : Climbs (.binaryRest least (.binary left.pos op left right)) least state behind' rest first
            (before ++ (op, operand) :: front) back := by
          apply ih back.length _ spelled _ _ _ _ rfl
          · rw [← length, List.length_cons, List.length_append]
            omega
          · rw [Node.reading, reading, reading']
            rfl
          · refine ⟨grouped, grouped', fun below mem => fits below mem _ rfl, fun below mem => ?_⟩
            exact fits_right (tight' below mem)
          · rintro below ⟨⟩
            exact Nat.not_lt.1 weak
          · rintro below ⟨⟩ link mem
            exact fits_left (weaker link mem)
        obtain ⟨tree, front', back, behind', rfl, spelled', parsed', reading'', shape⟩ := more
        refine ⟨tree, (op, operand) :: front ++ front', back, behind', by simp, spelled', ?_, ?_, shape⟩
        · rw [List.cons_append, List.append_assoc]
          exact binaryRest_goes_on table (Nat.not_lt.1 weak) skipped atom.isNewline_eq_false parsed parsed'
        · rw [reading'']
          simp

/-! The only tree -/

theorem leaf_or_binary (node : Node) :
    (node.reading = (node, []) ∧ node.root? = none) ∨ ∃ pos op left right, node = .binary pos op left right := by
  cases node with
  | binary pos op left right => exact .inr ⟨pos, op, left, right, rfl⟩
  | _ => exact .inl ⟨rfl, rfl⟩

/-- No operator of a grouped tree binds less tightly than the one at the root. -/
theorem root_le_of_grouped {tree : Node} (grouped : Grouped tree) :
    ∀ root ∈ tree.root?, ∀ link ∈ tree.reading.2, strength root ≤ strength link.1 := by
  induction tree using Node.reading.induct with
  | case1 pos op left right ih ih' =>
    obtain ⟨grouped, grouped', fits, fits'⟩ := grouped
    -- A subtree has no operators, or one at its root that all its others follow.
    have below {side : Node} (inner : ∀ root ∈ side.root?, ∀ link ∈ side.reading.2, strength root ≤ strength link.1)
        (fit : ∀ root ∈ side.root?, strength op ≤ strength root) :
        ∀ link ∈ side.reading.2, strength op ≤ strength link.1 := by
      intro link mem
      obtain ⟨leaf, -⟩ | ⟨pos, root, l, r, rfl⟩ := leaf_or_binary side
      · rw [leaf] at mem
        cases mem
      · exact (fit root rfl).trans (inner root rfl link mem)
    rintro root ⟨⟩ link mem
    rw [Node.reading] at mem
    obtain mem | mem := List.mem_append.1 mem
    · exact below (ih grouped) (fun root mem => (fits root mem).2) link mem
    · obtain rfl | mem := List.mem_cons.1 mem
      · exact le_rfl
      · refine below (ih' grouped') (fun root mem => ?_) link mem
        obtain tighter | ⟨rfl, rfl⟩ := fits' root mem
        · exact tighter.le
        · exact le_rfl
  | case2 operand leaf =>
    obtain ⟨-, none⟩ | ⟨pos, op, left, right, rfl⟩ := leaf_or_binary operand
    · rw [none]
      exact nofun
    · exact (leaf pos op left right rfl).elim

/-- An operator to the right of the root of one grouped tree cannot be the root of another with the first root to its
left. -/
theorem roots_apart {op op' : String} {left right left' right' : Node} {pos pos' : Position} {link link' : Node}
    (grouped : Grouped (.binary pos op left right)) (grouped' : Grouped (.binary pos' op' left' right'))
    (behind : (op', link') ∈ right.reading.2) (before : (op, link) ∈ left'.reading.2) : False := by
  obtain ⟨-, inner, -, fits⟩ := grouped
  obtain ⟨inner', -, fits', -⟩ := grouped'
  obtain ⟨leaf, -⟩ | ⟨_, below, l, r, rfl⟩ := leaf_or_binary right
  · rw [leaf] at behind
    cases behind
  obtain ⟨leaf, -⟩ | ⟨_, below', l', r', rfl⟩ := leaf_or_binary left'
  · rw [leaf] at before
    cases before
  have le : strength below ≤ strength op' := root_le_of_grouped inner below rfl _ behind
  have le' : strength below' ≤ strength op := root_le_of_grouped inner' below' rfl _ before
  obtain ⟨other, weaker⟩ := fits' below' rfl
  obtain tighter | ⟨rfl, rfl⟩ := fits below rfl
  · omega
  · exact other (eq_power_of_strength (Nat.le_antisymm (strength_le op') le))

/-- Grouped trees of the same operands and operators differ in the places of their operations at most. -/
theorem grouped_unique {tree other : Node} (grouped : Grouped tree) (grouped' : Grouped other)
    (same : other.reading = tree.reading) : other.place nowhere = tree.place nowhere := by
  induction tree using Node.reading.induct generalizing other with
  | case1 pos op left right ih ih' =>
    obtain ⟨leaf, -⟩ | ⟨pos', op', left', right', rfl⟩ := leaf_or_binary other
    · have none := congrArg Prod.snd same
      rw [leaf, Node.reading] at none
      exact (List.append_ne_nil_of_right_ne_nil _ (List.cons_ne_nil _ _) none.symm).elim
    · have first := congrArg Prod.fst same
      have links := congrArg Prod.snd same
      rw [Node.reading, Node.reading] at first links
      dsimp only at first links
      have alike (front : left'.reading.2 = left.reading.2)
          (back : (op', right'.reading.1) :: right'.reading.2 = (op, right.reading.1) :: right.reading.2) :
          (Node.binary pos' op' left' right').place nowhere = (Node.binary pos op left right).place nowhere := by
        obtain ⟨head, others⟩ := List.cons.inj back
        obtain ⟨rfl, second⟩ := Prod.mk.inj head
        have left_eq := ih grouped.1 grouped'.1 (Prod.ext first front)
        have right_eq := ih' grouped.2.1 grouped'.2.1 (Prod.ext second others)
        exact congrArg₂ (Node.binary .origin op') left_eq right_eq
      obtain ⟨more, front, back⟩ | ⟨more, front, back⟩ := List.append_eq_append_iff.1 links
      · cases more with
        | nil => exact alike (front.trans (List.append_nil _)).symm back
        | cons link more =>
          obtain ⟨rfl, others⟩ := List.cons.inj back
          have behind : (op, right.reading.1) ∈ right'.reading.2 := by
            rw [others]
            exact List.mem_append_right more List.mem_cons_self
          have before : (op', right'.reading.1) ∈ left.reading.2 := by
            rw [front]
            exact List.mem_append_right _ List.mem_cons_self
          exact (roots_apart grouped' grouped behind before).elim
      · cases more with
        | nil => exact alike (front.trans (List.append_nil _)) back.symm
        | cons link more =>
          obtain ⟨rfl, others⟩ := List.cons.inj back
          have behind : (op', right'.reading.1) ∈ right.reading.2 := by
            rw [others]
            exact List.mem_append_right more List.mem_cons_self
          have before : (op, right.reading.1) ∈ left'.reading.2 := by
            rw [front]
            exact List.mem_append_right _ List.mem_cons_self
          exact (roots_apart grouped grouped' behind before).elim
  | case2 operand leaf =>
    obtain ⟨whole, -⟩ | ⟨pos, op, left, right, rfl⟩ := leaf_or_binary operand
    · obtain ⟨leaf', -⟩ | ⟨pos', op', left', right', rfl⟩ := leaf_or_binary other
      · rw [whole, leaf'] at same
        rw [(Prod.mk.inj same).1]
      · have none := congrArg Prod.snd same
        rw [whole, Node.reading] at none
        exact (List.append_ne_nil_of_right_ne_nil _ (List.cons_ne_nil _ _) none).elim
    · exact (leaf pos op left right rfl).elim

/-- A sequence of operands with binary operators between them is read as a whole, into the one tree that has them in
this order and groups them by precedence. -/
theorem expression_of_operations (atom : Atom state.scopes token first)
    (spells : Operations state.scopes tokens links) (ends : goesWithExpression (state.on rest).next = false) :
    ∃ tree, Parses .expression (state.on (token :: tokens ++ rest)) tree (state.on rest) ∧
      tree.reading = (first, links) ∧ Grouped tree ∧
      ∀ other, other.reading = (first, links) → Grouped other → other.place nowhere = tree.place nowhere := by
  have climbs : Climbs (.binary 0) 0 state (token :: tokens) rest first [] links := by
    apply climbs_binary atom spells (goesWithOperand_of_expression ends)
    apply climbs_binaryRest spells ends atom.reading atom.grouped
    · exact fun op mem => Nat.zero_le _
    · rw [atom.root?]
      exact nofun
  obtain ⟨tree, front, back, behind, rfl, spelled, parses, reading, grouped, -, weaker⟩ := climbs
  -- No operator binds less tightly than at precedence zero, so nothing is left.
  cases spelled with
  | cons => exact (Nat.not_lt_zero _ (weaker _ rfl)).elim
  | nil =>
    rw [List.append_nil]
    refine ⟨tree, expression_of_binary parses ends, reading, grouped, fun other reading' grouped' => ?_⟩
    exact grouped_unique grouped grouped' (reading'.trans reading.symm)

/-- The sum of a variable and a product with a tower of powers, with a line break behind the times sign. -/
theorem expression_of_operations_tower :
    let state : State := ⟨[], ⟨.endOfText, .origin, true⟩, [⟨true, ["a"]⟩], 0⟩
    let sign (op : String) : Token := ⟨.operator op, .origin, true⟩
    let number (digits : String) : Token := ⟨.integer digits, .origin, true⟩
    let tokens := [sign "+", number "2", sign "*", ⟨.newline, .origin, false⟩, ⟨.constant "B", .origin, true⟩, sign "**",
      number "3", sign "**", number "4"]
    let links := [("+", .int .origin 2), ("*", .reference .origin "B"), ("**", .int .origin 3), ("**", .int .origin 4)]
    ∃ tree, Parses .expression (state.on (⟨.identifier "a", .origin, true⟩ :: tokens)) tree (state.on []) ∧
      tree.reading = (.reference .origin "a", links) ∧ Grouped tree ∧
      ∀ other, other.reading = (.reference .origin "a", links) → Grouped other →
        other.place nowhere = tree.place nowhere := by
  intro state sign number tokens links
  have spells : Operations state.scopes tokens links := by
    refine @Operations.cons _ "+" _ _ [] _ _ _ _ rfl nofun (@Atom.integer _ "2" 2 _ _ rfl) ?_
    refine @Operations.cons _ "*" _ _ [⟨.newline, .origin, false⟩] _ _ _ _ rfl ?_ .constant ?_
    · exact List.forall_mem_singleton.2 rfl
    refine @Operations.cons _ "**" _ _ [] _ _ _ _ rfl nofun (@Atom.integer _ "3" 3 _ _ rfl) ?_
    exact @Operations.cons _ "**" _ _ [] _ _ _ _ rfl nofun (@Atom.integer _ "4" 4 _ _ rfl) .nil
  have ends : goesWithExpression (state.on []).next = false := rfl
  exact expression_of_operations (.declared rfl) spells ends

/-- A number that begins with a zero and is no octal numeral is not read, with or without an operator behind it. -/
theorem not_parses_expression_of_numeral :
    let state : State := ⟨[], ⟨.endOfText, .origin, true⟩, [⟨true, []⟩], 0⟩
    ¬∃ tree after, Parses .expression
      (state.on [⟨.integer "09", .origin, true⟩, ⟨.operator "+", .origin, true⟩, ⟨.integer "1", .origin, true⟩]) tree
      after := by
  rintro state ⟨tree, after, fuel, read⟩
  have more := refines_rule (Nat.le_add_right fuel 12) _ read
  have fails : (rule (fuel + 12) .expression).run (state.on [⟨.integer "09", .origin, true⟩,
      ⟨.operator "+", .origin, true⟩, ⟨.integer "1", .origin, true⟩]) = .error (.number (.integer 8 "09")) := by
    rfl
  rw [fails] at more
  cases more

end Grammar

end Formulary

import Formulary.Proofs.Grammar.Quiet
import Formulary.Proofs.Grammar.StringPieces
import Formulary.Proofs.Token.Words
import Formulary.Proofs.Tree.Every

/-!
What a parser ensures of what it reads, where the names of all tokens are words or signed. Parsers that only look at
tokens or read them ensure nothing and spoil nothing.
-/

namespace Formulary

/-- The operators that stand before their operand. -/
def signWords : List String :=
  ["!", "~", "-", "+", "not"]

namespace Node

/-- The name of a call is a word and that of a reference a word or signed; the operators are those of the grammar, and
the texts of a string are in normal form. -/
def Worded : Node → Prop
  | call _ name _ _ _ _ => IsWord name
  | reference _ name => IsWord name ∨ IsSigned name
  | binary _ op _ _ => (Grammar.precedence? op).isSome = true ∨ op = "and" ∨ op = "or"
  | unary _ op _ => op ∈ signWords
  | string _ pieces => Grammar.NormalTexts (pieces.map Piece.text?)
  | _ => True

/-- A node with words in all places of its tree. -/
def Named (node : Node) : Prop :=
  node.Every Worded

end Node

abbrev AllNamed (nodes : List Node) : Prop :=
  Throughout Node.Named nodes

theorem Node.Named.of {node : Node} (here : node.Worded) (inner : AllNamed node.children) : node.Named :=
  .intro here inner

theorem Node.Named.parts {node : Node} (h : node.Named) : AllNamed node.children :=
  h.inner

abbrev PairsNamed (pairs : List (Node × Node)) : Prop :=
  Throughout (fun pair => pair.1.Named ∧ pair.2.Named) pairs

/-- What holds of an argument or a pair. -/
def ItemNamed : Node ⊕ Node × Node → Prop
  | .inl node => node.Named
  | .inr pair => pair.1.Named ∧ pair.2.Named

def PiecesNamed (pieces : List (Piece Node)) : Prop :=
  AllNamed (pieces.flatMap Piece.inner)

namespace Grammar

variable {α β : Type}

def State.Worded (state : State) : Prop :=
  ∀ token ∈ state.ahead ++ [state.final], token.Worded

theorem State.Worded.left {state after : State} (h : state.Worded) (fewer : after.ahead <:+ state.ahead)
    (same : after.final = state.final) : after.Worded := by
  intro token mem
  refine h token ?_
  rw [same] at mem
  exact List.mem_append.2 ((List.mem_append.1 mem).imp_left (fewer.mem ·))

/-- What holds of all results of a parser, with the names of the tokens that are left as they were. -/
def Ensures (p : Parser α) (good : α → Prop) : Prop :=
  ∀ ⦃state value after⦄, state.Worded → p.run state = .ok (value, after) → good value ∧ after.Worded

namespace Ensures

variable {p q : Parser α} {good : α → Prop} {fine : β → Prop}

theorem quiet (p : Parser α) [quiet : Quiet p] : Ensures p fun _ => True := by
  intro state value after worded run
  obtain ⟨fewer, same⟩ := quiet.keeps run
  exact ⟨trivial, worded.left fewer same⟩

theorem pure {value : α} (h : good value) : Ensures (Pure.pure value) good := by
  intro state value' after worded run
  obtain ⟨rfl, rfl⟩ := Prod.mk.inj (Except.ok.inj run)
  exact ⟨h, worded⟩

theorem bind {next : α → Parser β} (h : Ensures p good) (hnext : ∀ value, good value → Ensures (next value) fine) :
    Ensures (p >>= next) fine := by
  intro state value after worded run
  obtain ⟨first, mid, here, there⟩ := run_bind_eq_ok_iff.1 run
  obtain ⟨made, worded⟩ := h worded here
  exact hnext first made worded there

theorem imp {weak : α → Prop} (h : Ensures p good) (weaker : ∀ value, good value → weak value) : Ensures p weak := by
  intro state value after worded run
  obtain ⟨made, worded⟩ := h worded run
  exact ⟨weaker value made, worded⟩

theorem map {f : α → β} (h : Ensures p good) (made : ∀ value, good value → fine (f value)) :
    Ensures (f <$> p) fine := by
  rw [map_eq_pure_bind]
  exact h.bind fun value here => .pure (made value here)

theorem some {p : Parser Node} (h : Ensures p Node.Named) :
    Ensures (Option.some <$> p) fun found => AllNamed found.toList :=
  h.map fun _ made => .one made

theorem none : Ensures (Pure.pure Option.none) fun found : Option Node => AllNamed found.toList :=
  .pure .nil

/-- Behind a parser of which nothing is used. -/
theorem after [Quiet p] {next : α → Parser β} (h : ∀ value, Ensures (next value) fine) : Ensures (p >>= next) fine :=
  (quiet p).bind fun value _ => h value

theorem throw {fault : ReadError} : Ensures (MonadExcept.throw fault : Parser α) good := by
  intro state value after worded run
  cases run

theorem complainAt {complaint : Complaint} {token : Token} : Ensures (complainAt complaint token : Parser α) good :=
  throw

theorem complain {complaint : Complaint} : Ensures (complain complaint : Parser α) good :=
  .after fun _ => complainAt

theorem ite {test : Prop} {_ : Decidable test} (h : Ensures p good) (h' : Ensures q good) :
    Ensures (if test then p else q) good := by
  split
  · exact h
  · exact h'

theorem look : Ensures peek Token.Worded := by
  intro state value after worded run
  obtain ⟨rfl, rfl⟩ := Prod.mk.inj (Except.ok.inj ((run_peek state).symm.trans run))
  exact ⟨worded _ state.next_mem, worded⟩

theorem read : Ensures advance Token.Worded :=
  look.bind fun _ here =>
    have := Quiet.modify (f := fun state => { state with ahead := state.ahead.tail }) (fun _ => List.tail_suffix _)
      fun _ => rfl
    .after fun _ => .pure here

theorem mapM {run : β → Parser α} {items : List β} (h : ∀ item ∈ items, Ensures (run item) good) :
    Ensures (items.mapM run) fun found => ∀ value ∈ found, good value := by
  induction items with
  | nil => exact .pure (List.forall_mem_nil _)
  | cons item rest ih =>
    obtain ⟨here, beside⟩ := List.forall_mem_cons.1 h
    rw [List.mapM_cons]
    exact here.bind fun value made => (ih beside).bind fun more others =>
      .pure (List.forall_mem_cons.2 ⟨made, others⟩)

theorem around {enter : State → State} {leave : State → State → State} (brackets : Brackets enter leave)
    (h : Ensures p good) : Ensures (around enter leave p) good :=
  have := brackets.quiet_enter
  have := brackets.quiet_leave
  .after fun _ => .after fun _ => h.bind fun _ made => .after fun _ => .pure made

theorem inScope {hard : Bool} (h : Ensures p good) : Ensures (inScope hard p) good :=
  .around (.inScope hard) h

theorem enclosed (h : Ensures p good) : Ensures (enclosed p) good :=
  .around .enclosed h

theorem leavingDo (h : Ensures p good) : Ensures (leavingDo p) good :=
  .around .leavingDo h

end Ensures

/-- What a rule is applied to: nodes with words in all places, and tokens whose names are words. -/
def Rule.Given : {α : Type} → Rule α → Prop
  | _, .modifiers node => node.Named
  | _, .connectiveRest left => left.Named
  | _, .binaryRest _ left => left.Named
  | _, .trailers base => base.Named
  | _, .code tokens _ => ∀ token ∈ tokens, token.Worded
  | _, _ => True

/-- What a rule ensures of what it reads. -/
def Rule.Gives : {α : Type} → Rule α → α → Prop
  | _, .statements _, nodes => AllNamed nodes
  | _, .whens, nodes => AllNamed nodes
  | _, .rescues, nodes => AllNamed nodes
  | _, .exceptions, nodes => AllNamed nodes
  | _, .arguments _ _, found => AllNamed found.1 ∧ PairsNamed found.2
  | _, .adjacent, pieces => PiecesNamed pieces
  | _, .code _ _, piece => PiecesNamed [piece]
  | _, .pairs, found => PairsNamed found
  | _, .blockNames, _ => True
  | _, .params _, _ => True
  | _, .targets, _ => True
  | _, .constantNames, _ => True
  | _, .statement, node => node.Named
  | _, .modifiers _, node => node.Named
  | _, .connective, node => node.Named
  | _, .connectiveRest _, node => node.Named
  | _, .negation, node => node.Named
  | _, .expression, node => node.Named
  | _, .choice, node => node.Named
  | _, .binary _, node => node.Named
  | _, .binaryRest _ _, node => node.Named
  | _, .unary, node => node.Named
  | _, .operand, node => node.Named
  | _, .trailers _, node => node.Named
  | _, .branch, node => node.Named

/-- Parsers of all rules that ensure what their rules give. -/
structure NamedRules (parse : Rules) : Prop where
  on {α : Type} (rule : Rule α) (given : rule.Given) : Ensures (parse rule) rule.Gives

end Grammar

end Formulary

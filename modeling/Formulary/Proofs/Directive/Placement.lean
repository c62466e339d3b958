import Formulary.Directive.ClassBody
import Formulary.Proofs.Result
import Formulary.Proofs.Tree.Place

/-!
What a directive says does not depend on where it is written: the same directive elsewhere is accepted too and says
the same. Only errors name lines.
-/

namespace Formulary

open Result (Alike)

variable (f : Position → Position)

namespace Static

theorem plainText?_place (pieces : List (Piece Node)) :
    plainText? (pieces.map (Piece.place f)) = plainText? pieces := by
  induction pieces with
  | nil => rfl
  | cons piece rest ih =>
    cases piece with
    | text value => exact congrArg (Option.map (value ++ ·)) ih
    | code pos body => rfl

theorem alike_asKey (node other : Node) (found : Value) : Alike (asKey node found) (asKey other found) := by
  cases found <;> rfl

mutual

theorem alike_value : ∀ node : Node, Alike (value (node.place f)) (value node)
  | .string pos pieces => by
    simp only [Node.place, Node.rewrite, Node.rewritePieces_eq, id, value, plainText?_place]
    cases plainText? pieces <;> rfl
  | .array _ elements => (alike_values elements).bind fun _ => .refl _
  | .hash _ pairs _ => (alike_entries pairs).bind fun _ => .refl _
  | .reference pos name => by
    simp only [Node.place, Node.rewrite, id, value]
    cases keyword? name <;> rfl
  | .paren _ [inner] => alike_value inner
  | .paren _ [] | .paren _ (_ :: _ :: _) => rfl
  | .symbol .. | .int .. => rfl
  | .program .. | .classDef .. | .moduleDef .. | .methodDef .. | .block .. | .call .. | .keywordCall .. => rfl
  | .constPath .. | .code .. | .shell .. | .regexp .. | .float .. | .range .. | .splat .. | .blockPass .. => rfl
  | .binary .. | .unary .. | .index .. | .assign .. | .opAssign .. | .elseClause .. | .branch .. => rfl
  | .branchModifier .. | .choice .. | .loop .. | .forLoop .. | .whenClause .. | .caseOf .. => rfl
  | .rescueClause .. | .guarded .. | .rescueModifier .. | .jump .. => rfl

theorem alike_values : ∀ nodes : List Node, Alike (values (Node.rewriteAll { place := f } nodes)) (values nodes)
  | [] => rfl
  | node :: rest => (alike_value node).bind fun _ => (alike_values rest).bind fun _ => .refl _

theorem alike_entries :
    ∀ pairs : List (Node × Node), Alike (entries (Node.rewritePairs { place := f } pairs)) (entries pairs)
  | [] => rfl
  | (key, content) :: rest =>
    (alike_value key).bind fun found => (alike_asKey (key.place f) key found).bind fun _ =>
      (alike_value content).bind fun _ => (alike_entries rest).bind fun _ => .refl _

end

end Static

namespace Directive

/-- The same directive in another place. -/
structure Moved (directive other : Directive) : Prop where
  name : other.name = directive.name
  args : other.args = directive.args.map (Node.place f)
  block : other.block = directive.block.map (List.map (Node.place f))

variable {f} {directive other : Directive}

section Arguments

variable (moved : Moved f directive other)
include moved

theorem alike_arguments : Alike other.arguments directive.arguments := by
  rw [arguments, arguments, moved.args, moved.name, ← Node.rewriteAll_eq]
  exact (Static.alike_values f directive.args).mapError

omit moved in
theorem alike_refuse {α : Type} (reason : Reason) :
    Alike (other.refuse reason : Except DirectiveError α) (directive.refuse reason) := rfl

theorem alike_string (form : StringForm) : Alike (other.string form) (directive.string form) := by
  refine (alike_arguments moved).bind fun given => ?_
  split
  · split
    · exact .refl _
    · exact alike_refuse _
  · exact alike_refuse _

theorem alike_int : Alike other.int directive.int := by
  refine (alike_arguments moved).bind fun given => ?_
  split
  · exact .refl _
  · exact alike_refuse _

end Arguments

section Dependencies

variable (directive other : Directive)

theorem alike_dependencyKind (tag : Value) :
    Alike (other.dependencyKind tag) (directive.dependencyKind tag) := by
  unfold dependencyKind
  split
  · exact .refl _
  · split
    · exact .refl _
    · exact alike_refuse _
  · exact alike_refuse _

theorem alike_dependencyKinds (tags : List Value) :
    Alike (other.dependencyKinds tags) (directive.dependencyKinds tags) := by
  induction tags with
  | nil => exact .refl _
  | cons tag rest ih => exact (alike_dependencyKind directive other tag).bind fun _ => ih.bind fun _ => .refl _

theorem alike_taggedDependency (key : Scalar) (tagged : Value) :
    Alike (other.taggedDependency key tagged) (directive.taggedDependency key tagged) := by
  unfold taggedDependency
  split
  · exact alike_refuse _
  · split
    · exact .refl _
    · exact (alike_dependencyKinds directive other _).bind fun _ => .refl _

theorem alike_taggedDependencies (entries : List (Scalar × Value)) :
    Alike (other.taggedDependencies entries) (directive.taggedDependencies entries) := by
  induction entries with
  | nil => exact .refl _
  | cons entry rest ih =>
    exact (alike_taggedDependency directive other entry.1 entry.2).bind fun _ => ih.bind fun _ => .refl _

theorem alike_declaredBy (value : Value) : Alike (other.declaredBy value) (directive.declaredBy value) := by
  unfold declaredBy
  split
  · exact alike_taggedDependencies directive other _
  · split
    · exact .refl _
    · exact alike_refuse _
  · exact alike_refuse _

theorem alike_declaredByAll (given : List Value) :
    Alike (other.declaredByAll given) (directive.declaredByAll given) := by
  induction given with
  | nil => exact .refl _
  | cons value rest ih => exact (alike_declaredBy directive other value).bind fun _ => ih.bind fun _ => .refl _

theorem alike_releasesOf (cellar : Option String) (entries : List (Scalar × Value)) :
    Alike (other.releasesOf cellar entries) (directive.releasesOf cellar entries) := by
  induction entries with
  | nil => exact .refl _
  | cons entry rest ih =>
    obtain ⟨key, value⟩ := entry
    simp only [releasesOf]
    split
    · exact ih.bind fun _ => .refl _
    · exact alike_refuse _

end Dependencies

section Bodies

variable (moved : Moved f directive other)
include moved

theorem alike_dependencies : Alike other.dependencies directive.dependencies := by
  refine (alike_arguments moved).bind fun given => ?_
  cases given with
  | nil => exact alike_refuse _
  | cons value rest => exact alike_declaredByAll directive other _

theorem alike_releases : Alike other.releases directive.releases := by
  refine (alike_arguments moved).bind fun given => ?_
  split
  · exact alike_releasesOf directive other _ _
  · exact alike_refuse _

theorem alike_bottleLine : Alike other.bottleLine directive.bottleLine := by
  unfold bottleLine
  rw [moved.name]
  split
  · exact (alike_string moved _).bind fun _ => .refl _
  · exact (alike_int moved).bind fun _ => .refl _
  · exact (alike_string moved _).bind fun _ => .refl _
  · exact (alike_releases moved).bind fun _ => .refl _
  · rfl

theorem alike_sourceLine : Alike other.sourceLine directive.sourceLine := by
  unfold sourceLine
  rw [moved.name]
  split
  · exact (alike_string moved _).bind fun _ => .refl _
  · exact (alike_string moved _).bind fun _ => .refl _
  · exact (alike_dependencies moved).bind fun _ => .refl _
  all_goals rfl

end Bodies

theorem blockBody_place (node : Node) : (node.place f).blockBody = node.blockBody.map (Node.place f) := by
  cases node <;> simp [Node.blockBody, Node.rewrite, Node.rewriteAll_eq]

/-- A node that is a directive is one in every place, and no other node becomes one. -/
theorem ofNode?_place (node : Node) :
    (ofNode? node = none ∧ ofNode? (node.place f) = none) ∨
    ∃ directive other, ofNode? node = some directive ∧ ofNode? (node.place f) = some other ∧
      Moved f directive other := by
  cases node with
  | call pos name receiver args attached parens =>
    cases receiver with
    | some receiver => exact .inl ⟨rfl, rfl⟩
    | none =>
      refine .inr ⟨_, _, rfl, rfl, rfl, Node.rewriteAll_eq _ args, ?_⟩
      cases attached with
      | none => rfl
      | some block => exact congrArg some (blockBody_place block)
  | _ => exact .inl ⟨rfl, rfl⟩

section Statements

variable {ε : Type} {read : Directive → Except DirectiveError ε}
  (alike : ∀ {directive other}, Moved f directive other → Alike (read other) (read directive))
include alike

theorem alike_ofStatement (node : Node) : Alike (ofStatement read (node.place f)) (ofStatement read node) := by
  unfold ofStatement
  obtain ⟨hn, hp⟩ | ⟨directive, other, hn, hp, moved⟩ := ofNode?_place (f := f) node
  · rw [hn, hp]
    rfl
  · rw [hn, hp]
    exact alike moved

theorem alike_ofBody (body : List Node) : Alike (ofBody read (body.map (Node.place f))) (ofBody read body) := by
  induction body with
  | nil => exact .refl _
  | cons node rest ih => exact (alike_ofStatement alike node).bind fun _ => ih.bind fun _ => .refl _

end Statements

section Declarations

variable (moved : Moved f directive other)
include moved

theorem alike_bottle : Alike other.bottle directive.bottle := by
  unfold bottle
  rw [moved.block]
  cases directive.block with
  | some body => exact (alike_ofBody alike_bottleLine body).bind fun _ => .refl _
  | none =>
    refine (alike_arguments moved).bind fun given => ?_
    split
    · exact .refl _
    · exact alike_refuse _

omit moved in
theorem alike_sourceBlock (body : List Node) :
    Alike (sourceBlock (body.map (Node.place f))) (sourceBlock body) :=
  (alike_ofBody alike_sourceLine body).bind fun _ => .refl _

theorem alike_head : Alike other.head directive.head := by
  unfold head
  rw [moved.block, moved.args, List.isEmpty_map]
  have settle (draft : SourceDraft) : Alike
      (if directive.args.isEmpty then requireUrl "head" draft
        else do requireUrl "head" { draft with url := some (← other.string { options := true }) })
      (if directive.args.isEmpty then requireUrl "head" draft
        else do requireUrl "head" { draft with url := some (← directive.string { options := true }) }) := by
    split
    · exact .refl _
    · exact (alike_string moved _).bind fun _ => .refl _
  cases directive.block with
  | some body => exact (alike_sourceBlock body).bind settle
  | none => exact settle {}

theorem alike_stable : Alike other.stable directive.stable := by
  unfold stable
  rw [moved.block]
  cases directive.block with
  | some body => exact (alike_sourceBlock body).bind fun _ => .refl _
  | none => exact alike_refuse _

theorem alike_declaration : Alike other.declaration directive.declaration := by
  unfold declaration
  rw [moved.name]
  split
  case h_3 => exact (alike_string moved _).bind fun _ => .refl _
  case h_6 => exact (alike_int moved).bind fun _ => .refl _
  case h_7 => exact (alike_dependencies moved).bind fun _ => .refl _
  case h_8 => exact (alike_bottle moved).bind fun _ => .refl _
  case h_9 => exact (alike_head moved).bind fun _ => .refl _
  case h_10 => exact (alike_stable moved).bind fun _ => .refl _
  case h_11 =>
    split
    · exact .refl _
    · rfl
  all_goals exact (alike_string moved _).bind fun _ => .refl _

end Declarations

/-- A statement says the same wherever it stands. -/
theorem alike_declarationOf (node : Node) : Alike (declarationOf (node.place f)) (declarationOf node) := by
  cases node with
  | methodDef => exact .refl _
  | call pos name receiver args attached parens =>
    exact alike_ofStatement alike_declaration (.call pos name receiver args attached parens)
  | _ => rfl

end Directive

end Formulary

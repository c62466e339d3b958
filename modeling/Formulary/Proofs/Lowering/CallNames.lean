import Formulary.Proofs.Layout.Breaks
import Formulary.Proofs.Lowering.Faults
import Formulary.Proofs.Lowering.MethodName
import Mathlib.Data.List.Forall2

/-!
The names of calls in the instructions of a body. Every call in a body that is lowered is reached, and gives one method
name in its encoded form, which decodes to the name as it is written. Only a bare name that is all the code between
braces is no call in the instructions, and keeps its name as it is.
-/

namespace Formulary

/-- A name in a recipe. -/
inductive Written where
  | call (name : String)
  /-- A bare name that is all the code between braces. -/
  | bare (name : String)
  | variable (name : String)
  | symbol (name : String)
  | operator (name : String)
deriving DecidableEq

mutual

/-- The names in what is lowered, in the order of the text that instructions have. -/
def Node.written : Node → List Written
  | .string _ pieces => writtenInPieces pieces
  | .symbol _ name => [.symbol name]
  | .reference _ name => [.variable name]
  | .call _ name none args _ _ => .call name :: writtenIn args
  | .call _ name (some receiver) args _ _ => receiver.written ++ .call name :: writtenIn args
  | .index _ base args => base.written ++ writtenIn args
  | .binary _ op left right => left.written ++ .operator op :: right.written
  | .unary _ op inner => .operator op :: inner.written
  | .assign _ target value => target.written ++ value.written
  | .splat _ value _ => value.written
  | .paren _ body => writtenIn body
  | .code _ body => writtenInCode body
  | .branchModifier _ _ cond statement => cond.written ++ statement.written
  | .branch _ _ cond body orelse => cond.written ++ writtenIn body ++ writtenInElse orelse
  | _ => []

def writtenIn : List Node → List Written
  | [] => []
  | node :: rest => node.written ++ writtenIn rest

def writtenInCode : List Node → List Written
  | [.call _ name none [] none false] => [.bare name]
  | node :: rest => node.written ++ writtenIn rest
  | [] => []

def writtenInPieces : List (Piece Node) → List Written
  | [] => []
  | .text _ :: rest => writtenInPieces rest
  | .code _ body :: rest => writtenInCode body ++ writtenInPieces rest

def writtenInElse : Option Node → List Written
  | some (.elseClause _ body) => writtenIn body
  | some node => if node.isBranch then node.written else []
  | none => []

end

theorem writtenInCode_bare {node : Node} {name : String} (h : node.bareName? = some name) :
    writtenInCode [node] = [.bare name] := by
  obtain ⟨place, rfl⟩ := Node.eq_call_of_bareName? h
  rfl

theorem writtenInCode_of_called {node : Node} (h : node.bareName? = none) : writtenInCode [node] = node.written := by
  rw [writtenInCode, writtenIn, List.append_nil]
  rintro place name ⟨⟩
  cases h

/-- A name that ends in a question or exclamation mark. -/
def Marked (name : String) : Prop :=
  ∃ mark ∈ ['?', '!'], name.toList.getLast? = some mark

/-- What a name in a recipe has become. -/
inductive Carries : Written → Atom → Prop
  | call {name emitted : String} (unmarked : ¬ Marked emitted) (decoded : MethodName.decode emitted = name) :
      Carries (.call name) (.method emitted)
  | bare (name : String) : Carries (.bare name) (.var name)
  | variable (name : String) : Carries (.variable name) (.var name)
  | symbol (name : String) : Carries (.symbol name) (.symbol name)
  | operator (name : String) : Carries (.operator name) (.operator name)

namespace Lowering

theorem carries_encode (name : String) : Carries (.call name) (.method (MethodName.encode name)) := by
  refine .call ?_ (MethodName.decode_encode name)
  rintro ⟨mark, sign, last⟩
  rw [MethodName.encode, String.toList_ofList] at last
  exact MethodName.getLast?_encodeChars_ne _ sign last

theorem carries_of_only {node : Node} {atoms : List Atom} (h : List.Forall₂ Carries node.written atoms) :
    List.Forall₂ Carries (writtenIn [node]) atoms := by
  rwa [writtenIn, writtenIn, List.append_nil]

mutual

theorem carries_of_yields {node : Node} {e : Expression} (h : Yields node e) :
    List.Forall₂ Carries node.written e.atoms := by
  cases h with
  | string parts => exact carries_of_yieldsParts parts
  | symbol => exact .cons (.symbol _) .nil
  | reference => exact .cons (.variable _) .nil
  | int | array => exact .nil
  | bareCall args => exact .cons (carries_encode _) (carries_of_yieldsAll args)
  | methodCall receiver args =>
    exact List.rel_append (carries_of_yields receiver) (.cons (carries_encode _) (carries_of_yieldsAll args))
  | index base subscript =>
    exact List.rel_append (carries_of_yields base) (carries_of_only (carries_of_yields subscript))
  | binary left right =>
    exact List.rel_append (carries_of_yields left) (.cons (.operator _) (carries_of_yields right))
  | unary inner => exact .cons (.operator _) (carries_of_yields inner)
  | assign target value => exact List.rel_append (carries_of_yields target) (carries_of_yields value)
  | splat inner =>
    have carried := carries_of_yields inner
    exact carried
  | paren inner => exact carries_of_only (carries_of_yields inner)

theorem carries_of_yieldsAll {nodes : List Node} {found : List Expression} (h : YieldsAll nodes found) :
    List.Forall₂ Carries (writtenIn nodes) (atomsOf found) := by
  cases h with
  | nil => exact .nil
  | cons first rest => exact List.rel_append (carries_of_yields first) (carries_of_yieldsAll rest)

theorem carries_of_yieldsParts {pieces : List (Piece Node)} {found : List (Part Expression)}
    (h : YieldsParts pieces found) : List.Forall₂ Carries (writtenInPieces pieces) (partAtoms found) := by
  cases h with
  | nil => exact .nil
  | empty _ rest | text _ rest =>
    have carried := carries_of_yieldsParts rest
    exact carried
  | @code pos _ rest e more inner others =>
    cases inner with
    | name bare =>
      rw [writtenInPieces, writtenInCode_bare bare]
      exact .cons (.bare _) (carries_of_yieldsParts others)
    | expression called inner =>
      rw [writtenInPieces, writtenInCode_of_called called]
      exact List.rel_append (carries_of_yields inner) (carries_of_yieldsParts others)

end

theorem carries_of_sole {written : List Written} {instruction : Instruction}
    (h : List.Forall₂ Carries written instruction.atoms) : List.Forall₂ Carries written (bodyAtoms [instruction]) := by
  rwa [bodyAtoms, bodyAtoms, List.append_nil]

mutual

theorem carries_of_becomes {node : Node} {instruction : Instruction} (h : Becomes node instruction) :
    List.Forall₂ Carries node.written instruction.atoms := by
  cases h with
  | command args => exact .cons (carries_encode _) (carries_of_yieldsAll args)
  | commandOn receiver args =>
    exact List.rel_append (carries_of_yields receiver) (.cons (carries_encode _) (carries_of_yieldsAll args))
  | modifier cond inner =>
    rw [Instruction.atoms, elseAtoms, List.append_nil]
    exact List.rel_append (carries_of_yields cond) (carries_of_sole (carries_of_becomes inner))
  | branch cond statements orelse =>
    exact List.rel_append (List.rel_append (carries_of_yields cond) (carries_of_becomesAll statements))
      (carries_of_becomesElse orelse)
  | paren inner => exact carries_of_only (carries_of_becomes inner)
  | expression _ h => exact carries_of_yields h

theorem carries_of_becomesAll {nodes : List Node} {found : List Instruction} (h : BecomesAll nodes found) :
    List.Forall₂ Carries (writtenIn nodes) (bodyAtoms found) := by
  cases h with
  | nil => exact .nil
  | cons first rest => exact List.rel_append (carries_of_becomes first) (carries_of_becomesAll rest)

theorem carries_of_becomesElse {orelse : Option Node} {found : Option (List Instruction)}
    (h : BecomesElse orelse found) : List.Forall₂ Carries (writtenInElse orelse) (elseAtoms found) := by
  cases h with
  | absent => exact .nil
  | clause statements => exact carries_of_becomesAll statements
  | further cond statements orelse =>
    exact carries_of_sole (List.rel_append (List.rel_append (carries_of_yields cond)
      (carries_of_becomesAll statements)) (carries_of_becomesElse orelse))
  | ignored other clauseless =>
    rw [writtenInElse, if_neg (Bool.eq_false_iff.1 other)]
    · exact .nil
    · exact clauseless

end

/-! Calls that stand in a body -/

theorem written_subset_of_mem {node : Node} {nodes : List Node} (mem : node ∈ nodes) :
    node.written ⊆ writtenIn nodes := by
  induction mem with
  | head => exact List.subset_append_left _ _
  | tail _ _ ih => exact List.subset_append_of_subset_right _ ih

theorem written_subset_of_piece {code : Node} {pieces : List (Piece Node)} (mem : code ∈ pieces.filterMap Piece.code?) :
    code.written ⊆ writtenInPieces pieces := by
  induction pieces with
  | nil => cases mem
  | cons piece rest ih =>
    cases piece with
    | text value => exact ih mem
    | code pos body =>
      obtain rfl | mem := List.mem_cons.1 mem
      · exact List.subset_append_left _ _
      · exact List.subset_append_of_subset_right _ (ih mem)

theorem written_subset_of_further {node : Node} {orelse : Option Node} (mem : node ∈ Node.furtherStatements orelse) :
    node.written ⊆ writtenInElse orelse := by
  unfold Node.furtherStatements at mem
  split at mem
  · exact written_subset_of_mem mem
  · rename_i further clauseless
    split at mem
    · rename_i branch
      obtain rfl := List.mem_singleton.1 mem
      rw [writtenInElse, if_pos branch]
      · exact List.Subset.refl _
      · exact clauseless
    · cases mem
  · cases mem

/-- The names of a part are among those of the node, if it is not a bare name that is all the code between braces. -/
theorem written_of_part {node inner : Node} {standing place : Standing}
    (supported : node.isUnsupported standing = false) (mem : (place, inner) ∈ node.placedParts standing) :
    inner.written ⊆ node.written ∨ ∃ pos name, node = .code pos [inner] ∧ inner.bareName? = some name := by
  cases node with
  | string pos pieces => exact .inl (written_subset_of_piece (Node.mem_of_placed mem))
  | symbol | int | array | reference => cases mem
  | call pos name receiver args attached parens =>
    obtain ⟨-, rfl⟩ : standing ≠ .embedded ∧ attached = none := by simpa [Node.isUnsupported] using supported
    have among : inner ∈ receiver ∨ inner ∈ args := by
      simpa [Node.constituents, Node.children] using Node.mem_of_placed mem
    left
    cases receiver with
    | none =>
      obtain among | among := among
      · cases among
      · exact List.subset_cons_of_subset _ (written_subset_of_mem among)
    | some receiver =>
      obtain same | among := among
      · cases same
        exact List.subset_append_left _ _
      · exact List.subset_append_of_subset_right _ (List.subset_cons_of_subset _ (written_subset_of_mem among))
  | index pos base args =>
    left
    obtain rfl | among := List.mem_cons.1 (Node.mem_of_placed mem)
    · exact List.subset_append_left _ _
    · exact List.subset_append_of_subset_right _ (written_subset_of_mem among)
  | binary pos op left right =>
    left
    obtain rfl | among := List.mem_cons.1 (Node.mem_of_placed mem)
    · exact List.subset_append_left _ _
    · obtain rfl := List.mem_singleton.1 among
      exact List.subset_append_of_subset_right _ (List.subset_cons_self _ _)
  | assign pos target value =>
    left
    obtain rfl | among := List.mem_cons.1 (Node.mem_of_placed mem)
    · exact List.subset_append_left _ _
    · obtain rfl := List.mem_singleton.1 among
      exact List.subset_append_right _ _
  | unary pos op held =>
    obtain rfl := List.mem_singleton.1 (Node.mem_of_placed mem)
    exact .inl (List.subset_cons_self _ _)
  | splat pos held double =>
    obtain rfl := List.mem_singleton.1 (Node.mem_of_placed mem)
    exact .inl (List.Subset.refl _)
  | paren pos body => exact .inl (written_subset_of_mem (Node.mem_of_placed mem))
  | code pos body =>
    obtain ⟨held, rfl⟩ := Node.eq_singleton (Bool.or_eq_false_iff.1 supported).2
    obtain rfl := List.mem_singleton.1 (Node.mem_of_placed mem)
    cases called : inner.bareName? with
    | some name => exact .inr ⟨pos, name, rfl, rfl⟩
    | none =>
      left
      rw [Node.written, writtenInCode_of_called called]
      exact List.Subset.refl _
  | branch pos head cond body orelse =>
    left
    obtain same | among := List.mem_cons.1 mem
    · cases same
      exact List.subset_append_of_subset_left _ (List.subset_append_left _ _)
    obtain among | among := List.mem_append.1 among
    · exact List.subset_append_of_subset_left _
        (List.subset_append_of_subset_right _ (written_subset_of_mem (Node.mem_of_placed among)))
    · exact List.subset_append_of_subset_right _ (written_subset_of_further (Node.mem_of_placed among))
  | branchModifier pos polarity cond statement =>
    left
    obtain same | among := List.mem_cons.1 mem
    · cases same
      exact List.subset_append_right _ _
    · cases List.mem_singleton.1 among
      exact List.subset_append_left _ _
  | _ => cases standing <;> cases supported

/-- What stands in a body that is lowered has its names among those of the body, if it is not a bare name that is all
the code between braces. -/
theorem written_of_stands {body : List Node} {instructions : List Instruction} {occurrence : Occurrence}
    (lowered : lowerInstall body = .ok instructions) (stands : Stands body occurrence) :
    occurrence.node.written ⊆ writtenIn body ∨
      ∃ pos name, Stands body ⟨occurrence.statement, .embedded, .code pos [occurrence.node]⟩ ∧
        occurrence.node.bareName? = some name ∧ .bare name ∈ writtenIn body := by
  induction stands with
  | member mem => exact .inl (written_subset_of_mem mem)
  | @part outer inner outside mem ih =>
    have supported := supported_of_stands lowered outside
    obtain ⟨statement, standing, node⟩ := outer
    obtain ⟨⟨place, held⟩, listed, rfl⟩ := List.mem_map.1 mem
    obtain among | ⟨_, _, _, bare, _⟩ := ih
    · obtain inside | ⟨pos, name, rfl, bare⟩ := written_of_part supported listed
      · rw [Occurrence.node_into]
        exact .inl (List.Subset.trans inside among)
      · -- embedded code, with nothing but the name
        obtain rfl : standing = .embedded := by simpa [Occurrence.isUnsupported, Node.isUnsupported] using supported
        cases List.mem_singleton.1 listed
        refine .inr ⟨pos, name, outside, bare, among ?_⟩
        rw [Node.written, writtenInCode_bare bare]
        exact List.mem_cons_self
    · -- a bare name has no parts
      obtain ⟨pos, rfl⟩ := Node.eq_call_of_bareName? bare
      cases listed

theorem mem_written_of_call (pos : Position) (name : String) (receiver : Option Node) (args : List Node)
    (attached : Option Node) (parens : Bool) :
    .call name ∈ (Node.call pos name receiver args attached parens).written := by
  cases receiver with
  | none => exact List.mem_cons_self
  | some receiver => exact List.mem_append_right _ List.mem_cons_self

/-- The names in the instructions of a body are those in the body, one for one. The name of a call does not end in a
mark and decodes to the name as it is written, and all calls that stand in the body are among them, but for a bare name
that is all the code between braces: that one is the name of a variable, as it is written. -/
theorem lowerInstall_encodes_calls {body : List Node} {instructions : List Instruction}
    (lowered : lowerInstall body = .ok instructions) :
    List.Forall₂ Carries (writtenIn body) (bodyAtoms instructions) ∧
      ∀ statement standing pos name receiver args attached parens,
        let call : Node := .call pos name receiver args attached parens
        Stands body ⟨statement, standing, call⟩ →
          .call name ∈ writtenIn body ∨
            ∃ place, Stands body ⟨statement, .embedded, .code place [call]⟩ ∧ call.bareName? = some name ∧
              .bare name ∈ writtenIn body := by
  refine ⟨carries_of_becomesAll (lowerInstall_eq_ok_iff.1 lowered), ?_⟩
  intro statement standing pos name receiver args attached parens call stands
  obtain among | ⟨place, bareName, code, bare, mem⟩ := written_of_stands lowered stands
  · exact .inl (among (mem_written_of_call ..))
  · obtain ⟨_, same⟩ := Node.eq_call_of_bareName? bare
    obtain rfl : name = bareName := (Node.call.inj same).2.1
    exact .inr ⟨place, code, bare, mem⟩

/-- Calls in embedded code, as receivers and as arguments, and two bare names, one of them in parentheses. -/
theorem lowerInstall_encodes_calls_nested :
    let name (text : String) : Node := .call ⟨1, 1⟩ text none [] none false
    let grouped : Node := .paren ⟨1, 9⟩ [name "b!"]
    let body : List Node := [.call ⟨1, 1⟩ "puts" (some (name "c__q"))
      [.string ⟨1, 8⟩ [.code ⟨1, 9⟩ [name "a?"], .code ⟨1, 9⟩ [grouped]]] none true]
    let instructions : List Instruction := [.command "puts" (some (.bareCall "c__q__e" []))
      [.string [.embed (.var "a?"), .embed (.bareCall "b__b" [])]]]
    lowerInstall body = .ok instructions ∧
      writtenIn body = [.call "c__q", .call "puts", .bare "a?", .call "b!"] ∧
      List.Forall₂ Carries (writtenIn body) (bodyAtoms instructions) := by
  intro name grouped body instructions
  have lowered : lowerInstall body = .ok instructions := by rfl
  exact ⟨lowered, by decide, (lowerInstall_encodes_calls lowered).1⟩

/-- A bare name in braces is carried with its mark, or decodes to the name of another method. -/
theorem exists_bare_name_kept :
    let name (column : Nat) (text : String) : Node := .call ⟨1, column⟩ text none [] none false
    let string : Node := .string ⟨1, 1⟩ [.code ⟨1, 2⟩ [name 4 "head?"], .code ⟨1, 10⟩ [name 12 "foo__q"]]
    (Stands [string] ⟨string, .operand, name 4 "head?"⟩ ∧ Stands [string] ⟨string, .operand, name 12 "foo__q"⟩) ∧
      lowerInstall [string] = .ok [.expression (.string [.embed (.var "head?"), .embed (.var "foo__q")])] ∧
      Marked "head?" ∧ MethodName.decode "foo__q" = "foo?" := by
  intro name string
  have code (inner : Node) (pos : Position)
      (mem : ⟨string, .embedded, .code pos [inner]⟩ ∈ (Occurrence.ofStatement string).parts) :
      Stands [string] ⟨string, .operand, inner⟩ :=
    .part (.part (.member List.mem_cons_self) mem) List.mem_cons_self
  refine ⟨⟨code _ ⟨1, 2⟩ ?_, code _ ⟨1, 10⟩ ?_⟩, rfl, ⟨'?', by decide, by decide⟩, by decide⟩
  · exact List.mem_cons_self
  · exact List.mem_cons_of_mem _ List.mem_cons_self

end Lowering

end Formulary

import Formulary.Proofs.Grammar.Worded
import Formulary.Proofs.Layout.Breaks
import Formulary.Proofs.Lowering.Derivation

/-!
The names in the instructions of a recipe. All of them are on one line but those of symbols, which may be quoted, and
that of the variable whose name is a line break behind its sigil.
-/

namespace Formulary

open Layout (Plain)
open Spelling (isNameChar)

/-- A name on one line, if it is not that of a symbol or of the special variable of a line break. -/
def Atom.Tame : Atom → Prop
  | method name | operator name => Plain name
  | var name => Plain name ∨ name = "$\n"
  | symbol _ => True

section Names

variable {name : String}

theorem plain_of_toList {chars : List Char} (same : name.toList = chars) (filled : chars ≠ [])
    (unbroken : '\n' ∉ chars) (unspaced : chars.head? ≠ some ' ') : Plain name := by
  subst same
  exact ⟨fun empty => filled (empty ▸ rfl), unbroken, unspaced⟩

theorem IsWord.plain (h : IsWord name) : Plain name := by
  obtain ⟨stem, mark, same, filled, chars, marked⟩ := h
  refine plain_of_toList same (fun empty => filled (List.append_eq_nil_iff.1 empty).1) (fun mem => ?_) ?_
  · obtain inner | last := List.mem_append.1 mem
    · exact absurd (chars _ inner) (by decide)
    · revert last
      obtain rfl | rfl | rfl := marked <;> decide
  · cases stem with
    | nil => exact absurd rfl filled
    | cons c rest =>
      rintro ⟨⟩
      exact absurd (chars ' ' List.mem_cons_self) (by decide)

theorem plain_append {more : String} (h : Plain name) (unbroken : '\n' ∉ more.toList) : Plain (name ++ more) := by
  have filled : name.toList ≠ [] := fun empty => h.filled (String.toList_inj.1 empty)
  refine plain_of_toList (String.toList_append ..) (fun empty => filled (List.append_eq_nil_iff.1 empty).1) ?_ ?_
  · rw [List.mem_append, not_or]
    exact ⟨h.unbroken, unbroken⟩
  · rw [List.head?_append_of_ne_nil _ filled]
    exact h.unspaced

theorem IsSigned.plain_or (h : IsSigned name) : Plain name ∨ name = "$\n" := by
  cases h with
  | @named sigil stem known chars =>
    have plain : ∀ sigil ∈ ["@", "@@", "$"], Plain sigil := by
      simp only [List.forall_mem_cons]
      exact ⟨⟨by decide, by decide, by decide⟩, ⟨by decide, by decide, by decide⟩, ⟨by decide, by decide, by decide⟩,
        List.forall_mem_nil _⟩
    refine .inl (plain_append (plain sigil known) ?_)
    rw [String.toList_ofList]
    exact fun mem => absurd (chars _ mem) (by decide)
  | special c =>
    -- the only name of a recipe with a line break that is not quoted
    by_cases line : c = '\n'
    · exact .inr (line ▸ rfl)
    · refine .inl (plain_append ⟨by decide, by decide, by decide⟩ ?_)
      rw [String.toList_ofList]
      exact fun mem => line (List.mem_singleton.1 mem).symm

/-! Encoded names -/

theorem plain_suffixed {front suffix : List Char} (h : Plain name) (begins : front <+: name.toList)
    (known : suffix ∈ [MethodName.querySuffix, MethodName.bangSuffix, MethodName.escapeSuffix]) :
    Plain (String.ofList (front ++ suffix)) := by
  have plain : suffix.all (fun c => c != '\n' && c != ' ') = true := by
    simp only [List.mem_cons, List.not_mem_nil, or_false] at known
    obtain rfl | rfl | rfl := known <;> decide
  have filled : suffix ≠ [] := by
    rintro rfl
    simp [MethodName.querySuffix, MethodName.bangSuffix, MethodName.escapeSuffix] at known
  have safe : ∀ c ∈ suffix, c ≠ '\n' ∧ c ≠ ' ' := by simpa using plain
  have some : front ++ suffix ≠ [] := fun empty => filled (List.append_eq_nil_iff.1 empty).2
  refine plain_of_toList String.toList_ofList some (fun mem => ?_) ?_
  · obtain inner | last := List.mem_append.1 mem
    · exact h.unbroken (begins.subset inner)
    · exact (safe _ last).1 rfl
  · cases front with
    | nil => exact fun head => (safe _ (List.mem_of_mem_head? head)).2 rfl
    | cons c rest =>
      obtain ⟨more, same⟩ := begins
      have unspaced := h.unspaced
      rwa [← same] at unspaced

theorem plain_encode (h : Plain name) : Plain (MethodName.encode name) := by
  unfold MethodName.encode MethodName.encodeChars
  split
  · exact plain_suffixed h (List.dropLast_prefix _) (by decide)
  split
  · exact plain_suffixed h (List.dropLast_prefix _) (by decide)
  split
  · exact plain_suffixed h List.prefix_rfl (by decide)
  · rwa [String.ofList_toList]

end Names

namespace Lowering

open Grammar (precedence?)

theorem plain_operator {op : String} (known : (precedence? op).isSome = true ∨ op = "and" ∨ op = "or") : Plain op := by
  unfold precedence? at known
  obtain known | rfl | rfl := known
  · split at known
    all_goals first | contradiction | exact ⟨by decide, by decide, by decide⟩
  all_goals exact ⟨by decide, by decide, by decide⟩

theorem plain_sign {op : String} (known : op ∈ signWords) : Plain op := by
  simp only [signWords, List.mem_cons, List.not_mem_nil, or_false] at known
  obtain rfl | rfl | rfl | rfl | rfl := known
  all_goals exact ⟨by decide, by decide, by decide⟩

/-- The names in an expression are tame. -/
abbrev AllTame (atoms : List Atom) : Prop :=
  Throughout Atom.Tame atoms

mutual

/-- A node whose names are words yields an expression with tame names. -/
theorem tame_of_yields {node : Node} {e : Expression} (h : Yields node e) (named : node.Named) : AllTame e.atoms := by
  cases h with
  | string parts => exact tame_of_yieldsParts parts named.parts
  | symbol => exact .one trivial
  | int => exact .nil
  | array => exact .nil
  | reference => exact .one (named.here.elim (fun word => .inl word.plain) IsSigned.plain_or)
  | bareCall args =>
    have inner := named.parts.of_append.1.of_append.2
    exact .cons (plain_encode (IsWord.plain named.here)) (tame_of_yieldsAll args inner)
  | methodCall receiver args =>
    obtain ⟨base, inner⟩ := named.parts.of_append.1.of_append
    exact .append (tame_of_yields receiver base.of_cons.1)
      (.cons (plain_encode (IsWord.plain named.here)) (tame_of_yieldsAll args inner))
  | index base subscript =>
    obtain ⟨first, rest⟩ := named.parts.of_cons
    exact .append (tame_of_yields base first) (tame_of_yields subscript rest.of_cons.1)
  | binary left right =>
    obtain ⟨first, rest⟩ := named.parts.of_cons
    exact .append (tame_of_yields left first)
      (.cons (plain_operator named.here) (tame_of_yields right rest.of_cons.1))
  | unary inner => exact .cons (plain_sign named.here) (tame_of_yields inner named.parts.of_cons.1)
  | assign target value =>
    obtain ⟨first, rest⟩ := named.parts.of_cons
    exact .append (tame_of_yields target first) (tame_of_yields value rest.of_cons.1)
  | @splat pos value e inner =>
    have tame : AllTame e.atoms := tame_of_yields inner named.parts.of_cons.1
    exact tame
  | paren inner => exact tame_of_yields inner named.parts.of_cons.1

theorem tame_of_yieldsAll {nodes : List Node} {found : List Expression} (h : YieldsAll nodes found)
    (named : AllNamed nodes) : AllTame (atomsOf found) := by
  cases h with
  | nil => exact .nil
  | cons first rest =>
    obtain ⟨here, behind⟩ := named.of_cons
    exact .append (tame_of_yields first here) (tame_of_yieldsAll rest behind)

theorem tame_of_yieldsParts {pieces : List (Piece Node)} {found : List (Part Expression)}
    (h : YieldsParts pieces found) (named : PiecesNamed pieces) : AllTame (partAtoms found) := by
  cases h with
  | nil => exact .nil
  | empty _ rest => exact tame_of_yieldsParts rest named
  | @text value behind more _ rest =>
    have tame : AllTame (partAtoms more) := tame_of_yieldsParts rest named
    exact tame
  | code inner rest =>
    obtain ⟨here, behind⟩ := Throughout.of_append named
    exact .append (tame_of_yieldsEmbedded inner here.of_cons.1) (tame_of_yieldsParts rest behind)

theorem tame_of_yieldsEmbedded {node : Node} {e : Expression} (h : YieldsEmbedded node e) (named : node.Named) :
    AllTame e.atoms := by
  cases h with
  | name bare =>
    unfold Node.bareName? at bare
    split at bare
    · obtain rfl := Option.some.inj bare
      exact .one (.inl (IsWord.plain named.here))
    · contradiction
  | expression _ h => exact tame_of_yields h named

end

mutual

theorem tame_of_becomes {node : Node} {instruction : Instruction} (h : Becomes node instruction)
    (named : node.Named) : AllTame instruction.atoms := by
  cases h with
  | command args =>
    have inner := named.parts.of_append.1.of_append.2
    exact .cons (plain_encode (IsWord.plain named.here)) (tame_of_yieldsAll args inner)
  | commandOn receiver args =>
    obtain ⟨base, inner⟩ := named.parts.of_append.1.of_append
    exact .append (tame_of_yields receiver base.of_cons.1)
      (.cons (plain_encode (IsWord.plain named.here)) (tame_of_yieldsAll args inner))
  | modifier cond inner =>
    obtain ⟨first, rest⟩ := named.parts.of_cons
    exact .append (.append (tame_of_yields cond first) (.append (tame_of_becomes inner rest.of_cons.1) .nil)) .nil
  | branch cond statements orelse =>
    obtain ⟨first, last⟩ := named.parts.of_append
    obtain ⟨test, body⟩ := first.of_cons
    exact .append (.append (tame_of_yields cond test) (tame_of_becomesAll statements body))
      (tame_of_becomesElse orelse last)
  | paren inner => exact tame_of_becomes inner named.parts.of_cons.1
  | expression _ h => exact tame_of_yields h named

theorem tame_of_becomesAll {nodes : List Node} {found : List Instruction} (h : BecomesAll nodes found)
    (named : AllNamed nodes) : AllTame (bodyAtoms found) := by
  cases h with
  | nil => exact .nil
  | cons first rest =>
    obtain ⟨here, behind⟩ := named.of_cons
    exact .append (tame_of_becomes first here) (tame_of_becomesAll rest behind)

theorem tame_of_becomesElse {orelse : Option Node} {found : Option (List Instruction)} (h : BecomesElse orelse found)
    (named : AllNamed orelse.toList) : AllTame (elseAtoms found) := by
  cases h with
  | absent => exact .nil
  | clause statements => exact tame_of_becomesAll statements named.of_cons.1.parts
  | further cond statements orelse =>
    obtain ⟨first, last⟩ := named.of_cons.1.parts.of_append
    obtain ⟨test, body⟩ := first.of_cons
    exact .append (.append (.append (tame_of_yields cond test) (tame_of_becomesAll statements body))
      (tame_of_becomesElse orelse last)) .nil
  | ignored => exact .nil

end

end Lowering

/-- The names in the instructions of a part of a recipe are tame. -/
theorem tame_of_lowerInstall {text : List Char} {program : Node} {body : List Node} {list : List Instruction}
    (read : parseRecipe text = .ok program) (inside : ∀ node ∈ body, program.Within node)
    (lowered : lowerInstall body = .ok list) : Lowering.AllTame (bodyAtoms list) := by
  have named : AllNamed body := fun node mem => (named_of_parseRecipe read).within (inside node mem)
  exact Lowering.tame_of_becomesAll (Lowering.lowerInstall_eq_ok_iff.1 lowered) named

end Formulary

import Formulary.Instruction.Layout
import Mathlib.Data.List.Basic

/-!
Reading the blocks of a layout back. A line tells its depth by the spaces before it, so a branch ends where a line is
less deep; an else stands at the depth of its condition, where no other line has its text.
-/

namespace Formulary.Layout

/-- What a layout shows of an instruction. -/
inductive Outline where
  | line (text : String)
  | branch (polarity : Polarity) (cond : String) (thenBranch : List Outline) (elseBranch : Option (List Outline))

def commandText (name : String) (args : List Expression) : Option Expression → String
  | none => call name (expressions args)
  | some receiver => operand receiver (expression receiver) ++ "." ++ call name (expressions args)

mutual

def outline : Instruction → Outline
  | .command name receiver args => .line (commandText name args receiver)
  | .conditional polarity cond thenBranch elseBranch =>
    .branch polarity (expression cond) (outlines thenBranch) (elseOutline elseBranch)
  | .expression expr => .line (expression expr)

def outlines : List Instruction → List Outline
  | [] => []
  | instruction :: rest => outline instruction :: outlines rest

def elseOutline : Option (List Instruction) → Option (List Outline)
  | none => none
  | some instructions => some (outlines instructions)

end

/-- A text of an instruction: something on one line that does not begin with a space. -/
structure Plain (text : String) : Prop where
  filled : text ≠ ""
  unbroken : '\n' ∉ text.toList
  unspaced : text.toList.head? ≠ some ' '

/-- A line of a layout: a text at a depth. -/
structure Row where
  depth : Nat
  text : String

namespace Row

def line (row : Row) : String :=
  indent row.depth ++ row.text

end Row

def header (polarity : Polarity) (cond : String) : String :=
  polarity.branchWord ++ " " ++ cond ++ ":"

mutual

def Outline.rows (depth : Nat) : Outline → List Row
  | .line text => [⟨depth, text⟩]
  | .branch polarity cond thenBranch elseBranch =>
    ⟨depth, header polarity cond⟩ :: rowsOf (depth + 1) thenBranch ++ elseRows depth elseBranch

def rowsOf (depth : Nat) : List Outline → List Row
  | [] => []
  | outline :: rest => outline.rows depth ++ rowsOf depth rest

def elseRows (depth : Nat) : Option (List Outline) → List Row
  | none => []
  | some body => ⟨depth, "else:"⟩ :: rowsOf (depth + 1) body

end

mutual

theorem instructionLines_eq (depth : Nat) (instruction : Instruction) :
    instructionLines depth instruction = ((outline instruction).rows depth).map Row.line := by
  cases instruction with
  | command name receiver args =>
    cases receiver <;> rfl
  | conditional polarity cond thenBranch elseBranch =>
    rw [instructionLines, outline, Outline.rows, lines_eq, elseLines_eq, List.map_append]
    rfl
  | expression expr => rfl

theorem lines_eq (depth : Nat) (list : List Instruction) :
    lines depth list = (rowsOf depth (outlines list)).map Row.line := by
  cases list with
  | nil => rfl
  | cons instruction rest =>
    rw [lines, outlines, rowsOf, instructionLines_eq, lines_eq, List.map_append]

theorem elseLines_eq (depth : Nat) (elseBranch : Option (List Instruction)) :
    elseLines depth elseBranch = (elseRows depth (elseOutline elseBranch)).map Row.line := by
  cases elseBranch with
  | none => rfl
  | some instructions =>
    rw [elseLines, elseOutline, elseRows, lines_eq]
    rfl

end

/-! Lines of a text -/

namespace Row

theorem toList_line (row : Row) : row.line.toList = List.replicate (4 * row.depth) ' ' ++ row.text.toList := by
  rw [line, String.toList_append, indent, String.toList_ofList]

variable {row other : Row} {list others : List Row}

/-- The spaces of a line are those of its depth. -/
theorem takeWhile_line (plain : Plain row.text) :
    row.line.toList.takeWhile (· = ' ') = List.replicate (4 * row.depth) ' ' := by
  have spaces : ∀ c ∈ List.replicate (4 * row.depth) ' ', decide (c = ' ') = true :=
    fun c mem => decide_eq_true (List.eq_of_mem_replicate mem)
  have stop : row.text.toList.takeWhile (· = ' ') = [] := by
    have unspaced := plain.unspaced
    cases chars : row.text.toList with
    | nil => rfl
    | cons c rest =>
      rw [chars] at unspaced
      exact List.takeWhile_cons_of_neg fun space => unspaced (congrArg some (of_decide_eq_true space))
  rw [toList_line, List.takeWhile_append_of_pos spaces, stop, List.append_nil]

theorem newline_not_mem_line (plain : Plain row.text) : '\n' ∉ row.line.toList := by
  rw [toList_line, List.mem_append]
  rintro (space | mem)
  · cases List.eq_of_mem_replicate space
  · exact plain.unbroken mem

theorem line_inj (plain : Plain row.text) (plain' : Plain other.text) (same : row.line = other.line) : row = other := by
  have depth : row.depth = other.depth := by
    have length := congrArg (fun line => (line.toList.takeWhile (· = ' ')).length) same
    simp only [takeWhile_line plain, takeWhile_line plain', List.length_replicate] at length
    omega
  have chars := congrArg String.toList same
  rw [toList_line, toList_line, depth] at chars
  have text := String.toList_inj.1 (List.append_cancel_left chars)
  cases row
  cases other
  cases depth
  cases text
  rfl

/-- A text of lines is read line by line. -/
theorem splitOn_lines (plain : ∀ row ∈ list, Plain row.text) (filled : list ≠ []) :
    (String.intercalate "\n" (list.map line)).toList.splitOn '\n' = list.map fun row => row.line.toList := by
  rw [String.toList_intercalate, List.map_map]
  have unbroken : ∀ chars ∈ list.map (String.toList ∘ line), '\n' ∉ chars := by
    intro chars mem
    obtain ⟨row, member, rfl⟩ := List.mem_map.1 mem
    exact newline_not_mem_line (plain row member)
  exact List.splitOn_intercalate '\n' unbroken (by simpa using filled)

theorem line_ne_empty (plain : Plain row.text) : row.line ≠ "" := by
  intro empty
  have chars := congrArg String.toList empty
  rw [toList_line] at chars
  exact plain.filled (String.toList_inj.1 (List.append_eq_nil_iff.1 chars).2)

theorem eq_nil_of_intercalate (plain : ∀ row ∈ list, Plain row.text)
    (empty : String.intercalate "\n" (list.map line) = "") : list = [] := by
  cases list with
  | nil => rfl
  | cons row rest =>
    have split := splitOn_lines plain (List.cons_ne_nil row rest)
    rw [empty] at split
    have head : [] = row.line.toList := (List.cons.inj split).1
    exact absurd (String.toList_inj.1 head.symm) (line_ne_empty (plain row List.mem_cons_self))

theorem map_line_inj (plain : ∀ row ∈ list, Plain row.text) (plain' : ∀ row ∈ others, Plain row.text)
    (same : list.map (fun row => row.line.toList) = others.map fun row => row.line.toList) : list = others := by
  induction list generalizing others with
  | nil => exact (List.map_eq_nil_iff.1 same.symm).symm
  | cons row list ih =>
    cases others with
    | nil => cases same
    | cons other others =>
      obtain ⟨first, rest⟩ := List.cons.inj same
      obtain ⟨head, plain⟩ := List.forall_mem_cons.1 plain
      obtain ⟨head', plain'⟩ := List.forall_mem_cons.1 plain'
      rw [line_inj head head' (String.toList_inj.1 first), ih plain plain' rest]

/-- The text of lines that show their depth gives the lines. -/
theorem lines_inj (plain : ∀ row ∈ list, Plain row.text) (plain' : ∀ row ∈ others, Plain row.text)
    (same : String.intercalate "\n" (list.map line) = String.intercalate "\n" (others.map line)) : list = others := by
  by_cases filled : list = []
  · subst filled
    exact (eq_nil_of_intercalate plain' same.symm).symm
  by_cases filled' : others = []
  · subst filled'
    exact eq_nil_of_intercalate plain same
  have split := congrArg (fun text => text.toList.splitOn '\n') same
  simp only [splitOn_lines plain filled, splitOn_lines plain' filled'] at split
  exact map_line_inj plain plain' split

end Row

/-! Blocks -/

/-- A text of a command or an expression that cannot be taken for a condition or an else. -/
structure Leaf (text : String) : Prop extends Plain text where
  unconditional (polarity : Polarity) : ¬(polarity.branchWord ++ " ").toList <+: text.toList
  other : text ≠ "else:"

mutual

def Outline.Tidy : Outline → Prop
  | .line text => Leaf text
  | .branch _ cond thenBranch elseBranch => Plain cond ∧ TidyAll thenBranch ∧ TidyElse elseBranch

def TidyAll : List Outline → Prop
  | [] => True
  | outline :: rest => outline.Tidy ∧ TidyAll rest

def TidyElse : Option (List Outline) → Prop
  | none => True
  | some body => TidyAll body

end

theorem plain_else : Plain "else:" :=
  ⟨by decide, by decide, by decide⟩

theorem toList_header (polarity : Polarity) (cond : String) :
    (header polarity cond).toList = (polarity.branchWord ++ " ").toList ++ (cond.toList ++ [':']) := by
  simp only [header, String.toList_append, List.append_assoc]
  rfl

theorem plain_header {cond : String} (polarity : Polarity) (plain : Plain cond) : Plain (header polarity cond) := by
  have head : (header polarity cond).toList.head? = polarity.branchWord.toList.head? := by
    rw [toList_header]
    cases polarity <;> rfl
  have unspaced : (header polarity cond).toList.head? ≠ some ' ' := by
    rw [head]
    cases polarity <;> decide
  refine ⟨fun empty => ?_, fun mem => ?_, unspaced⟩
  · rw [empty] at head
    revert head
    cases polarity <;> decide
  · rw [toList_header, List.mem_append, List.mem_append] at mem
    obtain word | cond | colon := mem
    · revert word
      cases polarity <;> decide
    · exact plain.unbroken cond
    · cases List.mem_singleton.1 colon

theorem header_inj {polarity other : Polarity} {cond cond' : String} (same : header polarity cond = header other cond') :
    polarity = other ∧ cond = cond' := by
  have chars := congrArg String.toList same
  rw [toList_header, toList_header] at chars
  have word : polarity = other := by
    cases polarity <;> cases other <;> first | rfl | cases chars
  subst word
  have back := List.append_cancel_left chars
  exact ⟨rfl, String.toList_inj.1 (List.append_cancel_right back)⟩

theorem Leaf.ne_header {text : String} (leaf : Leaf text) (polarity : Polarity) (cond : String) :
    text ≠ header polarity cond := by
  rintro rfl
  exact leaf.unconditional polarity (toList_header polarity cond ▸ List.prefix_append _ _)

theorem header_ne_else (polarity : Polarity) (cond : String) : header polarity cond ≠ "else:" := by
  intro same
  have chars := congrArg String.toList same
  rw [toList_header] at chars
  cases polarity <;> cases chars

mutual

theorem plain_of_mem_rows {outline : Outline} (tidy : outline.Tidy) (depth : Nat) :
    ∀ row ∈ outline.rows depth, Plain row.text := by
  cases outline with
  | line text =>
    intro row mem
    cases List.mem_singleton.1 mem
    exact tidy.toPlain
  | branch polarity cond thenBranch elseBranch =>
    obtain ⟨plain, inner, last⟩ := tidy
    intro row mem
    obtain mem | mem := List.mem_append.1 mem
    · obtain rfl | mem := List.mem_cons.1 mem
      · exact plain_header polarity plain
      · exact plain_of_mem_rowsOf inner (depth + 1) row mem
    · exact plain_of_mem_elseRows last depth row mem

theorem plain_of_mem_rowsOf {list : List Outline} (tidy : TidyAll list) (depth : Nat) :
    ∀ row ∈ rowsOf depth list, Plain row.text := by
  cases list with
  | nil =>
    intro row mem
    cases mem
  | cons outline rest =>
    obtain ⟨first, rest⟩ := tidy
    intro row mem
    obtain mem | mem := List.mem_append.1 mem
    · exact plain_of_mem_rows first depth row mem
    · exact plain_of_mem_rowsOf rest depth row mem

theorem plain_of_mem_elseRows {elseBranch : Option (List Outline)} (tidy : TidyElse elseBranch) (depth : Nat) :
    ∀ row ∈ elseRows depth elseBranch, Plain row.text := by
  cases elseBranch with
  | none =>
    intro row mem
    cases mem
  | some body =>
    intro row mem
    obtain rfl | mem := List.mem_cons.1 mem
    · exact plain_else
    · exact plain_of_mem_rowsOf tidy (depth + 1) row mem

end

/-! What stands behind a block -/

/-- Rows that leave the block of a depth. -/
def Dedents (depth : Nat) (rows : List Row) : Prop :=
  ∀ row ∈ rows.head?, row.depth < depth

/-- Rows that leave a block or go on with an instruction of its depth. -/
def Resumes (depth : Nat) (rows : List Row) : Prop :=
  ∀ row ∈ rows.head?, row.depth < depth ∨ row.depth = depth ∧ row.text ≠ "else:"

theorem dedents_nil (depth : Nat) : Dedents depth [] := by
  intro row head
  cases head

theorem exists_rows_cons {outline : Outline} (tidy : outline.Tidy) (depth : Nat) :
    ∃ text rows, outline.rows depth = ⟨depth, text⟩ :: rows ∧ text ≠ "else:" := by
  cases outline with
  | line text => exact ⟨text, [], rfl, tidy.other⟩
  | branch polarity cond thenBranch elseBranch => exact ⟨_, _, rfl, header_ne_else polarity cond⟩

theorem Dedents.resumes {depth : Nat} {rows : List Row} (dedents : Dedents depth rows) : Resumes depth rows :=
  fun row head => .inl (dedents row head)

theorem resumes_rowsOf {depth : Nat} {list : List Outline} {rows : List Row} (tidy : TidyAll list)
    (dedents : Dedents depth rows) : Resumes depth (rowsOf depth list ++ rows) := by
  cases list with
  | nil => exact dedents.resumes
  | cons outline rest =>
    obtain ⟨text, more, eq, other⟩ := exists_rows_cons tidy.1 depth
    rw [rowsOf, eq]
    intro row head
    cases head
    exact .inr ⟨rfl, other⟩

theorem Resumes.dedents_elseRows {depth : Nat} {rows : List Row} (resumes : Resumes depth rows)
    (elseBranch : Option (List Outline)) : Dedents (depth + 1) (elseRows depth elseBranch ++ rows) := by
  intro row head
  cases elseBranch with
  | none =>
    obtain less | ⟨same, -⟩ := resumes row head <;> omega
  | some body =>
    cases head
    exact Nat.lt_succ_self depth

theorem Resumes.ne_else {depth : Nat} {rows : List Row} (resumes : Resumes depth rows) (more : List Row) :
    rows ≠ ⟨depth, "else:"⟩ :: more := by
  rintro rfl
  obtain less | ⟨-, other⟩ := resumes _ rfl
  · exact Nat.lt_irrefl depth less
  · exact other rfl

theorem Dedents.ne_rowsOf {depth : Nat} {rows more : List Row} (dedents : Dedents depth rows) {outline : Outline}
    (tidy : outline.Tidy) (rest : List Outline) : rows ≠ rowsOf depth (outline :: rest) ++ more := by
  obtain ⟨text, others, eq, -⟩ := exists_rows_cons tidy depth
  rw [rowsOf, eq]
  rintro rfl
  exact Nat.lt_irrefl depth (dedents _ rfl)

/-! Reading blocks back -/

mutual

theorem rows_append_inj {outline other : Outline} {depth : Nat} {rows more : List Row} (tidy : outline.Tidy)
    (tidy' : other.Tidy) (resumes : Resumes depth rows) (resumes' : Resumes depth more)
    (same : outline.rows depth ++ rows = other.rows depth ++ more) : outline = other ∧ rows = more := by
  cases outline with
  | line text =>
    cases other with
    | line text' =>
      cases same
      exact ⟨rfl, rfl⟩
    | branch polarity cond thenBranch elseBranch =>
      cases (List.cons.inj same).1
      exact absurd rfl (tidy.ne_header polarity cond)
  | branch polarity cond thenBranch elseBranch =>
    cases other with
    | line text =>
      cases (List.cons.inj same).1
      exact absurd rfl (tidy'.ne_header polarity cond)
    | branch polarity' cond' thenBranch' elseBranch' =>
      obtain ⟨-, inner, last⟩ := tidy
      obtain ⟨-, inner', last'⟩ := tidy'
      rw [Outline.rows, Outline.rows, List.append_assoc, List.append_assoc] at same
      obtain ⟨first, body⟩ := List.cons.inj same
      obtain ⟨rfl, rfl⟩ := header_inj (Row.mk.inj first).2
      obtain ⟨rfl, behind⟩ := rowsOf_append_inj inner inner' (resumes.dedents_elseRows elseBranch)
        (resumes'.dedents_elseRows elseBranch') body
      obtain ⟨rfl, rfl⟩ := elseRows_append_inj last last' resumes resumes' behind
      exact ⟨rfl, rfl⟩

theorem rowsOf_append_inj {list others : List Outline} {depth : Nat} {rows more : List Row} (tidy : TidyAll list)
    (tidy' : TidyAll others) (dedents : Dedents depth rows) (dedents' : Dedents depth more)
    (same : rowsOf depth list ++ rows = rowsOf depth others ++ more) : list = others ∧ rows = more := by
  cases list with
  | nil =>
    cases others with
    | nil => exact ⟨rfl, same⟩
    | cons other rest => exact absurd same (dedents.ne_rowsOf tidy'.1 rest)
  | cons outline rest =>
    cases others with
    | nil => exact absurd same.symm (dedents'.ne_rowsOf tidy.1 rest)
    | cons other rest' =>
      rw [rowsOf, rowsOf, List.append_assoc, List.append_assoc] at same
      obtain ⟨rfl, behind⟩ := rows_append_inj tidy.1 tidy'.1 (resumes_rowsOf tidy.2 dedents)
        (resumes_rowsOf tidy'.2 dedents') same
      obtain ⟨rfl, rfl⟩ := rowsOf_append_inj tidy.2 tidy'.2 dedents dedents' behind
      exact ⟨rfl, rfl⟩

theorem elseRows_append_inj {elseBranch other : Option (List Outline)} {depth : Nat} {rows more : List Row}
    (tidy : TidyElse elseBranch) (tidy' : TidyElse other) (resumes : Resumes depth rows) (resumes' : Resumes depth more)
    (same : elseRows depth elseBranch ++ rows = elseRows depth other ++ more) : elseBranch = other ∧ rows = more := by
  cases elseBranch with
  | none =>
    cases other with
    | none => exact ⟨rfl, same⟩
    | some body => exact absurd same (resumes.ne_else _)
  | some body =>
    cases other with
    | none => exact absurd same.symm (resumes'.ne_else _)
    | some body' =>
      obtain ⟨rfl, rfl⟩ := rowsOf_append_inj tidy tidy' (resumes.dedents_elseRows none)
        (resumes'.dedents_elseRows none) (List.cons.inj same).2
      exact ⟨rfl, rfl⟩

end

/-- Where each command, condition and expression has a text of its own on one line, the text of a list gives its blocks:
which instructions stand at each level, the conditions and which of them have an else, and all texts. -/
theorem instructions_eq_iff_outlines_eq {list other : List Instruction} (tidy : TidyAll (outlines list))
    (tidy' : TidyAll (outlines other)) (depth : Nat) :
    instructions list depth = instructions other depth ↔ outlines list = outlines other := by
  rw [instructions, instructions, lines_eq, lines_eq]
  refine ⟨fun same => ?_, fun same => by rw [same]⟩
  have rows := Row.lines_inj (plain_of_mem_rowsOf tidy depth) (plain_of_mem_rowsOf tidy' depth) same
  have ended : rowsOf depth (outlines list) ++ [] = rowsOf depth (outlines other) ++ [] := by rw [rows]
  exact (rowsOf_append_inj tidy tidy' (dedents_nil depth) (dedents_nil depth) ended).1

/-- An empty else of an inner condition is told from that of the outer one. -/
theorem instructions_eq_iff_outlines_eq_else :
    let body : List Instruction := [.expression (.var "c")]
    let inner : List Instruction :=
      [.conditional .positive (.var "a") [.conditional .negative (.var "b") body (some [])] none]
    let outer : List Instruction :=
      [.conditional .positive (.var "a") [.conditional .negative (.var "b") body none] (some [])]
    TidyAll (outlines inner) ∧ TidyAll (outlines outer) ∧ instructions inner 2 ≠ instructions outer 2 := by
  intro body inner outer
  have a : Plain "a" := ⟨by decide, by decide, by decide⟩
  have b : Plain "b" := ⟨by decide, by decide, by decide⟩
  have c : Leaf "c" := ⟨⟨by decide, by decide, by decide⟩, fun polarity => by cases polarity <;> decide, by decide⟩
  have leaf : TidyAll (outlines body) := ⟨c, trivial⟩
  have tidy : TidyAll (outlines inner) := ⟨⟨a, ⟨⟨b, leaf, trivial⟩, trivial⟩, trivial⟩, trivial⟩
  have tidy' : TidyAll (outlines outer) := ⟨⟨a, ⟨⟨b, leaf, trivial⟩, trivial⟩, trivial⟩, trivial⟩
  refine ⟨tidy, tidy', fun same => ?_⟩
  cases (instructions_eq_iff_outlines_eq tidy tidy' 2).1 same

end Formulary.Layout

import Formulary.Proofs.Token.Enclosed
import Formulary.Proofs.Token.LiteralText
import Mathlib.Data.List.DropRight

/-!
How heredocs are written: their openers, and the lines of their bodies behind the line of the openers. Where the margin
of the lines goes, nothing that is read hangs on how far to the right a body stands.
-/

namespace Formulary.Heredoc

open Seam

def Margin.sign : Margin → List Char
  | .flush => []
  | .indented => ['-']
  | .trimmed => ['~']

/-- An opener as it is written. Without a margin sign and quotes its name begins with a capital. -/
structure Mark where
  margin : Margin
  quote : Option Char
  name : List Char
  quotes : quote = none ∨ quote = some '"' ∨ quote = some '\''
  begins : name.head?.any isNameStart = true
  parts : ∀ c ∈ name, isNamePart c = true
  bare : quote = none → margin = .flush → name.head?.any Char.isUpper = true

namespace Mark

variable (mark : Mark)

def spelling : List Char :=
  '<' :: '<' :: mark.margin.sign ++ mark.quote.toList ++ mark.name ++ mark.quote.toList

def opener : Opener :=
  ⟨String.ofList mark.name, mark.margin, mark.quote ≠ some '\''⟩

theorem exists_name : ∃ first others, mark.name = first :: others ∧ isNameStart first = true := by
  obtain ⟨first, head, starts⟩ := (Option.any_eq_true ..).1 mark.begins
  obtain ⟨others, eq⟩ := List.head?_eq_some_iff.1 head
  exact ⟨first, others, eq, starts⟩

theorem readMargin_sign (margin : Margin) {rest : List Char} (plain : ∀ c ∈ rest.head?, c ≠ '~' ∧ c ≠ '-') :
    readMargin (margin.sign ++ rest) = (margin, rest) := by
  cases margin with
  | indented | trimmed => rfl
  | flush =>
    cases rest with
    | nil => rfl
    | cons c more =>
      obtain ⟨tilde, minus⟩ := plain c rfl
      simp [readMargin, Margin.sign, tilde, minus]

theorem readQuote_toList {rest : List Char} (plain : ∀ c ∈ rest.head?, c ≠ '"' ∧ c ≠ '\'') :
    readQuote (mark.quote.toList ++ rest) = (mark.quote, rest) := by
  obtain quote | quote | quote := mark.quotes <;> rw [quote]
  · cases rest with
    | nil => rfl
    | cons c more =>
      obtain ⟨double, single⟩ := plain c rfl
      simp [readQuote, double, single]
  · rfl
  · rfl

theorem takeWhile_name {rest : List Char} (ends : rest.head?.any isNamePart = false) :
    (mark.name ++ (mark.quote.toList ++ rest)).takeWhile isNamePart = mark.name := by
  have stops : ((mark.quote.toList ++ rest).takeWhile isNamePart) = [] := by
    obtain quote | quote | quote := mark.quotes <;> rw [quote]
    · cases rest with
      | nil => rfl
      | cons c more => exact List.takeWhile_cons_of_neg (by simpa using ends)
    · rfl
    · rfl
  rw [List.takeWhile_append_of_pos mark.parts, stops, List.append_nil]

theorem inline_spelling : '\n' ∉ mark.spelling := by
  have name : '\n' ∉ mark.name := fun among => absurd (mark.parts _ among) (by decide)
  have sign (margin : Margin) : '\n' ∉ margin.sign := by cases margin <;> decide
  have quote : '\n' ∉ mark.quote.toList := by
    obtain quote | quote | quote := mark.quotes <;> rw [quote] <;> decide
  simp [spelling, name, sign, quote]

/-- An opener is read as it is written, if its name ends there. -/
theorem readOpener_spelling {rest : List Char} (ends : rest.head?.any isNamePart = false) :
    readOpener (mark.spelling ++ rest) = some (mark.opener, rest) := by
  obtain ⟨first, others, name, starts⟩ := mark.exists_name
  have plain : first ≠ '"' ∧ first ≠ '\'' ∧ first ≠ '~' ∧ first ≠ '-' := by
    refine ⟨?_, ?_, ?_, ?_⟩ <;> rintro rfl <;> exact absurd starts (by decide)
  have front : (mark.name ++ (mark.quote.toList ++ rest)).head? = some first := by rw [name]; rfl
  have quote : readQuote (mark.quote.toList ++ (mark.name ++ (mark.quote.toList ++ rest))) = _ :=
    mark.readQuote_toList fun c head => Option.some.inj (front.symm.trans head) ▸ ⟨plain.1, plain.2.1⟩
  have second : ∀ c ∈ (mark.quote.toList ++ (mark.name ++ (mark.quote.toList ++ rest))).head?, c ≠ '~' ∧ c ≠ '-' := by
    obtain quoted | quoted | quoted := mark.quotes <;> rw [quoted] at front ⊢
    · exact fun c head => Option.some.inj (front.symm.trans head) ▸ plain.2.2
    · exact fun c head => Option.some.inj head ▸ by decide
    · exact fun c head => Option.some.inj head ▸ by decide
  have margin := readMargin_sign mark.margin second
  have taken := mark.takeWhile_name ends
  have spelled : mark.spelling ++ rest =
      '<' :: '<' :: (mark.margin.sign ++ (mark.quote.toList ++ (mark.name ++ (mark.quote.toList ++ rest)))) := by
    simp [spelling]
  rw [spelled, readOpener]
  simp only [margin, quote, front, Option.any_some, starts, if_true, taken, List.drop_left]
  rw [name]
  dsimp only
  cases quoted : mark.quote with
  | none =>
    have opens : mark.margin ≠ .flush ∨ first.isUpper = true := by
      have bare := mark.bare quoted
      rw [name] at bare
      exact Decidable.not_or_of_imp bare
    simp [opener, name, quoted, opens]
  | some q => simp [opener, name, quoted]

end Mark

/-- A heredoc with its body. Only the closing line ends the body. -/
structure Document extends Mark where
  lines : List (List Char)
  closing : List Char
  inner : ∀ line ∈ lines, '\n' ∉ line ∧ toMark.opener.closedBy line = false
  closes : '\n' ∉ closing ∧ toMark.opener.closedBy closing = true

namespace Document

variable (document : Document)

/-- The lines of the body, each with its newline. -/
def bodyLines : List (List Char) :=
  document.lines.map (· ++ ['\n'])

/-- What stands behind the line of the opener. -/
def text : List Char :=
  document.bodyLines.flatten ++ document.closing ++ ['\n']

theorem count_text : document.text.count '\n' = document.lines.length + 1 := by
  have lines : ∀ lines ⊆ document.lines, (lines.map (· ++ ['\n'])).flatten.count '\n' = lines.length := by
    intro lines among
    induction lines with
    | nil => rfl
    | cons line more ih =>
      obtain ⟨first, others⟩ := List.cons_subset.1 among
      have inline : line.count '\n' = 0 := List.count_eq_zero.2 (document.inner line first).1
      simp [ih others, inline]
  have closing : document.closing.count '\n' = 0 := List.count_eq_zero.2 document.closes.1
  rw [text, bodyLines, List.count_append, List.count_append, lines _ (List.Subset.refl _), closing]
  rfl

end Document

/-- How many lines these heredocs take behind the line of their openers. -/
def linesTaken : List Document → Nat
  | [] => 0
  | document :: more => document.lines.length + 1 + linesTaken more

theorem count_texts (documents : List Document) :
    (documents.flatMap Document.text).count '\n' = linesTaken documents := by
  induction documents with
  | nil => rfl
  | cons document more ih => rw [List.flatMap_cons, List.count_append, document.count_text, ih, linesTaken]

theorem exists_lined (documents : List Document) :
    ∃ before, '\n' :: documents.flatMap Document.text = before ++ ['\n'] := by
  obtain rfl | ⟨others, document, rfl⟩ := documents.eq_nil_or_concat
  · exact ⟨[], rfl⟩
  · exact ⟨'\n' :: (others.flatMap Document.text ++ (document.bodyLines.flatten ++ document.closing)), by
      simp [Document.text]⟩

variable {opener : Opener}

theorem takeBody_line {line : List Char} (inline : '\n' ∉ line) (read rest : List Char) :
    takeBody opener read (line ++ '\n' :: rest) =
      if opener.closedBy (read.reverse ++ line) then some ([], rest)
      else (takeBody opener [] rest).map fun (lines, after) => ((read.reverse ++ line ++ ['\n']) :: lines, after) := by
  induction line generalizing read with
  | nil => simp [takeBody]
  | cons c more ih =>
    obtain ⟨first, others⟩ : '\n' ≠ c ∧ '\n' ∉ more := by simpa using inline
    rw [List.cons_append, takeBody, if_neg (Ne.symm first), ih others]
    simp

/-- A line that does not end the body. -/
def Opener.Keeps (opener : Opener) (line : List Char) : Prop :=
  ∃ content, '\n' ∉ content ∧ opener.closedBy content = false ∧ line = content ++ ['\n']

/-- A body takes the lines that do not end it. -/
theorem takeBody_keeps {lines : List (List Char)} (keeps : ∀ line ∈ lines, opener.Keeps line) (below : List Char) :
    takeBody opener [] (lines.flatten ++ below) =
      (takeBody opener [] below).map fun (more, after) => (lines ++ more, after) := by
  induction lines with
  | nil => simp
  | cons line more ih =>
    obtain ⟨⟨content, inline, goesOn, rfl⟩, others⟩ := List.forall_mem_cons.1 keeps
    have front : ((content ++ ['\n']) :: more).flatten ++ below = content ++ '\n' :: (more.flatten ++ below) := by simp
    rw [front, takeBody_line inline, List.reverse_nil, List.nil_append, goesOn, if_neg Bool.false_ne_true, ih others,
      Option.map_map]
    rfl

/-- The lines up to the one that closes the body are its lines. -/
theorem takeBody_lines {lines : List (List Char)} {closing : List Char}
    (inner : ∀ line ∈ lines, '\n' ∉ line ∧ opener.closedBy line = false)
    (closes : '\n' ∉ closing ∧ opener.closedBy closing = true) (rest : List Char) :
    takeBody opener [] ((lines.map (· ++ ['\n'])).flatten ++ closing ++ ['\n'] ++ rest) =
      some (lines.map (· ++ ['\n']), rest) := by
  have keeps : ∀ line ∈ lines.map (· ++ ['\n']), opener.Keeps line := by
    intro line among
    obtain ⟨content, within, rfl⟩ := List.mem_map.1 among
    exact ⟨content, (inner content within).1, (inner content within).2, rfl⟩
  have ends : takeBody opener [] (closing ++ '\n' :: rest) = some ([], rest) := by simp [takeBody_line closes.1, closes.2]
  have behind := takeBody_keeps keeps (closing ++ '\n' :: rest)
  rw [ends] at behind
  simpa using behind

theorem takeBody_text (document : Document) (rest : List Char) :
    takeBody document.opener [] (document.text ++ rest) = some (document.bodyLines, rest) :=
  takeBody_lines document.inner document.closes rest

/-! The line that closes a body -/

theorem dropTrailing_eq_rdropWhile (c : Char) (line : List Char) : dropTrailing c line = line.rdropWhile (· = c) := rfl

theorem eq_dropTrailing_append (c : Char) (line : List Char) :
    ∃ n, line = dropTrailing c line ++ List.replicate n c := by
  have trailing : ∀ d ∈ line.rtakeWhile (· = c), d = c := fun d among => by
    simpa using List.mem_rtakeWhile_imp among
  refine ⟨(line.rtakeWhile (· = c)).length, ?_⟩
  rw [← List.eq_replicate_of_mem trailing, dropTrailing_eq_rdropWhile, List.rdropWhile_append_rtakeWhile]

theorem dropTrailing_append {c : Char} {line : List Char} (other : c ∉ line) (n : Nat) :
    dropTrailing c (line ++ List.replicate n c) = line := by
  rw [dropTrailing_eq_rdropWhile]
  induction n with
  | zero =>
    rw [List.replicate_zero, List.append_nil, List.rdropWhile_eq_self_iff]
    intro filled last
    exact other ((of_decide_eq_true last) ▸ List.getLast_mem filled)
  | succ n ih => rw [List.replicate_succ', ← List.append_assoc, List.rdropWhile_concat_pos _ _ _ (by simp), ih]

/-- Without a margin sign the name alone closes the body. Carriage returns at the end of its line do not count. -/
theorem Mark.closedBy_iff (mark : Mark) (flush : mark.margin = .flush) {line : List Char} :
    mark.opener.closedBy line = true ↔ ∃ n, line = mark.name ++ List.replicate n '\r' := by
  have named : mark.opener.closedBy line = decide (dropTrailing '\r' line = mark.name) := by
    simp [Opener.closedBy, opener, flush]
  rw [named, decide_eq_true_iff]
  constructor
  · rintro eq
    exact eq ▸ eq_dropTrailing_append '\r' line
  · rintro ⟨n, rfl⟩
    exact dropTrailing_append (fun among => absurd (mark.parts _ among) (by decide)) n

/-! Bodies moved to the right. The line that ends one may move as well if its opener has a margin sign. -/

section Indented

variable {margin line inner outer below after : List Char} {lines indented : List (List Char)} {width : Nat}

theorem dropTrailing_margin (marginal : margin.all isMargin = true) (line : List Char) :
    dropTrailing '\r' (margin ++ line) = margin ++ dropTrailing '\r' line := by
  simp only [dropTrailing_eq_rdropWhile]
  -- From the end of the line, where the carriage returns go; none stands in the margin.
  induction line using List.reverseRecOn with
  | nil =>
    rw [List.append_nil, List.rdropWhile_nil, List.append_nil, List.rdropWhile_eq_self_iff]
    intro filled last
    have inner := List.all_eq_true.1 marginal _ (List.getLast_mem filled)
    rw [of_decide_eq_true last] at inner
    exact absurd inner (by decide)
  | append_singleton front c ih =>
    rw [← List.append_assoc, List.rdropWhile_concat, List.rdropWhile_concat]
    split
    · exact ih
    · exact List.append_assoc ..

theorem strip_margin (marginal : margin.all isMargin = true) (line : List Char) :
    Text.strip (margin ++ line) = Text.strip line := by
  rw [Text.strip, Text.trim, List.dropWhile_append_of_pos fun c among =>
    isBlank_of_isMargin (List.all_eq_true.1 marginal c among)]
  rfl

/-- With a margin sign the line that ends a body may stand anywhere. -/
theorem closedBy_margin (signed : opener.margin ≠ .flush) (marginal : margin.all isMargin = true) (line : List Char) :
    opener.closedBy (margin ++ line) = opener.closedBy line := by
  simp only [Opener.closedBy, if_neg signed, dropTrailing_margin marginal, strip_margin marginal]

theorem Opener.Keeps.isLine (keeps : opener.Keeps line) : IsLine line := by
  obtain ⟨content, inline, -, rfl⟩ := keeps
  exact isLine_iff.2 ⟨content, inline, rfl⟩

theorem Opener.Keeps.indents (keeps : opener.Keeps inner) (signed : opener.margin ≠ .flush)
    (h : Indents width inner outer) : opener.Keeps outer := by
  obtain ⟨content, inline, goesOn, rfl⟩ := keeps
  obtain ⟨margin, marginal, rfl, -⟩ := h
  refine ⟨margin ++ content, ?_, (closedBy_margin signed marginal content).trans goesOn, (List.append_assoc ..).symm⟩
  simp [inline, line_notMem_margin marginal]

theorem forall_keeps_of_indents (signed : opener.margin ≠ .flush) (h : List.Forall₂ (Indents width) lines indented)
    (keeps : ∀ line ∈ lines, opener.Keeps line) : ∀ line ∈ indented, opener.Keeps line := by
  induction h with
  | nil => exact keeps
  | cons first _ ih =>
    obtain ⟨here, there⟩ := List.forall_mem_cons.1 keeps
    exact List.forall_mem_cons.2 ⟨here.indents signed first, ih there⟩

theorem keeps_of_takeBody {text read : List Char} (inline : '\n' ∉ read)
    (h : takeBody opener read text = some (lines, after)) : ∀ line ∈ lines, opener.Keeps line := by
  induction text generalizing read lines after with
  | nil =>
    rw [takeBody] at h
    split at h
    · obtain ⟨rfl, -⟩ := Prod.mk.inj (Option.some.inj h)
      exact List.forall_mem_nil _
    · contradiction
  | cons c more ih =>
    rw [takeBody] at h
    split at h
    · split at h
      · obtain ⟨rfl, -⟩ := Prod.mk.inj (Option.some.inj h)
        exact List.forall_mem_nil _
      · rename_i goesOn
        obtain ⟨⟨found, behind⟩, taken, same⟩ := Option.map_eq_some_iff.1 h
        obtain ⟨rfl, -⟩ := Prod.mk.inj same
        exact List.forall_mem_cons.2 ⟨⟨read.reverse, by simpa using inline, by simpa using goesOn, rfl⟩,
          ih List.not_mem_nil taken⟩
    · rename_i other
      exact ih (by simpa [inline] using Ne.symm other) h

theorem takeBody_eq_lines_iff : takeBody opener [] (lines.flatten ++ below) = some (lines, after) ↔
    (∀ line ∈ lines, opener.Keeps line) ∧ takeBody opener [] below = some ([], after) := by
  constructor
  · intro taken
    have keeps := keeps_of_takeBody List.not_mem_nil taken
    rw [takeBody_keeps keeps] at taken
    obtain ⟨⟨more, behind⟩, ends, same⟩ := Option.map_eq_some_iff.1 taken
    obtain ⟨all, rfl⟩ := Prod.mk.inj same
    obtain rfl : more = [] := List.append_right_eq_self.1 all
    exact ⟨keeps, ends⟩
  · rintro ⟨keeps, ends⟩
    rw [takeBody_keeps keeps, ends]
    simp

/-- Lines of a body that are moved to the right are the lines of the body there. -/
theorem takeBody_indented (signed : opener.margin ≠ .flush) (h : List.Forall₂ (Indents width) lines indented)
    (taken : takeBody opener [] (lines.flatten ++ below) = some (lines, after)) :
    takeBody opener [] (indented.flatten ++ below) = some (indented, after) := by
  obtain ⟨keeps, ends⟩ := takeBody_eq_lines_iff.1 taken
  exact takeBody_eq_lines_iff.2 ⟨forall_keeps_of_indents signed h keeps, ends⟩

theorem count_indented (h : List.Forall₂ (Indents width) lines indented) :
    indented.flatten.count '\n' = lines.flatten.count '\n' := by
  induction h with
  | nil => rfl
  | cons first _ ih =>
    obtain ⟨margin, marginal, rfl, -⟩ := first
    have inline := List.count_eq_zero.2 (line_notMem_margin marginal)
    simp [ih, inline]

end Indented

end Formulary.Heredoc

namespace Formulary

namespace Cursor

variable {cursor : Cursor} {text mid rest : List Char}

theorem moveTo_eq_skip (front : cursor.rest = text ++ rest) : cursor.moveTo rest = cursor.skip text.length := by
  rw [moveTo, front, List.length_append, Nat.add_sub_cancel]

theorem pos_moveTo (front : cursor.rest = text ++ rest) : (cursor.moveTo rest).pos = cursor.pos.past text := by
  rw [moveTo_eq_skip front, pos_skip_past, front, List.take_left]

theorem moveTo_moveTo (front : cursor.rest = text ++ mid ++ rest) :
    (cursor.moveTo (mid ++ rest)).moveTo rest = cursor.moveTo rest := by
  have behind : (cursor.moveTo (mid ++ rest)).rest = mid ++ rest :=
    Scan.rest_moveTo (front ▸ List.append_assoc .. ▸ List.suffix_append _ _)
  rw [moveTo_eq_skip behind, moveTo_eq_skip front, moveTo_eq_skip ((List.append_assoc ..).symm.trans front.symm).symm,
    ← Scan.skip_add, List.length_append]

/-- Behind a text that ends with a newline a line begins. -/
theorem moveTo_line (front : cursor.rest = text ++ ['\n'] ++ rest) :
    cursor.moveTo rest = ⟨rest, ⟨cursor.pos.line + (text ++ ['\n']).count '\n', 1⟩, true⟩ := by
  have front' : cursor.rest = text ++ ('\n' :: rest) := by rw [front, List.append_assoc]; rfl
  have last : (cursor.skip text.length).rest = '\n' :: rest := by rw [Scan.rest_skip, front', List.drop_left]
  have moved : cursor.moveTo rest = (cursor.skip text.length).next := by
    rw [moveTo_eq_skip front, List.length_append, Scan.skip_add]
    rfl
  have place : (cursor.skip text.length).pos = cursor.pos.past text := by
    rw [pos_skip_past, front', List.take_left]
  rw [moved]
  generalize cursor.skip text.length = before at last place
  obtain ⟨_, pos, fresh⟩ := before
  subst last
  have down : pos.line = cursor.pos.line + text.count '\n' := by
    rw [← Position.line_past]
    exact congrArg Position.line place
  simp [next, Position.after, down, Nat.add_assoc]

end Cursor

namespace Scan

open Body Heredoc

variable {code : Reader} {state : State} {cursor : Cursor} {rest : List Char}

/-- Where an operand can stand an opener is one. -/
theorem step_opener (mark : Mark) (front : state.cursor.rest = mark.spelling ++ rest)
    (operand : operandExpected state = true) (ends : rest.head?.any isNamePart = false) :
    Step code state ⟨[⟨.string [], state.cursor.pos, state.spaced⟩], [],
      { state.taken (.string []) rest with pending := state.pending ++ [(mark.opener, state.cursor.pos)] }⟩ := by
  have opens : heredoc? state = some (mark.opener, rest) := by
    rw [heredoc?, if_pos operand, front, mark.readOpener_spelling ends]
  obtain ⟨more, less⟩ : ∃ more, state.cursor.rest = '<' :: more := ⟨_, front⟩
  exact .token less (atCode_of_head less (by decide) (by decide)) (by decide) (by simp) (by decide) (by decide)
    (token_of_heredoc opens)

/-- The bodies of several heredocs stand one behind the other, in the order of their openers. -/
theorem readBodies_documents {documents : List Document} {body : Document → Segments}
    {pending : List (Opener × Position)} (openers : pending.map Prod.fst = documents.map (·.opener))
    (read : ∀ document ∈ documents, ∀ pos, Literal.segments code document.opener.embeds none pos
      (document.opener.bodyText document.bodyLines) = .ok (body document))
    (front : cursor.rest = documents.flatMap Document.text ++ rest) :
    readBodies code cursor pending = .ok (documents.map body, cursor.moveTo rest) := by
  induction documents generalizing pending cursor with
  | nil =>
    obtain rfl : pending = [] := by simpa using openers
    have here : cursor.moveTo rest = cursor := Cursor.moveTo_eq_skip front
    rw [here]
    rfl
  | cons document more ih =>
    obtain ⟨⟨opener, pos⟩, others, rfl⟩ : ∃ first others, pending = first :: others :=
      List.exists_cons_of_ne_nil (by rintro rfl; simp at openers)
    obtain ⟨rfl, openers'⟩ : opener = document.opener ∧ others.map Prod.fst = more.map (·.opener) := by
      simpa using openers
    obtain ⟨here, there⟩ := List.forall_mem_cons.1 read
    rw [List.flatMap_cons] at front
    have front' : cursor.rest = document.text ++ (more.flatMap Document.text ++ rest) := by rw [front, List.append_assoc]
    have behind : (cursor.moveTo (more.flatMap Document.text ++ rest)).rest = more.flatMap Document.text ++ rest :=
      rest_moveTo (front' ▸ List.suffix_append _ _)
    have later := ih openers' there behind
    rw [Cursor.moveTo_moveTo front] at later
    refine readBodies_cons_iff.2 ⟨_, _, _, _, ?_, here _, later, rfl⟩
    rw [front']
    exact takeBody_text document _

/-- The line of the openers ends with their bodies behind it, and the scan goes on at the start of a line. -/
theorem step_bodies {documents : List Document} {body : Document → Segments}
    (front : state.cursor.rest = '\n' :: (documents.flatMap Document.text ++ rest))
    (openers : state.pending.map Prod.fst = documents.map (·.opener))
    (read : ∀ document ∈ documents, ∀ pos, Literal.segments code document.opener.embeds none pos
      (document.opener.bodyText document.bodyLines) = .ok (body document))
    (undotted : Gap.continuesWithDot rest = false) (ends : state.last.any (!·.isSeparator) = true) :
    Step code state ⟨[⟨.newline, state.cursor.pos, false⟩], documents.map body,
      ⟨⟨rest, ⟨state.cursor.pos.line + 1 + linesTaken documents, 1⟩, true⟩, true, some .newline, []⟩⟩ := by
  have next : state.cursor.next.rest = documents.flatMap Document.text ++ rest := by rw [rest_next, front]; rfl
  obtain ⟨before, lined⟩ := exists_lined documents
  have moved : state.cursor.next.moveTo rest =
      ⟨rest, ⟨state.cursor.pos.line + 1 + linesTaken documents, 1⟩, true⟩ := by
    have here : state.cursor.next.moveTo rest = state.cursor.moveTo rest := by
      have there : state.cursor.moveTo rest = state.cursor.skip ('\n' :: documents.flatMap Document.text).length :=
        Cursor.moveTo_eq_skip front
      rw [Cursor.moveTo_eq_skip next, there]
      rfl
    have front' : state.cursor.rest = before ++ ['\n'] ++ rest := by rw [front, ← lined]; rfl
    have line := Cursor.moveTo_line front'
    rw [here, line, ← lined, List.count_cons_self, count_texts, Nat.add_assoc, Nat.add_comm 1]
  have bodies := readBodies_documents openers read next
  rw [moved] at bodies
  refine .newline front (atCode_of_head front (by decide) (by decide)) ?_
  rw [newline_eq_ok bodies]
  simp [undotted, ends]

/-- A heredoc that stands alone. -/
theorem tokenize_document (document : Document) {body : Segments}
    (read : ∀ code pos, Literal.segments code document.opener.embeds none pos
      (document.opener.bodyText document.bodyLines) = .ok body) :
    tokenize (document.spelling ++ '\n' :: document.text) .origin = .ok
      [⟨.string body, .origin, true⟩, ⟨.newline, ⟨1, document.spelling.length + 1⟩, false⟩,
        ⟨.endOfText, ⟨document.lines.length + 3, 1⟩, true⟩] := by
  generalize source : document.spelling ++ '\n' :: document.text = text
  let opened := (State.ofText text .origin).taken (.string []) ('\n' :: document.text)
  let waiting := { opened with pending := [(document.opener, Position.origin)] }
  have opens := @step_opener (tokensWithin text.length) (.ofText text .origin) _ document.toMark source.symm rfl rfl
  have front : waiting.cursor.rest = '\n' :: ([document].flatMap Document.text ++ []) := by
    have behind : '\n' :: document.text <:+ (Cursor.ofText text .origin).rest := source ▸ List.suffix_append _ _
    refine (rest_moveTo behind).trans ?_
    simp
  have place : waiting.cursor.pos = ⟨1, document.spelling.length + 1⟩ := by
    refine (Cursor.pos_moveTo source.symm).trans ((Position.past_inline .origin document.inline_spelling).trans ?_)
    rw [Position.right, Nat.add_comm]
    rfl
  have ends := @step_bodies (tokensWithin text.length) waiting _ _ (fun _ => body) front rfl
    (fun other among => List.mem_singleton.1 among ▸ read _) rfl rfl
  have scans := Scans.next opens (.next ends (.done (step_eq_none_iff.2 (.inl rfl)) rfl))
  refine tokensWithin_eq_ok_iff.2 ⟨_, _, scans, ?_⟩
  have last : 1 + 1 + linesTaken [document] = document.lines.length + 3 := by
    simp only [linesTaken]
    omega
  rw [place, last]
  rfl

/-! Bodies moved to the right -/

section Indented

variable {opener : Opener} {lines indented : List (List Char)} {below after : List Char} {width : Nat}

/-- Behind lines a line begins, as many lines below as there are. -/
theorem moveTo_lines (filled : lines ≠ []) (lined : ∀ line ∈ lines, IsLine line) (pos : Position) (fresh : Bool)
    (below : List Char) : (⟨lines.flatten ++ below, pos, fresh⟩ : Cursor).moveTo below =
      ⟨below, ⟨pos.line + lines.flatten.count '\n', 1⟩, true⟩ := by
  obtain ⟨front, last, rfl⟩ := (List.eq_nil_or_concat lines).resolve_left filled
  obtain ⟨content, -, rfl⟩ := isLine_iff.1 (lined last (by simp))
  have text : (front.concat (content ++ ['\n'])).flatten = front.flatten ++ content ++ ['\n'] := by simp
  rw [text]
  exact Cursor.moveTo_line rfl

theorem moveTo_indented (filled : lines ≠ []) (lined : ∀ line ∈ lines, IsLine line)
    (h : List.Forall₂ (Indents width) lines indented) (suffix : after <:+ below) (pos : Position) (fresh : Bool) :
    (⟨indented.flatten ++ below, pos, fresh⟩ : Cursor).moveTo after =
      (⟨lines.flatten ++ below, pos, fresh⟩ : Cursor).moveTo after := by
  have filled' : indented ≠ [] := by
    rintro rfl
    exact filled (List.forall₂_nil_right_iff.1 h)
  have lined' := (forall_isLine_of_indents h).2 lined
  obtain ⟨mid, rfl⟩ := suffix
  have through (text : List Char) : ((⟨text ++ (mid ++ after), pos, fresh⟩ : Cursor).moveTo (mid ++ after)).moveTo after =
      (⟨text ++ (mid ++ after), pos, fresh⟩ : Cursor).moveTo after :=
    Cursor.moveTo_moveTo (List.append_assoc ..).symm
  rw [← through indented.flatten, moveTo_lines filled' lined', count_indented h, ← moveTo_lines filled lined, through]

/-- The newline at the end of a line, whatever follows it. -/
theorem step_line {state : State} {rest : List Char} (front : state.cursor.rest = '\n' :: rest) :
    step code state = (newline code state).map .some := by
  obtain ⟨block, data⟩ := atCode_of_head front (by decide) (by decide)
  rw [atBlockComment, front] at block
  rw [atData, front] at data
  rw [step, front]
  dsimp only
  rw [if_neg (by simp [block]), if_neg (by simp [data])]
  rfl

section Trimmed

variable (trimmed : opener.margin = .trimmed)
  (taken : takeBody opener [] (lines.flatten ++ below) = some (lines, after))
  (some : ∃ line ∈ lines, Text.isBlankText line = false) (h : List.Forall₂ (Indents width) lines indented)
include trimmed taken some h

/-- Wherever the lines of a body stand whose margin goes, the bodies are read alike. -/
theorem readBodies_indented (pos start : Position) (fresh : Bool) (pending : List (Opener × Position)) :
    readBodies code ⟨indented.flatten ++ below, pos, fresh⟩ ((opener, start) :: pending) =
      readBodies code ⟨lines.flatten ++ below, pos, fresh⟩ ((opener, start) :: pending) := by
  have signed : opener.margin ≠ .flush := by simp [trimmed]
  obtain ⟨keeps, ends⟩ := takeBody_eq_lines_iff.1 taken
  have filled : lines ≠ [] := by
    obtain ⟨line, among, -⟩ := some
    exact List.ne_nil_of_mem among
  have behind := moveTo_indented filled (fun line among => (keeps line among).isLine) h (takeBody_suffix ends) pos fresh
  simp only [readBodies, taken, takeBody_indented signed h taken, bodyText_indented trimmed some h, behind]

/-- From the end of its opener's line on, a text with such a body is scanned alike wherever the body stands: to the same
tokens at the same places, or to the same error. -/
theorem run_indented {state : State} {start : Position} {pending : List (Opener × Position)}
    (front : state.cursor.rest = '\n' :: (lines.flatten ++ below)) (waiting : state.pending = (opener, start) :: pending)
    (fuel : Nat) : run code fuel { state with cursor := { state.cursor with rest := '\n' :: (indented.flatten ++ below) } } =
      run code fuel state := by
  obtain ⟨⟨rest, pos, fresh⟩, spaced, last, openers⟩ := state
  subst front waiting
  have bodies : readBodies code ⟨indented.flatten ++ below, pos.after '\n', true⟩ _ = _ :=
    readBodies_indented trimmed taken some h (pos.after '\n') start true pending
  have steps : step code ⟨⟨'\n' :: (indented.flatten ++ below), pos, fresh⟩, spaced, last, (opener, start) :: pending⟩ =
      step code ⟨⟨'\n' :: (lines.flatten ++ below), pos, fresh⟩, spaced, last, (opener, start) :: pending⟩ := by
    rw [step_line rfl, step_line rfl, newline, newline]
    simp only [Cursor.next, decide_true, bodies]
  cases fuel with
  | zero => rfl
  | succ fuel => simp only [run, steps]

end Trimmed

end Indented

end Scan

end Formulary

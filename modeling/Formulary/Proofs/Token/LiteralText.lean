import Formulary.Proofs.Token.Places

/-! Bodies of literals that hold text alone: where they end, and the text that is read from them. -/

namespace Formulary

/-- A text with a backslash before each of its special characters. -/
def escapeChars (special : List Char) (text : List Char) : List Char :=
  text.flatMap fun c => if c ∈ special then ['\\', c] else [c]

theorem escapeChars_cons_of_mem {special : List Char} {c : Char} (h : c ∈ special) (text : List Char) :
    escapeChars special (c :: text) = '\\' :: c :: escapeChars special text := by
  rw [escapeChars, List.flatMap_cons, if_pos h]
  rfl

theorem escapeChars_cons_of_not_mem {special : List Char} {c : Char} (h : c ∉ special) (text : List Char) :
    escapeChars special (c :: text) = c :: escapeChars special text := by
  rw [escapeChars, List.flatMap_cons, if_neg h]
  rfl

/-- In a text every bracket of one kind has its partner. -/
inductive Balanced (opener closer : Char) : List Char → Prop
  | nil : Balanced opener closer []
  | plain {c : Char} {more : List Char} : c ≠ opener → c ≠ closer → Balanced opener closer more →
      Balanced opener closer (c :: more)
  | nested {inner more : List Char} : Balanced opener closer inner → Balanced opener closer more →
      Balanced opener closer (opener :: inner ++ closer :: more)

namespace Literal

open Body Result

theorem opensCode_of_ne {c : Char} (h : c ≠ '#') (rest : List Char) : opensCode c rest = false := by
  simp [opensCode, h]

/-- Where code is opened, its sign and brace stand. -/
theorem infix_of_opensCode {c : Char} {rest : List Char} (h : opensCode c rest = true) :
    ['#', '\x7b'] <:+: c :: rest := by
  obtain ⟨rfl, brace⟩ : c = '#' ∧ rest.head? = some '\x7b' := by simpa [opensCode] using h
  obtain ⟨more, rfl⟩ := List.head?_eq_some_iff.1 brace
  exact (List.prefix_append ['#', '\x7b'] more).isInfix

theorem embeds_opensCode {embeds : Bool} {c : Char} (h : embeds = true → c ≠ '#') (rest : List Char) :
    (embeds && opensCode c rest) = false := by
  cases embeds with
  | false => rfl
  | true => exact opensCode_of_ne (h rfl) rest

section Ends

variable {marks : Delimiters} {special text rest : List Char} {depth : Nat} {pos : Position} {c : Char}

theorem readBody_plain (backslash : c ≠ '\\') (code : (marks.embeds && opensCode c rest) = false)
    (opener : marks.opener ≠ some c) (closer : c ≠ marks.closer) :
    readBody marks 0 depth pos (c :: rest) =
      (readBody marks 0 depth (pos.after c) rest).map fun (body, after) => (c :: body, after) := by
  simp [readBody, backslash, code, opener, closer]

theorem readBody_escape (c : Char) :
    readBody marks 0 depth pos ('\\' :: c :: rest) =
      (readBody marks 0 depth ((pos.after '\\').after c) rest).map fun (body, after) => ('\\' :: c :: body, after) := by
  simp [readBody, map_map]

theorem readBody_closer (backslash : marks.closer ≠ '\\') (hash : marks.closer ≠ '#')
    (opener : marks.opener ≠ some marks.closer) :
    readBody marks 0 0 pos (marks.closer :: rest) = .ok ([], rest) := by
  simp [readBody, backslash, opensCode_of_ne hash, opener]

theorem readBody_opener (backslash : c ≠ '\\') (code : (marks.embeds && opensCode c rest) = false)
    (opener : marks.opener = some c) :
    readBody marks 0 depth pos (c :: rest) =
      (readBody marks 0 (depth + 1) (pos.after c) rest).map fun (body, after) => (c :: body, after) := by
  simp [readBody, backslash, code, opener]

theorem readBody_nestedCloser (backslash : c ≠ '\\') (code : (marks.embeds && opensCode c rest) = false)
    (opener : marks.opener ≠ some c) (closer : c = marks.closer) :
    readBody marks 0 (depth + 1) pos (c :: rest) =
      (readBody marks 0 depth (pos.after c) rest).map fun (body, after) => (c :: body, after) := by
  subst closer
  simp [readBody, backslash, code, opener]

variable (special) in
/-- A text whose delimiters are escaped is the whole body. -/
theorem readBody_escapeChars (opener : marks.opener = none) (closer : marks.closer ≠ '\\' ∧ marks.closer ≠ '#')
    (backslash : '\\' ∈ special) (closes : marks.closer ∈ special) (hash : marks.embeds = true → '#' ∈ special) :
    readBody marks 0 0 pos (escapeChars special text ++ marks.closer :: rest) = .ok (escapeChars special text, rest) := by
  induction text generalizing pos with
  | nil => exact readBody_closer closer.1 closer.2 (by simp [opener])
  | cons c text ih =>
    by_cases escaped : c ∈ special
    · rw [escapeChars_cons_of_mem escaped, List.cons_append, List.cons_append, readBody_escape, ih]
      rfl
    · have other {d : Char} (among : d ∈ special) : c ≠ d := fun eq => escaped (eq ▸ among)
      have code := embeds_opensCode fun embeds => other (hash embeds)
      rw [escapeChars_cons_of_not_mem escaped, List.cons_append,
        readBody_plain (other backslash) (code _) (by simp [opener]) (other closes), ih]
      rfl

/-- Brackets that close one another do not end the body they are in. -/
theorem readBody_balanced {opener closer : Char} (distinct : opener ≠ closer) (balanced : Balanced opener closer text)
    (backslash : '\\' ∉ text) :
    readBody ⟨some opener, closer, false⟩ 0 depth pos (text ++ rest) =
      (readBody ⟨some opener, closer, false⟩ 0 depth (pos.past text) rest).map fun (body, after) =>
        (text ++ body, after) := by
  induction balanced generalizing depth pos rest with
  | nil =>
    rw [List.nil_append]
    exact (congrFun Except.map_id _).symm
  | @plain c more opens closes _ ih =>
    obtain ⟨first, others⟩ : '\\' ≠ c ∧ '\\' ∉ more := by simpa using backslash
    rw [List.cons_append, readBody_plain (Ne.symm first) rfl (by simpa using Ne.symm opens) closes, ih others, map_map]
    rfl
  | @nested inner more _ _ ihInner ihMore =>
    simp only [List.cons_append, List.mem_cons, List.mem_append, not_or] at backslash
    obtain ⟨first, within, last, behind⟩ := backslash
    have past : pos.past (opener :: inner ++ closer :: more) =
        (((pos.after opener).past inner).after closer).past more := Position.past_append (pos.after opener) inner _
    rw [past, List.cons_append, List.cons_append, List.append_assoc, readBody_opener (Ne.symm first) rfl rfl, ihInner within,
      List.cons_append, readBody_nestedCloser (Ne.symm last) rfl (by simpa using distinct) rfl, ihMore behind]
    simp only [map_map, List.cons_append, List.append_assoc]

end Ends

section Text

variable {read : Reader} {embeds : Bool} {closer : Option Char} {special text body : List Char} {pos : Position}

theorem foldr_consText {c : Char} (more : List Char) :
    (c :: more).foldr consText [] = [Segment.text (τ := Token) (String.ofList (c :: more))] := by
  induction more generalizing c with
  | nil => rfl
  | cons d more ih =>
    rw [List.foldr_cons, ih, consText, ← String.ofList_append]
    rfl

/-- A literal of one text alone. An empty text is written out too. -/
theorem segments_of_splitBody (h : splitBody read embeds closer 0 pos body = .ok (text.foldr consText [])) :
    segments read embeds closer pos body = .ok [.text (String.ofList text)] := by
  rw [segments, h]
  cases text with
  | nil => rfl
  | cons c more => rw [foldr_consText]; rfl

theorem splitBody_next {c : Char} {rest : List Char} (backslash : c ≠ '\\')
    (code : (embeds && opensCode c rest) = false) :
    splitBody read embeds closer 0 pos (c :: rest) = (splitBody read embeds closer 0 (pos.after c) rest).map (consText c) := by
  by_cases line : c = '\n'
  · simp [splitBody, line, Position.after]
  · simp [splitBody, line, backslash, code, Position.after, Position.right]

theorem splitBody_escape {c : Char} {rest : List Char} (line : c ≠ '\n') :
    splitBody read embeds closer 0 pos ('\\' :: c :: rest) =
      (splitBody read embeds closer 0 (pos.right 2) rest).map ((unescape embeds closer c).foldr consText ·) := by
  simp [splitBody, line]

/-- A text without escapes and code is read as it stands. -/
theorem splitBody_plain (backslash : '\\' ∉ text) (code : embeds = true → ¬['#', '\x7b'] <:+: text) :
    splitBody read embeds closer 0 pos text = .ok (text.foldr consText []) := by
  induction text generalizing pos with
  | nil => rfl
  | cons c text ih =>
    obtain ⟨first, others⟩ : '\\' ≠ c ∧ '\\' ∉ text := by simpa using backslash
    have inline : (embeds && opensCode c text) = false := by
      rw [Bool.and_eq_false_imp]
      exact fun embeds => Bool.eq_false_iff.2 fun opens => code embeds (infix_of_opensCode opens)
    have later (h : embeds = true) : ¬['#', '\x7b'] <:+: text :=
      fun within => code h (within.trans (List.suffix_cons c text).isInfix)
    rw [splitBody_next (Ne.symm first) inline, ih others later]
    rfl

/-- What the escapes of a text stand for, if they are made before characters that can be escaped. -/
theorem splitBody_escapeChars (skips : ∀ c ∈ special, c ≠ '\n' ∧ unescape embeds closer c = [c])
    (backslash : '\\' ∈ special) (hash : embeds = true → '#' ∈ special) :
    splitBody read embeds closer 0 pos (escapeChars special text) = .ok (text.foldr consText []) := by
  induction text generalizing pos with
  | nil => rfl
  | cons c text ih =>
    by_cases escaped : c ∈ special
    · obtain ⟨line, stands⟩ := skips c escaped
      rw [escapeChars_cons_of_mem escaped, splitBody_escape line, ih, stands]
      rfl
    · have other {d : Char} (among : d ∈ special) : c ≠ d := fun eq => escaped (eq ▸ among)
      have code := embeds_opensCode fun embeds => other (hash embeds)
      rw [escapeChars_cons_of_not_mem escaped, splitBody_next (other backslash) (code _), ih]
      rfl

end Text

end Literal

end Formulary

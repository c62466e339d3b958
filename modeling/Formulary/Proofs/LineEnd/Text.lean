import Formulary.Proofs.Token.Sealed

/-!
A text whose lines end with a carriage return and a newline. What is read off it is what is read off the text itself,
and what is left is the rest with the same line ends.
-/

namespace Formulary

/-- The text with a carriage return before every newline. -/
def crlf (text : List Char) : List Char :=
  text.flatMap fun c => if c = '\n' then ['\r', '\n'] else [c]

namespace LineEnd

open Gap Seam

variable {text more after front : List Char} {c : Char} {α : Type}

theorem crlf_line (text : List Char) : crlf ('\n' :: text) = '\r' :: '\n' :: crlf text := rfl

theorem crlf_cons (inline : c ≠ '\n') (text : List Char) : crlf (c :: text) = c :: crlf text := by
  rw [crlf, List.flatMap_cons, if_neg inline]
  rfl

theorem crlf_append (text more : List Char) : crlf (text ++ more) = crlf text ++ crlf more :=
  List.flatMap_append

theorem crlf_eq_self (inline : '\n' ∉ text) : crlf text = text := by
  induction text with
  | nil => rfl
  | cons c more ih =>
    rw [List.mem_cons, not_or] at inline
    rw [crlf_cons (Ne.symm inline.1), ih inline.2]

theorem crlf_append_of_inline (inline : '\n' ∉ front) (text : List Char) :
    crlf (front ++ text) = front ++ crlf text := by
  rw [crlf_append, crlf_eq_self inline]

theorem head_crlf_ne (text : List Char) : (crlf text).head? ≠ some '\n' := by
  cases text with
  | nil => nofun
  | cons c more =>
    by_cases line : c = '\n'
    · simp [line, crlf_line]
    · simp [crlf_cons line, line]

theorem length_le_crlf (text : List Char) : text.length ≤ (crlf text).length := by
  induction text with
  | nil => exact Nat.le_refl _
  | cons c more ih =>
    by_cases line : c = '\n'
    · subst line
      rw [crlf_line]
      simp only [List.length_cons]
      omega
    · rw [crlf_cons line]
      simpa using ih

theorem drop_crlf {n : Nat} (inline : '\n' ∉ text.take n) : (crlf text).drop n = crlf (text.drop n) := by
  induction n generalizing text with
  | zero => rfl
  | succ n ih =>
    cases text with
    | nil => rfl
    | cons c more =>
      rw [List.take_succ_cons, List.mem_cons, not_or] at inline
      rw [crlf_cons (Ne.symm inline.1), List.drop_succ_cons, List.drop_succ_cons, ih inline.2]

theorem crlf_suffix (suffix : after <:+ text) : crlf after <:+ crlf text := by
  obtain ⟨front, rfl⟩ := suffix
  rw [crlf_append]
  exact List.suffix_append _ _

theorem line_crlf_soft {rest : List Char} (line : Line rest) : Soft (crlf rest) := by
  cases rest with
  | nil => exact soft_nil
  | cons c more =>
    obtain rfl := line c rfl
    intro d head
    obtain rfl : '\r' = d := by simpa [crlf_line] using head
    exact .inl rfl

theorem exists_line (text : List Char) : ∃ front rest, text = front ++ rest ∧ '\n' ∉ front ∧ Line rest := by
  refine ⟨text.takeWhile (· ≠ '\n'), text.dropWhile (· ≠ '\n'), List.takeWhile_append_dropWhile.symm, ?_, ?_⟩
  · intro member
    simpa using List.all_eq_true.1 List.all_takeWhile '\n' member
  · intro c head
    have stops := List.head?_dropWhile_not (fun c : Char => decide (c ≠ '\n')) text
    rw [Option.mem_def.1 head] at stops
    simpa using stops

theorem inline_of_suffix (suffix : after <:+ text) (inline : '\n' ∉ text) : '\n' ∉ after :=
  fun member => inline (suffix.subset member)

/-! What is read within a line -/

theorem read_crlf {f : List Char → α} (append : ∀ {rest}, Soft rest → ∀ text, f (text ++ rest) = f text)
    (text : List Char) : f (crlf text) = f text := by
  obtain ⟨front, rest, rfl, inline, line⟩ := exists_line text
  rw [crlf_append_of_inline inline, append line.soft, append (line_crlf_soft line)]

theorem take_crlf {f : List Char → α × List Char}
    (append : ∀ {rest}, Soft rest → ∀ text, f (text ++ rest) = ((f text).1, (f text).2 ++ rest))
    (suffix : ∀ text, (f text).2 <:+ text) (text : List Char) : f (crlf text) = ((f text).1, crlf (f text).2) := by
  obtain ⟨front, rest, rfl, inline, line⟩ := exists_line text
  rw [crlf_append_of_inline inline, append line.soft, append (line_crlf_soft line),
    crlf_append_of_inline (inline_of_suffix (suffix front) inline)]

theorem take?_crlf {f : List Char → Option (α × List Char)}
    (append : ∀ {rest}, Soft rest → ∀ text,
      f (text ++ rest) = (f text).map fun (value, behind) => (value, behind ++ rest))
    (suffix : ∀ text value after, f text = some (value, after) → after <:+ text) (text : List Char) :
    f (crlf text) = (f text).map fun (value, behind) => (value, crlf behind) := by
  obtain ⟨front, rest, rfl, inline, line⟩ := exists_line text
  rw [crlf_append_of_inline inline, append line.soft, append (line_crlf_soft line), Option.map_map]
  cases found : f front with
  | none => rfl
  | some result =>
    obtain ⟨value, after⟩ := result
    have behind := inline_of_suffix (suffix front value after found) inline
    simp [crlf_append_of_inline behind]

theorem startsWith_crlf (word : String) (solid : isSolid word = true) (text : List Char) :
    startsWith (crlf text) word = startsWith text word :=
  read_crlf (fun soft => Seam.startsWith_append soft word solid) text

theorem takeWhile_crlf {test : Char → Bool} (hard : Hard test) (text : List Char) :
    (crlf text).takeWhile test = text.takeWhile test :=
  read_crlf (fun soft => Seam.takeWhile_append soft hard) text

theorem dropWhile_crlf {test : Char → Bool} (hard : Hard test) (text : List Char) :
    (crlf text).dropWhile test = crlf (text.dropWhile test) := by
  have append {rest : List Char} (soft : Soft rest) (text : List Char) :
      ((), (text ++ rest).dropWhile test) = ((), text.dropWhile test ++ rest) := by
    rw [Seam.dropWhile_append soft hard]
  have taken := take_crlf (f := fun text => ((), text.dropWhile test)) append (fun _ => List.dropWhile_suffix test) text
  exact congrArg Prod.snd taken

theorem head_eq_crlf (inline : c ≠ '\n') (other : c ≠ '\r') : (crlf text).head? = some c ↔ text.head? = some c := by
  cases text with
  | nil => exact Iff.rfl
  | cons d more =>
    by_cases line : d = '\n'
    · subst line
      simp [crlf_line, Ne.symm inline, Ne.symm other]
    · rw [crlf_cons line, List.head?_cons, List.head?_cons]

/-! What stands between tokens -/

theorem atDataMark_crlf (text : List Char) : atDataMark (crlf text) = atDataMark text := by
  unfold atDataMark
  rw [startsWith_crlf "__END__" (by decide)]
  cases marked : startsWith text "__END__" with
  | false => rfl
  | true =>
    obtain ⟨behind, rfl⟩ := List.isPrefixOf_iff_prefix.1 marked
    have past (more : List Char) : ("__END__".toList ++ more).drop 7 = more := rfl
    rw [crlf_append_of_inline (by decide), past, past]
    cases behind with
    | nil => rfl
    | cons c more =>
      by_cases line : c = '\n'
      · subst line
        rfl
      · rw [crlf_cons line]

theorem afterBlockComment_crlf (fresh ending : Bool) (text : List Char) :
    afterBlockComment fresh ending (crlf text) = (afterBlockComment fresh ending text).map crlf := by
  induction text generalizing fresh ending with
  | nil => cases ending <;> rfl
  | cons c more ih =>
    by_cases line : c = '\n'
    · subst line
      have plain (c : Char) (text : List Char) (other : c ≠ '=') : startsWith (c :: text) "=end" = false := by
        simp [startsWith, List.isPrefixOf, Ne.symm other]
      rw [crlf_line]
      simp only [afterBlockComment, plain '\r' _ (by decide), plain '\n' _ (by decide)]
      cases fresh <;> cases ending <;> simp [ih]
    · have same := startsWith_crlf "=end" (by decide) (c :: more)
      rw [crlf_cons line] at same
      rw [crlf_cons line]
      simp only [afterBlockComment, same, if_neg line, ih]

theorem afterLayout_crlf (inComment : Bool) (text : List Char) :
    afterLayout inComment (crlf text) = crlf (afterLayout inComment text) := by
  induction text generalizing inComment with
  | nil => rfl
  | cons c more ih =>
    by_cases line : c = '\n'
    · subst line
      rw [crlf_line]
      cases inComment <;> simp [afterLayout, isSpace, ih]
    · rw [crlf_cons line]
      unfold afterLayout
      split
      · exact ih _
      split
      · exact ih _
      split
      · exact ih _
      · rw [crlf_cons line]

theorem continuesWithDot_crlf (text : List Char) : continuesWithDot (crlf text) = continuesWithDot text := by
  have safe : isSolid "&." = true := by decide
  have dot : isSolid "." = true := by decide
  have range : isSolid ".." = true := by decide
  unfold continuesWithDot
  rw [afterLayout_crlf]
  simp only [startsWith_crlf, safe, dot, range]

end LineEnd

end Formulary

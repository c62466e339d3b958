import Formulary.Proofs.Archive.Stem
import Formulary.Proofs.Text.Split

/-!
The common schemes of archive names: a product and a version, or a version alone, with what may stand behind. What is
behind is cut off and nothing else is, though names and versions have points and digits of their own; then the version
is found behind the last separator.
-/

namespace Formulary.Version

/-! Parts of names -/

/-- What stands in front of the version: a product's name with a separator, or nothing if the archive is of a tag. -/
inductive Front : List Char → Prop
  | tag : Front []
  | product {name : List Char} {separator : Char} (plain : ∀ c ∈ name, Url.IsPlain c)
      (separates : separator = '-' ∨ separator = '_') : Front (name ++ [separator])

/-- A word for the sources behind the version, in any case, or nothing. -/
inductive Suffix : List Char → Prop
  | none : Suffix []
  | known {separator : Char} {word : String} {text : List Char} (separates : separator ∈ ['-', '_', '.'])
      (known : word ∈ sourceSuffixes) (spelled : foldsTo word text = true) : Suffix (separator :: text)

/-- The extension of an archive, in any case, or nothing. -/
inductive Extension : List Char → Prop
  | none : Extension []
  | known {word : String} {text : List Char} (known : word ∈ archiveExtensions) (spelled : foldsTo word text = true) :
      Extension ('.' :: text)

theorem mem_of_getLast? {text left rest : List Char} {last c : Char} (ends : text.getLast? = some last)
    (split : text = left ++ c :: rest) (other : c ≠ last) : last ∈ rest := by
  rw [split, List.getLast?_append, List.getLast?_cons] at ends
  cases behind : rest.getLast? with
  | none =>
    rw [behind] at ends
    exact absurd (Option.some.inj ends) other
  | some d =>
    rw [behind] at ends
    obtain rfl : d = last := Option.some.inj ends
    exact List.mem_of_getLast? behind

theorem foldsTo_of_mem {word : String} {text : List Char} {c : Char} (among : c ∈ text) (foreign : fold c ∉ word.toList) :
    foldsTo word text = false :=
  Bool.eq_false_iff.2 fun folds => foreign (fold_mem_of_foldsTo folds among)

/-! Endings are cut off -/

theorem lettered_sourceSuffixes : lettered sourceSuffixes = true := by
  decide

section Extension

variable {tail : List Char}

theorem Front.cutFrom_append {front : List Char} (h : Front front) :
    cutFrom ['.'] archiveExtensions (front ++ tail) = front ++ cutFrom ['.'] archiveExtensions tail := by
  cases h with
  | tag => rfl
  | @product name separator plain separates =>
    -- behind a point in the name there is still the separator, which is in no extension
    refine Version.cutFrom_append fun left c rest split opens word known => ?_
    have foreign : (archiveExtensions.all fun word => !word.toList.contains '-' && !word.toList.contains '_') = true := by
      decide
    have foreign := List.all_eq_true.1 foreign word known
    simp only [Bool.and_eq_true, Bool.not_eq_true', List.contains_eq_mem, decide_eq_false_iff_not] at foreign
    obtain rfl := List.mem_singleton.1 opens
    have among : separator ∈ rest := by
      refine mem_of_getLast? List.getLast?_concat split ?_
      obtain rfl | rfl := separates <;> decide
    refine foldsTo_of_mem (List.mem_append_left _ among) ?_
    obtain rfl | rfl := separates
    · exact foreign.1
    · exact foreign.2

theorem cutFrom_mark_append {mark : List Char} (marked : mark ∈ marks) :
    cutFrom ['.'] archiveExtensions (mark ++ tail) = mark ++ cutFrom ['.'] archiveExtensions tail := by
  refine cutFrom_append_of_not_mem ?_
  simp only [marks, List.mem_cons, List.not_mem_nil, or_false] at marked
  obtain rfl | rfl | rfl := marked <;> simp

theorem Suffix.cutFrom_append {suffix : List Char} (h : Suffix suffix) :
    cutFrom ['.'] archiveExtensions (suffix ++ tail) = suffix ++ cutFrom ['.'] archiveExtensions tail := by
  cases h with
  | none => rfl
  | @known separator source text separates known spelled =>
    refine Version.cutFrom_append fun left c rest split opens word extension => ?_
    obtain rfl := List.mem_singleton.1 opens
    obtain ⟨rfl, eq⟩ | ⟨left, rfl, eq⟩ := List.cons_eq_append_iff.1 split
    · -- no extension begins with a word for sources
      obtain ⟨-, rfl⟩ := List.cons.inj eq
      have unlike : (archiveExtensions.all fun word => sourceSuffixes.all fun source =>
          !source.toList.isPrefixOf word.toList) = true := by decide
      refine Bool.eq_false_iff.2 fun folds => ?_
      have begins : source.toList <+: word.toList := by
        rw [← of_decide_eq_true folds, ← of_decide_eq_true spelled, List.map_append]
        exact List.prefix_append _ _
      have none := List.all_eq_true.1 (List.all_eq_true.1 unlike word extension) source known
      rw [List.isPrefixOf_iff_prefix.2 begins] at none
      contradiction
    · have letter : isFoldedLetter '.' = true :=
        isFoldedLetter_of_foldsTo lettered_sourceSuffixes known spelled '.' (by simp [eq])
      exact absurd letter (by decide)

/-- An extension that begins with a digit goes on with a letter. -/
theorem not_extension {word : String} (known : word ∈ archiveExtensions) {c : Char} {text : List Char}
    (digit : isDecimal c = true) (next : text.head?.all (!isFoldedLetter ·) = true) : foldsTo word (c :: text) = false := by
  have early : (archiveExtensions.all fun word => (word.toList.take 2).any fun c => 'a' ≤ c && c ≤ 'z') = true := by decide
  refine Bool.eq_false_iff.2 fun folds => ?_
  have early := List.all_eq_true.1 early word known
  have first := not_isFoldedLetter_of_isDecimal digit
  unfold isFoldedLetter at first
  rw [← of_decide_eq_true folds] at early
  cases text with
  | nil => simp [first] at early
  | cons d more =>
    have second : isFoldedLetter d = false := by simpa using next
    unfold isFoldedLetter at second
    simp [first, second] at early

theorem Dotted.cutFrom_append {number : List Char} (h : Dotted number)
    (ends : tail.head?.all (!isFoldedLetter ·) = true) :
    cutFrom ['.'] archiveExtensions (number ++ tail) = number ++ cutFrom ['.'] archiveExtensions tail := by
  have digitless {digits : List Char} (decimal : ∀ c ∈ digits, isDecimal c = true) : ∀ c ∈ digits, c ∉ ['.'] := by
    intro c among
    simpa using ne_of_isDecimal (decimal c among) (by decide)
  induction h with
  | digits filled decimal => exact cutFrom_append_of_not_mem (digitless decimal)
  | @point digits rest filled decimal h ih =>
    have kept : archiveExtensions.any (foldsTo · (rest ++ tail)) = false := by
      obtain ⟨c, more, rfl, digit⟩ := h.head
      refine List.any_eq_false.2 fun word known => Bool.eq_false_iff.1 (not_extension known digit ?_)
      cases more with
      | nil => exact ends
      | cons d more =>
        have plain : isFoldedLetter d = false := by
          obtain digit | rfl := h.mem d (by simp)
          · exact not_isFoldedLetter_of_isDecimal digit
          · decide
        simp [plain]
    rw [List.append_assoc, cutFrom_append_of_not_mem (digitless decimal), List.cons_append, cutFrom, kept, Bool.and_false,
      if_neg Bool.false_ne_true, ih, List.append_assoc, List.cons_append]

/-- No letter follows the version at once. -/
theorem Suffix.head?_append {suffix extension : List Char} (h : Suffix suffix) (h' : Extension extension) :
    (suffix ++ extension).head?.all (!isFoldedLetter ·) = true := by
  cases h with
  | none =>
    cases h' with
    | none => rfl
    | known known spelled => exact show (!isFoldedLetter '.') = true by decide
  | @known separator word text separates known spelled =>
    show (!isFoldedLetter separator) = true
    simp only [List.mem_cons, List.not_mem_nil, or_false] at separates
    obtain rfl | rfl | rfl := separates <;> decide

theorem Extension.cutFrom_eq {extension : List Char} (h : Extension extension) :
    cutFrom ['.'] archiveExtensions extension = [] := by
  cases h with
  | none => rfl
  | known known spelled => exact cutFrom_cons_of_foldsTo (.head _) known spelled

end Extension

theorem Suffix.cutFrom_eq {suffix : List Char} (h : Suffix suffix) :
    cutFrom ['-', '_', '.'] sourceSuffixes suffix = [] := by
  cases h with
  | none => rfl
  | known separates known spelled => exact cutFrom_cons_of_foldsTo separates known spelled

/-! Plain characters -/

theorem isPlain_of_isDecimal {c : Char} (h : isDecimal c = true) : Url.IsPlain c := by
  have none : (Url.special.all (!isDecimal ·)) = true := by decide
  intro special
  have here := List.all_eq_true.1 none c special
  rw [h] at here
  contradiction

theorem isPlain_of_foldsTo {word : String} {text : List Char} (known : word ∈ archiveExtensions ++ sourceSuffixes)
    (h : foldsTo word text = true) : ∀ c ∈ text, Url.IsPlain c := by
  have none : ((archiveExtensions ++ sourceSuffixes).all fun word =>
      Url.special.all fun c => !word.toList.contains (fold c)) = true := by decide
  intro c among special
  have foreign := List.all_eq_true.1 (List.all_eq_true.1 none word known) c special
  simp [fold_mem_of_foldsTo h among] at foreign

theorem Front.isPlain {front : List Char} (h : Front front) : ∀ c ∈ front, Url.IsPlain c := by
  cases h with
  | tag => exact nofun
  | product plain separates =>
    refine List.forall_mem_append.2 ⟨plain, List.forall_mem_singleton.2 ?_⟩
    obtain rfl | rfl := separates <;> decide

theorem isPlain_mark {mark : List Char} (marked : mark ∈ marks) : ∀ c ∈ mark, Url.IsPlain c := by
  simp only [marks, List.mem_cons, List.not_mem_nil, or_false] at marked
  obtain rfl | rfl | rfl := marked
  · exact List.forall_mem_nil _
  · exact List.forall_mem_singleton.2 (by decide)
  · exact List.forall_mem_singleton.2 (by decide)

theorem Dotted.isPlain {number : List Char} (h : Dotted number) : ∀ c ∈ number, Url.IsPlain c := by
  intro c among
  obtain digit | rfl := h.mem c among
  · exact isPlain_of_isDecimal digit
  · decide

theorem Suffix.isPlain {suffix : List Char} (h : Suffix suffix) : ∀ c ∈ suffix, Url.IsPlain c := by
  cases h with
  | none => exact nofun
  | known separates known spelled =>
    refine List.forall_mem_cons.2 ⟨?_, isPlain_of_foldsTo (List.mem_append_right _ known) spelled⟩
    simp only [List.mem_cons, List.not_mem_nil, or_false] at separates
    obtain rfl | rfl | rfl := separates <;> decide

theorem Extension.isPlain {extension : List Char} (h : Extension extension) : ∀ c ∈ extension, Url.IsPlain c := by
  cases h with
  | none => exact nofun
  | known known spelled =>
    exact List.forall_mem_cons.2 ⟨by decide, isPlain_of_foldsTo (List.mem_append_left _ known) spelled⟩

/-! Archives -/

/-- The name of an archive by its parts. -/
structure Archive where
  front : List Char
  mark : List Char
  number : List Char
  suffix : List Char
  extension : List Char
  isFront : Front front
  marked : mark ∈ marks
  dotted : Dotted number
  isSuffix : Suffix suffix
  isExtension : Extension extension

namespace Archive

variable (archive : Archive)

/-- What the endings stand behind. -/
def stem : List Char :=
  archive.front ++ (archive.mark ++ archive.number)

def name : List Char :=
  archive.stem ++ (archive.suffix ++ archive.extension)

theorem isPlain : ∀ c ∈ archive.name, Url.IsPlain c := by
  simp only [name, stem, List.forall_mem_append]
  exact ⟨⟨archive.isFront.isPlain, isPlain_mark archive.marked, archive.dotted.isPlain⟩, archive.isSuffix.isPlain,
    archive.isExtension.isPlain⟩

theorem getLast?_stem : ∃ c, archive.stem.getLast? = some c ∧ isDecimal c = true := by
  obtain ⟨c, last, digit⟩ := archive.dotted.last
  refine ⟨c, ?_, digit⟩
  rw [stem, List.getLast?_append, List.getLast?_append, last]
  rfl

theorem cutFrom_extension : cutFrom ['.'] archiveExtensions archive.name = archive.stem ++ archive.suffix := by
  rw [name, stem, List.append_assoc, archive.isFront.cutFrom_append, List.append_assoc, cutFrom_mark_append archive.marked,
    archive.dotted.cutFrom_append (archive.isSuffix.head?_append archive.isExtension), archive.isSuffix.cutFrom_append,
    archive.isExtension.cutFrom_eq]
  simp

theorem cutFrom_suffix : cutFrom ['-', '_', '.'] sourceSuffixes (archive.stem ++ archive.suffix) = archive.stem := by
  rw [cutFrom_append, archive.isSuffix.cutFrom_eq, List.append_nil]
  -- the last digit of the version stands behind every separator
  intro left c rest split opens word known
  obtain ⟨last, ends, digit⟩ := archive.getLast?_stem
  have among : last ∈ rest := by
    refine mem_of_getLast? ends split (ne_of_isDecimal digit ?_).symm
    simp only [List.mem_cons, List.not_mem_nil, or_false] at opens
    obtain rfl | rfl | rfl := opens <;> decide
  refine Bool.eq_false_iff.2 fun folds => ?_
  have letter := isFoldedLetter_of_foldsTo lettered_sourceSuffixes known folds last (List.mem_append_left _ among)
  rw [not_isFoldedLetter_of_isDecimal digit] at letter
  contradiction

theorem cutEnding_name :
    cutEnding ['-', '_', '.'] sourceSuffixes (cutEnding ['.'] archiveExtensions archive.name) = archive.stem := by
  have inline : '\n' ∉ archive.name := fun among => archive.isPlain _ among (by decide)
  have inline' : '\n' ∉ archive.stem ++ archive.suffix := by
    rw [name, ← List.append_assoc] at inline
    exact fun among => inline (List.mem_append_left _ among)
  rw [cutEnding_of_not_mem inline, archive.cutFrom_extension, cutEnding_of_not_mem inline', archive.cutFrom_suffix]

/-- In the stem the version is found behind the last separator, or as the whole. -/
theorem find_stem : (inName archive.stem).or (asName archive.stem) = some archive.number := by
  have version : withoutMark (archive.mark ++ archive.number) = archive.number :=
    archive.dotted.withoutMark_append archive.marked
  have isVersion := archive.dotted.isVersion
  obtain ⟨front, mark, number, suffix, extension, isFront, marked, dotted, isSuffix, isExtension⟩ := archive
  dsimp only [stem] at version isVersion ⊢
  cases isFront with
  | tag =>
    rw [List.nil_append, inName_of_not_mem (dotted.separator_not_mem marked), asName, version, if_pos isVersion,
      Option.none_or]
  | @product name separator plain separates =>
    rw [List.append_assoc, List.singleton_append,
      inName_append separates name (dotted.head?_mark_append marked) (by rw [version, isVersion]), version, Option.some_or]

end Archive

end Formulary.Version

import Formulary.Archive.Version
import Formulary.Proofs.Archive.Url

/-!
The shape of versions: numbers with points between them, a word for a release before the final one, a letter. Their
characters are few, and a hyphen or an underscore stands in them only before such a word.
-/

namespace Formulary.Version

/-! Characters -/

theorem toLower_cases (c : Char) :
    65 ≤ c.toNat ∧ c.toNat ≤ 90 ∧ c.toLower.toNat = c.toNat + 32 ∨ ¬(65 ≤ c.toNat ∧ c.toNat ≤ 90) ∧ c.toLower = c := by
  have value : c.val.toNat = c.toNat := rfl
  have distance : ('a'.val - 'A'.val).toNat = 32 := rfl
  unfold Char.toLower
  split <;> rename_i upper <;>
    simp only [ge_iff_le, UInt32.le_iff_toNat_le, UInt32.reduceToNat, Char.reduceVal, value] at upper
  · refine .inl ⟨upper.1, upper.2, ?_⟩
    change (c.val + ('a'.val - 'A'.val)).toNat = _
    rw [UInt32.toNat_add, value]
    omega
  · exact .inr ⟨upper, rfl⟩

theorem isFoldedLetter_iff {c : Char} : isFoldedLetter c = true ↔ 97 ≤ (fold c).toNat ∧ (fold c).toNat ≤ 122 := by
  rw [isFoldedLetter, Bool.and_eq_true, decide_eq_true_eq, decide_eq_true_eq]
  exact Iff.rfl

theorem toNat_of_isDecimal {c : Char} (h : isDecimal c = true) : 48 ≤ c.toNat ∧ c.toNat ≤ 57 ∨ 0x660 ≤ c.toNat := by
  unfold isDecimal Text.decimalValue? at h
  split at h
  · rename_i digit
    exact .inl (by simpa [Char.isDigit, UInt32.le_iff_toNat_le] using digit)
  · rw [Option.isSome_map, List.find?_isSome] at h
    obtain ⟨first, mem, within⟩ := h
    have least : ∀ value ∈ Text.decimalZeros, 0x660 ≤ value := by decide
    have bound := least first mem
    simp only [Bool.and_eq_true, decide_eq_true_eq] at within
    exact .inr (by omega)

theorem ne_of_isDecimal {c other : Char} (h : isDecimal c = true) (no : isDecimal other = false) : c ≠ other := by
  rintro rfl
  rw [h] at no
  contradiction

/-- No two spellings of a decimal digit differ in case. -/
theorem fold_of_isDecimal {c : Char} (h : isDecimal c = true) : fold c = c := by
  have decimal := toNat_of_isDecimal h
  rw [fold, if_neg, if_neg (ne_of_isDecimal h (by decide)), if_neg (ne_of_isDecimal h (by decide))]
  · obtain ⟨least, most, -⟩ | ⟨-, same⟩ := toLower_cases c
    · omega
    · exact same
  · rintro (eq | eq)
    · exact ne_of_isDecimal h (by decide) eq
    · exact ne_of_isDecimal h (by decide) eq

theorem not_isFoldedLetter_of_isDecimal {c : Char} (h : isDecimal c = true) : isFoldedLetter c = false := by
  refine Bool.eq_false_iff.2 fun letter => ?_
  rw [isFoldedLetter_iff, fold_of_isDecimal h] at letter
  have decimal := toNat_of_isDecimal h
  omega

theorem isLetter_of_isFoldedLetter {c : Char} (h : isFoldedLetter c = true) : Text.isLetter c = true := by
  rw [isFoldedLetter_iff] at h
  unfold fold at h
  split at h
  · rename_i eq
    obtain rfl | rfl := eq <;> decide +kernel
  split at h
  · rename_i eq
    subst eq
    decide +kernel
  split at h
  · rename_i eq
    subst eq
    decide +kernel
  · have letter : 65 ≤ c.toNat ∧ c.toNat ≤ 90 ∨ 97 ≤ c.toNat ∧ c.toNat ≤ 122 := by
      obtain ⟨least, most, -⟩ | ⟨-, same⟩ := toLower_cases c
      · exact .inl ⟨least, most⟩
      · rw [same] at h
        exact .inr h
    rw [Text.isLetter, if_pos (by omega)]
    exact Text.isAlpha_iff.2 letter

theorem fold_eq_v_iff {c : Char} : fold c = 'v' ↔ c = 'v' ∨ c = 'V' := by
  constructor
  · intro eq
    unfold fold at eq
    split at eq
    · exact absurd eq (by decide)
    split at eq
    · exact absurd eq (by decide)
    split at eq
    · exact absurd eq (by decide)
    obtain ⟨-, -, lower⟩ | ⟨-, same⟩ := toLower_cases c
    · have mark : 'v'.toNat = 'V'.toNat + 32 := rfl
      rw [eq, mark] at lower
      exact .inr (Char.toNat_inj.1 (Nat.add_right_cancel lower).symm)
    · exact .inl (same ▸ eq)
  · rintro (rfl | rfl) <;> decide

/-! The mark in front of a version -/

def marks : List (List Char) :=
  [[], ['v'], ['V']]

theorem withoutMark_split (text : List Char) : ∃ mark ∈ marks, text = mark ++ withoutMark text := by
  unfold withoutMark
  split
  · exact ⟨[], .head _, rfl⟩
  split
  · rename_i c rest mark
    refine ⟨[c], ?_, rfl⟩
    obtain rfl | rfl := fold_eq_v_iff.1 mark
    · decide
    · decide
  · exact ⟨[], .head _, rfl⟩

/-! The characters of a version -/

/-- A character that may stand in a version. -/
def IsPart (c : Char) : Prop :=
  isDecimal c = true ∨ Text.isLetter c = true ∨ c = '.' ∨ c = '-' ∨ c = '_'

/-- The text of a version: a digit first, and only parts of versions. -/
structure IsText (version : List Char) : Prop where
  begins : version.head?.any isDecimal = true
  parts : ∀ c ∈ version, IsPart c

theorem afterNumbers_split (pointed : Bool) (text : List Char) :
    ∃ numbers, text = numbers ++ afterNumbers pointed text ∧ ∀ c ∈ numbers, IsPart c := by
  fun_induction afterNumbers pointed text with
  | case1 => exact ⟨[], rfl, nofun⟩
  | case2 _ c rest decimal ih =>
    obtain ⟨numbers, eq, parts⟩ := ih
    exact ⟨c :: numbers, congrArg _ eq, List.forall_mem_cons.2 ⟨.inl decimal, parts⟩⟩
  | case3 pointed c rest decimal point ih =>
    obtain ⟨numbers, eq, parts⟩ := ih
    simp only [Bool.and_eq_true, decide_eq_true_eq] at point
    exact ⟨c :: numbers, congrArg _ eq, List.forall_mem_cons.2 ⟨.inr (.inr (.inl point.1.2)), parts⟩⟩
  | case4 => exact ⟨[], rfl, nofun⟩

theorem dropOne_split (chars text : List Char) :
    ∃ front, text = front ++ dropOne chars text ∧ ∀ c ∈ front, c ∈ chars := by
  unfold dropOne
  split
  · exact ⟨[], rfl, nofun⟩
  split
  · exact ⟨[_], rfl, by simp_all⟩
  · exact ⟨[], rfl, nofun⟩

theorem isPart_of_isLetterOrNothing {text : List Char} (h : isLetterOrNothing text = true) : ∀ c ∈ text, IsPart c := by
  unfold isLetterOrNothing at h
  split at h
  · exact nofun
  · exact List.forall_mem_singleton.2 (.inr (.inl (isLetter_of_isFoldedLetter h)))
  · contradiction

theorem fold_mem_of_foldsTo {word : String} {text : List Char} (h : foldsTo word text = true) {c : Char}
    (among : c ∈ text) : fold c ∈ word.toList := by
  rw [← of_decide_eq_true h]
  exact List.mem_map_of_mem among

/-- Words that are made of small letters. -/
def lettered (words : List String) : Bool :=
  words.all fun word => word.toList.all fun c => 'a' ≤ c && c ≤ 'z'

theorem lettered_tagWords : lettered tagWords = true := by
  decide

theorem isFoldedLetter_of_foldsTo {words : List String} (letters : lettered words = true) {word : String}
    {text : List Char} (known : word ∈ words) (h : foldsTo word text = true) : ∀ c ∈ text, isFoldedLetter c = true := by
  intro c among
  exact List.all_eq_true.1 (List.all_eq_true.1 letters word known) _ (fold_mem_of_foldsTo h among)

theorem isPart_of_isAfterTag {word : String} {text : List Char} (known : word ∈ tagWords)
    (h : isAfterTag word text = true) : ∀ c ∈ text, IsPart c := by
  obtain ⟨folds, ends⟩ := Bool.and_eq_true_iff.1 h
  intro c among
  rw [← List.take_append_drop word.toList.length text, List.mem_append] at among
  obtain among | among := among
  · exact .inr (.inl (isLetter_of_isFoldedLetter (isFoldedLetter_of_foldsTo lettered_tagWords known folds c among)))
  obtain ⟨point, eq, points⟩ := dropOne_split ['.'] (text.drop word.toList.length)
  rw [eq, List.mem_append] at among
  obtain among | among := among
  · exact .inr (.inr (.inl (List.mem_singleton.1 (points c among))))
  rw [← List.takeWhile_append_dropWhile (l := dropOne ['.'] (text.drop word.toList.length)) (p := isDecimal),
    List.mem_append] at among
  obtain among | among := among
  · exact .inl (List.all_eq_true.1 List.all_takeWhile c among)
  · exact isPart_of_isLetterOrNothing ends c among

theorem IsText.of_isVersion {text : List Char} (h : isVersion text = true) : IsText text := by
  obtain ⟨begins, ends⟩ := Bool.and_eq_true_iff.1 h
  refine ⟨begins, fun c among => ?_⟩
  obtain ⟨numbers, eq, parts⟩ := afterNumbers_split false text
  rw [eq, List.mem_append] at among
  obtain among | among := among
  · exact parts c among
  obtain ends | ends := Bool.or_eq_true_iff.1 ends
  · exact isPart_of_isLetterOrNothing ends c among
  obtain ⟨word, known, tagged⟩ := List.any_eq_true.1 ends
  obtain ⟨gap, eq, gaps⟩ := dropOne_split ['-', '_', '.'] (afterNumbers false text)
  rw [eq, List.mem_append] at among
  obtain among | among := among
  · have gap := gaps c among
    simp only [List.mem_cons, List.not_mem_nil, or_false] at gap
    obtain rfl | rfl | rfl := gap
    · exact .inr (.inr (.inr (.inl rfl)))
    · exact .inr (.inr (.inr (.inr rfl)))
    · exact .inr (.inr (.inl rfl))
  · exact isPart_of_isAfterTag known tagged c among

/-! Where no version begins -/

section Separated

variable {separator : Char} {rest text : List Char}

theorem suffix_afterNumbers (pointed : Bool) (plain : isDecimal separator = false) (noPoint : separator ≠ '.')
    (h : separator :: rest <:+ text) : separator :: rest <:+ afterNumbers pointed text := by
  fun_induction afterNumbers pointed text with
  | case1 => exact h
  | case2 _ c others decimal ih =>
    obtain same | within := List.suffix_cons_iff.1 h
    · obtain ⟨rfl, -⟩ := List.cons.inj same
      rw [plain] at decimal
      contradiction
    · exact ih within
  | case3 pointed c others decimal point ih =>
    obtain same | within := List.suffix_cons_iff.1 h
    · obtain ⟨rfl, -⟩ := List.cons.inj same
      simp [noPoint] at point
    · exact ih within
  | case4 => exact h

theorem suffix_dropOne (chars : List Char) (h : separator :: rest <:+ text) :
    separator ∈ chars ∧ dropOne chars text = rest ∨ separator :: rest <:+ dropOne chars text := by
  unfold dropOne
  split
  · exact .inr h
  split
  · rename_i known
    obtain same | within := List.suffix_cons_iff.1 h
    · obtain ⟨rfl, rfl⟩ := List.cons.inj same
      exact .inl ⟨by simpa using known, rfl⟩
    · exact .inr within
  · exact .inr h

theorem suffix_dropWhile (plain : isDecimal separator = false) (h : separator :: rest <:+ text) :
    separator :: rest <:+ text.dropWhile isDecimal := by
  induction text with
  | nil => exact h
  | cons c others ih =>
    by_cases decimal : isDecimal c = true
    · rw [List.dropWhile_cons_of_pos decimal]
      obtain same | within := List.suffix_cons_iff.1 h
      · obtain ⟨rfl, -⟩ := List.cons.inj same
        rw [plain] at decimal
        contradiction
      · exact ih within
    · rwa [List.dropWhile_cons_of_neg decimal]

theorem not_isLetterOrNothing (filled : rest ≠ []) (h : separator :: rest <:+ text) : isLetterOrNothing text = false := by
  have long := h.length_le
  have behind := List.length_pos_iff.2 filled
  rcases text with _ | ⟨c, _ | ⟨d, more⟩⟩
  · simp at long
  · simp only [List.length_cons, List.length_nil] at long
    omega
  · rfl

theorem not_isAfterTag_of_head {word : String} (known : word ∈ tagWords)
    (opens : rest.head?.any (fun c => isDecimal c || fold c = 'v') = true) : isAfterTag word rest = false := by
  have filled : (tagWords.all fun word => 0 < word.toList.length && !word.toList.contains 'v') = true := by decide
  obtain ⟨c, head, opens⟩ := (Option.any_eq_true ..).1 opens
  obtain ⟨more, rfl⟩ := List.head?_eq_some_iff.1 head
  have filled := List.all_eq_true.1 filled word known
  simp only [Bool.and_eq_true, decide_eq_true_eq, Bool.not_eq_true', List.contains_eq_mem, decide_eq_false_iff_not] at filled
  refine Bool.and_eq_false_iff.2 (.inl (Bool.eq_false_iff.2 fun folds => ?_))
  have first : c ∈ (c :: more).take word.toList.length := by
    rw [← Nat.succ_pred_eq_of_pos filled.1, List.take_succ_cons]
    exact List.mem_cons_self
  obtain decimal | mark := Bool.or_eq_true_iff.1 opens
  · have letter := isFoldedLetter_of_foldsTo lettered_tagWords known folds c first
    rw [not_isFoldedLetter_of_isDecimal decimal] at letter
    contradiction
  · rw [decide_eq_true_eq] at mark
    exact filled.2 (mark ▸ fold_mem_of_foldsTo folds first)

variable (separates : separator = '-' ∨ separator = '_')
include separates

theorem not_isAfterTag {word : String} (known : word ∈ tagWords) (filled : rest ≠ [])
    (h : separator :: rest <:+ text) : isAfterTag word text = false := by
  obtain ⟨front, rfl⟩ := h
  refine Bool.and_eq_false_iff.2 ?_
  by_cases short : word.toList.length ≤ front.length
  · right
    have behind : separator :: rest <:+ (front ++ separator :: rest).drop word.toList.length := by
      rw [List.drop_append_of_le_length short]
      exact List.suffix_append _ _
    obtain ⟨point, -⟩ | behind := suffix_dropOne ['.'] behind
    · obtain rfl | rfl := separates <;> contradiction
    · refine not_isLetterOrNothing filled (suffix_dropWhile ?_ behind)
      obtain rfl | rfl := separates <;> decide
  · left
    -- the word would have to hold the separator
    refine Bool.eq_false_iff.2 fun folds => ?_
    have within : separator ∈ (front ++ separator :: rest).take word.toList.length := by
      rw [List.take_append, List.mem_append]
      obtain ⟨more, eq⟩ := Nat.exists_eq_add_of_lt (Nat.lt_of_not_le short)
      right
      rw [eq, Nat.add_assoc, Nat.add_sub_cancel_left, List.take_succ_cons]
      exact List.mem_cons_self
    have letter := isFoldedLetter_of_foldsTo lettered_tagWords known folds _ within
    obtain rfl | rfl := separates <;> exact absurd letter (by decide)

/-- In front of a separator with a number behind it there is no version that goes on to the end. -/
theorem not_isVersion (opens : rest.head?.any (fun c => isDecimal c || fold c = 'v') = true)
    (h : separator :: rest <:+ text) : isVersion text = false := by
  have filled : rest ≠ [] := by
    rintro rfl
    contradiction
  have behind : separator :: rest <:+ afterNumbers false text := by
    refine suffix_afterNumbers false ?_ ?_ h <;> obtain rfl | rfl := separates <;> decide
  refine Bool.and_eq_false_iff.2 (.inr (Bool.or_eq_false_iff.2 ⟨not_isLetterOrNothing filled behind, ?_⟩))
  refine List.any_eq_false.2 fun word known => Bool.eq_false_iff.1 ?_
  obtain ⟨-, eq⟩ | behind := suffix_dropOne ['-', '_', '.'] behind
  · rw [eq]
    exact not_isAfterTag_of_head known opens
  · exact not_isAfterTag separates known filled behind

theorem suffix_withoutMark (h : separator :: rest <:+ text) : separator :: rest <:+ withoutMark text := by
  unfold withoutMark
  split
  · exact h
  split
  · rename_i mark
    obtain same | within := List.suffix_cons_iff.1 h
    · obtain ⟨rfl, -⟩ := List.cons.inj same
      obtain rfl | rfl := separates <;> exact absurd mark (by decide)
    · exact within
  · exact h

/-- Of a name with a version behind it nothing before the last separator is taken for the version's beginning. -/
theorem inName_append (name : List Char) (opens : rest.head?.any (fun c => isDecimal c || fold c = 'v') = true)
    (version : isVersion (withoutMark rest) = true) : inName (name ++ separator :: rest) = some (withoutMark rest) := by
  induction name with
  | nil =>
    rw [List.nil_append, inName, if_pos]
    simpa [version] using separates
  | cons c name ih =>
    have none : isVersion (withoutMark (name ++ separator :: rest)) = false :=
      not_isVersion separates opens (suffix_withoutMark separates (List.suffix_append _ _))
    rw [List.cons_append, inName, if_neg (by simp [none]), ih]

end Separated

theorem inName_of_not_mem {name : List Char} (whole : '-' ∉ name ∧ '_' ∉ name) : inName name = none := by
  induction name with
  | nil => rfl
  | cons c rest ih =>
    simp only [List.mem_cons, not_or] at whole
    rw [inName, if_neg (by simp [Ne.symm whole.1.1, Ne.symm whole.2.1]), ih ⟨whole.1.2, whole.2.2⟩]

/-! Dotted numbers -/

/-- Digits, and any number of points with digits behind them. -/
inductive Dotted : List Char → Prop
  | digits {digits : List Char} (filled : digits ≠ []) (decimal : ∀ c ∈ digits, isDecimal c = true) : Dotted digits
  | point {digits rest : List Char} (filled : digits ≠ []) (decimal : ∀ c ∈ digits, isDecimal c = true)
      (h : Dotted rest) : Dotted (digits ++ '.' :: rest)

theorem afterNumbers_digits {digits : List Char} (filled : digits ≠ []) (decimal : ∀ c ∈ digits, isDecimal c = true)
    (pointed : Bool) (rest : List Char) : afterNumbers pointed (digits ++ rest) = afterNumbers false rest := by
  induction digits generalizing pointed with
  | nil => contradiction
  | cons c digits ih =>
    obtain ⟨here, decimal⟩ := List.forall_mem_cons.1 decimal
    rw [List.cons_append, afterNumbers, if_pos here]
    cases digits with
    | nil => rfl
    | cons d digits => exact ih (List.cons_ne_nil _ _) decimal false

namespace Dotted

variable {text : List Char}

theorem head (h : Dotted text) : ∃ c rest, text = c :: rest ∧ isDecimal c = true := by
  cases h with
  | digits filled decimal =>
    obtain ⟨c, rest, rfl⟩ := List.exists_cons_of_ne_nil filled
    exact ⟨c, rest, rfl, decimal c (.head _)⟩
  | point filled decimal =>
    obtain ⟨c, rest, rfl⟩ := List.exists_cons_of_ne_nil filled
    exact ⟨c, _, rfl, decimal c (.head _)⟩

theorem last (h : Dotted text) : ∃ c, text.getLast? = some c ∧ isDecimal c = true := by
  induction h with
  | digits filled decimal =>
    exact ⟨_, List.getLast?_eq_some_getLast filled, decimal _ (List.getLast_mem filled)⟩
  | point filled decimal h ih =>
    obtain ⟨c, last, here⟩ := ih
    refine ⟨c, ?_, here⟩
    rw [List.getLast?_append, List.getLast?_cons, last]
    rfl

theorem mem (h : Dotted text) : ∀ c ∈ text, isDecimal c = true ∨ c = '.' := by
  induction h with
  | digits filled decimal => exact fun c among => .inl (decimal c among)
  | point filled decimal h ih =>
    intro c among
    obtain among | rfl | among := List.mem_append.1 among |>.imp_right List.mem_cons.1
    · exact .inl (decimal c among)
    · exact .inr rfl
    · exact ih c among

theorem afterNumbers_eq (h : Dotted text) (pointed : Bool) : afterNumbers pointed text = [] := by
  induction h generalizing pointed with
  | digits filled decimal =>
    have read := afterNumbers_digits filled decimal pointed []
    rwa [List.append_nil] at read
  | point filled decimal h ih =>
    obtain ⟨c, rest, rfl, first⟩ := h.head
    rw [afterNumbers_digits filled decimal, afterNumbers, if_neg (by decide), if_pos (by simp [first]), ih]

theorem isVersion (h : Dotted text) : isVersion text = true := by
  obtain ⟨c, rest, rfl, first⟩ := h.head
  simp [Version.isVersion, h.afterNumbers_eq, first, isLetterOrNothing]

theorem withoutMark_append (h : Dotted text) {mark : List Char} (marked : mark ∈ marks) :
    withoutMark (mark ++ text) = text := by
  obtain ⟨c, rest, rfl, first⟩ := h.head
  have noMark : fold c ≠ 'v' := by
    rw [fold_of_isDecimal first]
    exact ne_of_isDecimal first (by decide)
  simp only [marks, List.mem_cons, List.not_mem_nil, or_false] at marked
  obtain rfl | rfl | rfl := marked
  · simp [withoutMark, noMark]
  · rfl
  · rfl

/-- A dotted number with its mark begins as what follows a separator in front of a version. -/
theorem head?_mark_append (h : Dotted text) {mark : List Char} (marked : mark ∈ marks) :
    (mark ++ text).head?.any (fun c => isDecimal c || fold c = 'v') = true := by
  obtain ⟨c, rest, rfl, first⟩ := h.head
  simp only [marks, List.mem_cons, List.not_mem_nil, or_false] at marked
  obtain rfl | rfl | rfl := marked
  · simp [first]
  · exact show (isDecimal 'v' || decide (fold 'v' = 'v')) = true by decide
  · exact show (isDecimal 'V' || decide (fold 'V' = 'v')) = true by decide

theorem separator_not_mem (h : Dotted text) {mark : List Char} (marked : mark ∈ marks) :
    '-' ∉ mark ++ text ∧ '_' ∉ mark ++ text := by
  have unmarked : (marks.all fun mark => !mark.contains '-' && !mark.contains '_') = true := by decide
  have unmarked := List.all_eq_true.1 unmarked mark marked
  simp only [Bool.and_eq_true, Bool.not_eq_true', List.contains_eq_mem, decide_eq_false_iff_not] at unmarked
  have other {separator : Char} (digitless : isDecimal separator = false) (pointless : separator ≠ '.') :
      separator ∉ text := by
    intro among
    obtain digit | point := h.mem separator among
    · rw [digitless] at digit
      contradiction
    · exact pointless point
  simp only [List.mem_append, not_or]
  exact ⟨⟨unmarked.1, other (by decide) (by decide)⟩, unmarked.2, other (by decide) (by decide)⟩

end Dotted

end Formulary.Version

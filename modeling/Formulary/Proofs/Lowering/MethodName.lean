import Formulary.Instruction.MethodName
import Formulary.Token.Heredoc
import Formulary.Token.Spelling
import Mathlib.Data.List.Infix
import Mathlib.Logic.Function.Basic

/-! Encoded method names can be decoded, and only encoded names are the code of what they decode to. -/

namespace Formulary.MethodName

theorem withoutSuffix_append (stem suffix : List Char) (h : suffix.length = 3) :
    withoutSuffix (stem ++ suffix) = stem := by
  simp [withoutSuffix, h]

/-- Suffixes that end in different characters are not mistaken for one another. -/
theorem isSuffixOf_append_of_getLast? {stem suffix other : List Char} (hs : suffix ≠ [])
    (h : other.getLast? ≠ suffix.getLast?) (ho : other ≠ []) : other.isSuffixOf (stem ++ suffix) = false := by
  rw [Bool.eq_false_iff]
  intro hsuffix
  obtain ⟨front, heq⟩ := List.isSuffixOf_iff_suffix.1 hsuffix
  have hl := congrArg List.getLast? heq
  rw [List.getLast?_append_of_ne_nil _ ho, List.getLast?_append_of_ne_nil _ hs] at hl
  exact h hl

theorem eq_append_of_getLast? {name : List Char} {c : Char} (h : name.getLast? = some c) :
    name = name.dropLast ++ [c] :=
  (List.dropLast_append_getLast? c h).symm

theorem decodeChars_query (stem : List Char) : decodeChars (stem ++ querySuffix) = stem ++ ['?'] := by
  have he : escapeSuffix.isSuffixOf (stem ++ querySuffix) = false :=
    isSuffixOf_append_of_getLast? (by decide) (by decide) (by decide)
  simp [decodeChars, he, withoutSuffix_append stem querySuffix rfl]

theorem decodeChars_bang (stem : List Char) : decodeChars (stem ++ bangSuffix) = stem ++ ['!'] := by
  have he : escapeSuffix.isSuffixOf (stem ++ bangSuffix) = false :=
    isSuffixOf_append_of_getLast? (by decide) (by decide) (by decide)
  have hq : querySuffix.isSuffixOf (stem ++ bangSuffix) = false :=
    isSuffixOf_append_of_getLast? (by decide) (by decide) (by decide)
  simp [decodeChars, he, hq, withoutSuffix_append stem bangSuffix rfl]

theorem decodeChars_escape (stem : List Char) : decodeChars (stem ++ escapeSuffix) = stem := by
  simp [decodeChars, withoutSuffix_append stem escapeSuffix rfl]

theorem decodeChars_of_not_looksEncoded {name : List Char} (h : looksEncoded name = false) : decodeChars name = name := by
  simp only [looksEncoded, Bool.or_eq_false_iff] at h
  obtain ⟨⟨hq, hb⟩, he⟩ := h
  simp [decodeChars, hq, hb, he]

theorem decodeChars_encodeChars (name : List Char) : decodeChars (encodeChars name) = name := by
  unfold encodeChars
  split
  · rename_i hquery
    rw [decodeChars_query, ← eq_append_of_getLast? hquery]
  · split
    · rename_i hbang
      rw [decodeChars_bang, ← eq_append_of_getLast? hbang]
    · split
      · exact decodeChars_escape name
      · rename_i hplain
        exact decodeChars_of_not_looksEncoded (Bool.eq_false_iff.2 hplain)

theorem decode_encode (name : String) : decode (encode name) = name := by
  simp [decode, encode, decodeChars_encodeChars]

/-! Which names are encoded -/

theorem looksEncoded_iff {name : List Char} :
    looksEncoded name = true ↔ querySuffix <:+ name ∨ bangSuffix <:+ name ∨ escapeSuffix <:+ name := by
  simp only [looksEncoded, Bool.or_eq_true, List.isSuffixOf_iff_suffix, or_assoc]

/-- A name that encoding gives for some name. -/
def IsEncoded (name : List Char) : Prop :=
  querySuffix <:+ name ∨ bangSuffix <:+ name ∨ (∃ stem, name = stem ++ escapeSuffix ∧ looksEncoded stem = true) ∨
    looksEncoded name = false ∧ name.getLast? ≠ some '?' ∧ name.getLast? ≠ some '!'

theorem not_looksEncoded_of_getLast? {name : List Char} {c : Char} (h : name.getLast? = some c)
    (sign : c ∉ ['q', 'b', 'e']) : looksEncoded name = false := by
  simp only [List.mem_cons, List.not_mem_nil, or_false, not_or] at sign
  rw [Bool.eq_false_iff, ne_eq, looksEncoded_iff]
  rintro (⟨stem, rfl⟩ | ⟨stem, rfl⟩ | ⟨stem, rfl⟩)
  all_goals
    rw [List.getLast?_append_of_ne_nil _ (by decide)] at h
    cases h
    simp at sign

/-- An encoded name that looks encoded got its last suffix from the encoding. -/
theorem isEncoded_encodeChars (name : List Char) : IsEncoded (encodeChars name) := by
  unfold encodeChars
  split
  · exact .inl (List.suffix_append _ _)
  split
  · exact .inr (.inl (List.suffix_append _ _))
  split
  · rename_i encoded
    exact .inr (.inr (.inl ⟨name, rfl, encoded⟩))
  · rename_i query bang plain
    exact .inr (.inr (.inr ⟨Bool.eq_false_iff.2 plain, query, bang⟩))

theorem encodeChars_query (stem : List Char) : encodeChars (stem ++ ['?']) = stem ++ querySuffix := by
  simp [encodeChars]

theorem encodeChars_bang (stem : List Char) : encodeChars (stem ++ ['!']) = stem ++ bangSuffix := by
  simp [encodeChars]

theorem encodeChars_of_looksEncoded {name : List Char} (h : looksEncoded name = true) :
    encodeChars name = name ++ escapeSuffix := by
  have unmarked (c : Char) (sign : c ∉ ['q', 'b', 'e']) : name.getLast? ≠ some c := by
    intro last
    rw [not_looksEncoded_of_getLast? last sign] at h
    contradiction
  rw [encodeChars, if_neg (unmarked _ (by decide)), if_neg (unmarked _ (by decide)), if_pos h]

theorem encodeChars_decodeChars {name : List Char} (h : IsEncoded name) : encodeChars (decodeChars name) = name := by
  obtain ⟨stem, rfl⟩ | ⟨stem, rfl⟩ | ⟨stem, rfl, encoded⟩ | ⟨plain, query, bang⟩ := h
  · rw [decodeChars_query, encodeChars_query]
  · rw [decodeChars_bang, encodeChars_bang]
  · rw [decodeChars_escape, encodeChars_of_looksEncoded encoded]
  · rw [decodeChars_of_not_looksEncoded plain, encodeChars, if_neg query, if_neg bang,
      if_neg (Bool.eq_false_iff.1 plain)]

theorem encodeChars_decodeChars_iff {name : List Char} : encodeChars (decodeChars name) = name ↔ IsEncoded name :=
  ⟨fun same => same ▸ isEncoded_encodeChars _, encodeChars_decodeChars⟩

theorem encode_decode_iff {name : String} : encode (decode name) = name ↔ IsEncoded name.toList := by
  rw [← encodeChars_decodeChars_iff, ← String.toList_inj]
  simp [encode, decode]

theorem getLast?_encodeChars_ne (name : List Char) {mark : Char} (sign : mark ∈ ['?', '!']) :
    (encodeChars name).getLast? ≠ some mark := by
  have suffixed (front : List Char) {suffix : List Char}
      (known : suffix ∈ [querySuffix, bangSuffix, escapeSuffix]) : (front ++ suffix).getLast? ≠ some mark := by
    have filled : suffix ≠ [] ∧ suffix.getLast? ≠ some mark := by
      simp only [List.mem_cons, List.not_mem_nil, or_false] at sign known
      obtain rfl | rfl := sign <;> obtain rfl | rfl | rfl := known <;> decide
    rw [List.getLast?_append_of_ne_nil _ filled.1]
    exact filled.2
  unfold encodeChars
  split
  · exact suffixed _ (by decide)
  split
  · exact suffixed _ (by decide)
  split
  · exact suffixed _ (by decide)
  · rename_i query bang plain
    simp only [List.mem_cons, List.not_mem_nil, or_false] at sign
    obtain rfl | rfl := sign
    · exact query
    · exact bang

/-- Encoding uses no characters but those of the stem and those of the suffixes. -/
theorem all_encodeChars {safe : Char → Bool} (suffixes : ['_', 'q', 'b', 'e'].all safe = true)
    {stem mark : List Char} (marked : mark ∈ [[], ['?'], ['!']]) (plain : stem.all safe = true) :
    (encodeChars (stem ++ mark)).all safe = true := by
  have suffixed {front suffix : List Char} (h : front.all safe = true)
      (known : suffix ∈ [querySuffix, bangSuffix, escapeSuffix]) : (front ++ suffix).all safe = true := by
    have within : suffix ⊆ ['_', 'q', 'b', 'e'] := by
      simp only [List.mem_cons, List.not_mem_nil, or_false] at known
      obtain rfl | rfl | rfl := known <;> decide
    rw [List.all_append, h, List.all_eq_true.2 fun c mem => List.all_eq_true.1 suffixes c (within mem)]
    rfl
  have shorter : stem.dropLast.all safe = true :=
    List.all_eq_true.2 fun c mem => List.all_eq_true.1 plain c (List.mem_of_mem_dropLast mem)
  simp only [List.mem_cons, List.not_mem_nil, or_false] at marked
  obtain rfl | rfl | rfl := marked
  · rw [List.append_nil]
    unfold encodeChars
    split
    · exact suffixed shorter (by decide)
    split
    · exact suffixed shorter (by decide)
    split
    · exact suffixed plain (by decide)
    · exact plain
  · rw [encodeChars_query]
    exact suffixed plain (by decide)
  · rw [encodeChars_bang]
    exact suffixed plain (by decide)

/-- Encoding loses nothing, what is decoded is encoded back exactly if it is an encoded name, and the code of a word with
or without a mark behind it is a word, be its letters of any alphabet or of the Latin one. -/
theorem encode_reversible :
    (∀ name, decode (encode name) = name) ∧ Function.Injective encode ∧
      (∀ code, encode (decode code) = code ↔ IsEncoded code.toList) ∧
      ∀ isWordChar ∈ [Spelling.isNameChar, Heredoc.isNamePart], ∀ stem : String, ∀ mark ∈ ["", "?", "!"],
        stem.toList.all isWordChar = true → (encode (stem ++ mark)).toList.all isWordChar = true := by
  refine ⟨decode_encode, Function.LeftInverse.injective decode_encode, fun code => encode_decode_iff, ?word⟩
  case word =>
    intro isWordChar alphabet stem mark marked plain
    have suffixes : ['_', 'q', 'b', 'e'].all isWordChar = true := by
      simp only [List.mem_cons, List.not_mem_nil, or_false] at alphabet
      obtain rfl | rfl := alphabet <;> decide
    have signs : mark.toList ∈ [[], ['?'], ['!']] := List.mem_map_of_mem (f := String.toList) marked
    rw [encode, String.toList_append, String.toList_ofList]
    exact all_encodeChars suffixes signs plain

/-- A code with two suffixes, and a word that looks encoded with a mark behind it. -/
theorem encode_reversible_stacked :
    IsEncoded "a__b__e".toList ∧ encode (decode "a__b__e") = "a__b__e" ∧
      "naïve__q".toList.all Spelling.isNameChar = true ∧
      (encode ("naïve__q" ++ "!")).toList.all Spelling.isNameChar = true := by
  obtain ⟨-, -, again, word⟩ := encode_reversible
  have encoded : IsEncoded "a__b__e".toList := .inr (.inr (.inl ⟨"a__b".toList, by decide, by decide⟩))
  have plain : "naïve__q".toList.all Spelling.isNameChar = true := by decide
  exact ⟨encoded, (again _).2 encoded, plain, word _ List.mem_cons_self _ _ (by decide) plain⟩

end Formulary.MethodName

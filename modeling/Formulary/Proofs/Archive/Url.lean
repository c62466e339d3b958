import Formulary.Archive.Url
import Mathlib.Data.List.TakeWhile

/-!
Reading the path of a URL that is put together from a scheme, an authority and a path. Nothing of the path is lost, nor
changed, if its characters stand for themselves.
-/

namespace Formulary

theorem Text.isAlpha_iff {c : Char} :
    c.isAlpha = true ↔ 65 ≤ c.toNat ∧ c.toNat ≤ 90 ∨ 97 ≤ c.toNat ∧ c.toNat ≤ 122 := by
  have upper : c.isUpper = decide (65 ≤ c.toNat ∧ c.toNat ≤ 90) := rfl
  have lower : c.isLower = (decide (97 ≤ c.toNat) && decide (c.toNat ≤ 122)) := rfl
  have either : c.isAlpha = (c.isUpper || c.isLower) := rfl
  simp [either, upper, lower]

/-! Text without escapes -/

namespace Text.Utf8

theorem lenientFrom_ascii {c : Char} (ascii : isAscii c = true) (rest : List UInt8) :
    lenientFrom none (UInt8.ofNat c.toNat :: rest) = c :: lenientFrom none rest := by
  have small : c.toNat < 128 := of_decide_eq_true ascii
  have value : (UInt8.ofNat c.toNat).toNat = c.toNat := by
    rw [UInt8.toNat_ofNat', Nat.mod_eq_of_lt (by omega)]
  have starts : start (UInt8.ofNat c.toNat).toNat = .done c := by
    rw [start, value, if_pos small, Char.ofNat_toNat]
  rw [lenientFrom, starts]
  rfl

theorem decodeLenient_ascii {text : List Char} (ascii : ∀ c ∈ text, isAscii c = true) :
    decodeLenient (text.map fun c => UInt8.ofNat c.toNat) = text := by
  unfold decodeLenient
  induction text with
  | nil => rfl
  | cons c rest ih =>
    obtain ⟨here, others⟩ := List.forall_mem_cons.1 ascii
    rw [List.map_cons, lenientFrom_ascii here, ih others]

end Text.Utf8

namespace Url

/-- The text behind a run of characters whose bytes wait to be decoded. -/
theorem unescapeFrom_of_not_mem {front text : List Char} (ascii : ∀ c ∈ front, Text.isAscii c = true)
    (noEscape : '%' ∉ text) :
    unescapeFrom (front.map fun c => UInt8.ofNat c.toNat).reverse text = front ++ text := by
  induction text generalizing front with
  | nil => rw [unescapeFrom, List.reverse_reverse, Text.Utf8.decodeLenient_ascii ascii, List.append_nil]
  | cons c rest ih =>
    rw [List.mem_cons, not_or] at noEscape
    rw [unescapeFrom]
    · by_cases single : Text.isAscii c = true
      · have longer : ∀ d ∈ front ++ [c], Text.isAscii d = true := by
          simpa [or_imp, forall_and] using ⟨ascii, single⟩
        have read := ih longer noEscape.2
        rw [if_pos single]
        simpa using read
      · have read := @ih [] nofun noEscape.2
        rw [if_neg single, List.reverse_reverse, Text.Utf8.decodeLenient_ascii ascii]
        simpa using read
    · rintro a b more rfl
      exact absurd rfl noEscape.1

theorem unescape_of_not_mem {text : List Char} (noEscape : '%' ∉ text) : unescape text = text :=
  @unescapeFrom_of_not_mem [] text nofun noEscape

/-! Parts of a URL -/

/-- The characters that end a segment of a path, begin an escape or are dropped. -/
def special : List Char :=
  ['/', '?', '#', '%', '\t', '\r', '\n']

/-- A character that stands for itself in a segment of a path, such as a letter, a digit or a hyphen. -/
def IsPlain (c : Char) : Prop :=
  c ∉ special

instance (c : Char) : Decidable (IsPlain c) :=
  inferInstanceAs (Decidable (_ ∉ _))

theorem isPlain_of_all {text : List Char} (h : text.all (IsPlain ·) = true) : ∀ c ∈ text, IsPlain c :=
  fun c among => of_decide_eq_true (List.all_eq_true.1 h c among)

/-- Where a path begins: a scheme, and an authority that passes the checks of a host. -/
structure Origin where
  scheme : List Char
  authority : List Char
  begins : scheme.head?.any Char.isAlpha = true
  schemeChars : scheme.all isSchemeChar = true
  authorityChars : authority.all (· ∉ ['/', '?', '#', '\t', '\r', '\n']) = true
  brackets : checkBrackets authority = .ok ()
  lookalikes : checkLookalikes authority = .ok ()

namespace Origin

variable (origin : Origin)

def text : List Char :=
  origin.scheme ++ ':' :: '/' :: '/' :: origin.authority

theorem not_mem_of_mem_authority {c : Char} (among : c ∈ origin.authority) :
    c ∉ ['/', '?', '#', '\t', '\r', '\n'] :=
  of_decide_eq_true (List.all_eq_true.1 origin.authorityChars c among)

theorem ne_of_mem_scheme {c other : Char} (among : c ∈ origin.scheme) (no : isSchemeChar other = false) :
    c ≠ other := by
  rintro rfl
  rw [List.all_eq_true.1 origin.schemeChars c among] at no
  contradiction

variable {path : List Char}

theorem cleaned_append (plain : ∀ c ∈ path, c = '/' ∨ IsPlain c) :
    cleaned (origin.text ++ path) = origin.text ++ path := by
  obtain ⟨first, begins, letter⟩ := (Option.any_eq_true ..).1 origin.begins
  obtain ⟨scheme, split⟩ := List.head?_eq_some_iff.1 begins
  have visible : isControlOrSpace first = false := by
    have low : 65 ≤ first.toNat := by
      rw [Text.isAlpha_iff] at letter
      omega
    exact decide_eq_false (by omega)
  have kept : (origin.text ++ path).dropWhile isControlOrSpace = origin.text ++ path := by
    rw [text, split, List.cons_append, List.cons_append, List.dropWhile_cons_of_neg (by simp [visible])]
  rw [cleaned, kept, List.filter_eq_self]
  intro c among
  have here : c ∉ ['\t', '\r', '\n'] := by
    simp only [text, List.mem_append, List.mem_cons] at among
    obtain (among | rfl | rfl | rfl | among) | among := among
    · simp only [List.mem_cons, List.not_mem_nil, or_false, not_or]
      refine ⟨?_, ?_, ?_⟩ <;> exact origin.ne_of_mem_scheme among (by decide)
    · decide
    · decide
    · decide
    · exact fun control => origin.not_mem_of_mem_authority among (List.mem_of_mem_drop (i := 3) control)
    · obtain rfl | plain := plain c among
      · decide
      · exact fun control => plain (List.mem_of_mem_drop (i := 4) control)
  simpa [and_assoc] using here

theorem withoutScheme_append (path : List Char) :
    withoutScheme (origin.text ++ path) = '/' :: '/' :: (origin.authority ++ path) := by
  have scheme : (origin.text ++ path).takeWhile (· ≠ ':') = origin.scheme := by
    rw [text, List.append_assoc, List.takeWhile_append_of_pos]
    · rw [List.cons_append, List.takeWhile_cons_of_neg (by simp), List.append_nil]
    · intro c among
      simpa using origin.ne_of_mem_scheme among (by decide)
  rw [withoutScheme, scheme, if_pos]
  · simp [text]
  · simp [text, origin.begins, origin.schemeChars]

/-- The path behind an origin is read as it is written. -/
theorem path_append (rooted : path = [] ∨ path.head? = some '/') (plain : ∀ c ∈ path, c = '/' ∨ IsPlain c) :
    Url.path (String.ofList (origin.text ++ path)) = .ok path := by
  have authority : (origin.authority ++ path).takeWhile (!endsAuthority ·) = origin.authority := by
    rw [List.takeWhile_append_of_pos]
    · obtain rfl | root := rooted
      · rw [List.takeWhile_nil, List.append_nil]
      · obtain ⟨rest, rfl⟩ := List.head?_eq_some_iff.1 root
        rw [List.takeWhile_cons_of_neg (by decide), List.append_nil]
    · intro c among
      have inside := origin.not_mem_of_mem_authority among
      simp only [List.mem_cons, not_or] at inside
      simp [endsAuthority, inside]
  have whole : path.takeWhile (fun c => c ≠ '#' && c ≠ '?') = path := by
    rw [List.takeWhile_eq_self_iff]
    intro c among
    obtain rfl | plain := plain c among
    · decide
    · simp only [IsPlain, special, List.mem_cons, not_or] at plain
      simp [plain]
  have raw : rawPath (String.ofList (origin.text ++ path)) = .ok path := by
    rw [rawPath, String.toList_ofList, origin.cleaned_append plain, origin.withoutScheme_append]
    simp only [authority, origin.brackets, origin.lookalikes, List.drop_left, whole]
    rfl
  have noEscape : '%' ∉ path := by
    intro among
    obtain slash | plain := plain '%' among
    · exact absurd slash (by decide)
    · exact plain (by decide)
  rw [Url.path, raw, Except.map, unescape_of_not_mem noEscape]

end Origin

end Url

end Formulary

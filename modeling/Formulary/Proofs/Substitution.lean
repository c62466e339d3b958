import Formulary.Instruction.Layout
import Formulary.Text.Number
import Formulary.Token.Spelling
import Mathlib.Data.List.Basic

/-!
Reading a string's text back. A character of the text is escaped so that it can be told from a quote, an escape and
the dollar sign of a substitution; where the name of a substitution ends is not written. So two strings have the same
text exactly when they are the same after each substitution has taken over the characters behind it that continue its
name.
-/

namespace Formulary.Layout

open Spelling (isNameChar wordLength)

/-! Characters -/

/-- The character that an escape stands for, and what follows it. -/
def escaped : List Char → Option (Char × List Char)
  | 'n' :: rest => some ('\n', rest)
  | 'r' :: rest => some ('\r', rest)
  | 't' :: rest => some ('\t', rest)
  | 'b' :: rest => some (Char.ofNat 0x08, rest)
  | 'f' :: rest => some (Char.ofNat 0x0C, rest)
  | 'u' :: '0' :: '0' :: high :: low :: rest =>
    (Text.natural? 16 [high, low]).map fun code => (Char.ofNat code, rest)
  | c :: rest => some (c, rest)
  | [] => none

/-- The first character that a text stands for, and what follows it. -/
def unescape : List Char → Option (Char × List Char)
  | c :: rest => if c = '\\' then escaped rest else some (c, rest)
  | [] => none

theorem hexDigits_control : ∀ n < 0x20,
    Text.hexDigits 4 n = ['0', '0', Nat.digitChar (n / 16), Nat.digitChar (n % 16)] ∧
      Text.natural? 16 [Nat.digitChar (n / 16), Nat.digitChar (n % 16)] = some n := by
  decide

theorem unescape_textChar (c : Char) (rest : List Char) : unescape (textChar c ++ rest) = some (c, rest) := by
  unfold textChar
  by_cases plain : c = '"' ∨ c = '\\' ∨ c = '$'
  · obtain rfl | rfl | rfl := plain <;> rfl
  by_cases newline : c = '\n'
  · subst c; rfl
  by_cases back : c = '\r'
  · subst c; rfl
  by_cases tab : c = '\t'
  · subst c; rfl
  by_cases backspace : c = Char.ofNat 0x08
  · subst c; rfl
  by_cases feed : c = Char.ofNat 0x0C
  · subst c; rfl
  rw [if_neg plain, if_neg newline, if_neg back, if_neg tab, if_neg backspace, if_neg feed]
  by_cases control : c.toNat < 0x20
  · obtain ⟨digits, value⟩ := hexDigits_control c.toNat control
    rw [if_pos control, digits]
    simp only [List.cons_append, List.nil_append, unescape, if_true, escaped, value, Option.map_some,
      Char.ofNat_toNat]
  · have slash : c ≠ '\\' := fun same => plain (.inr (.inl same))
    rw [if_neg control, List.cons_append, unescape, if_neg slash, List.nil_append]

/-- The texts of characters form a prefix code. -/
theorem textChar_append_inj {c d : Char} {rest more : List Char} (h : textChar c ++ rest = textChar d ++ more) :
    c = d ∧ rest = more := by
  have read := congrArg unescape h
  rw [unescape_textChar, unescape_textChar] at read
  exact Prod.mk.inj (Option.some.inj read)

theorem textChar_ne_dollar (c : Char) (rest : List Char) : ∀ more, textChar c ++ rest ≠ '$' :: more := by
  intro more same
  have read := congrArg unescape same
  rw [unescape_textChar] at read
  obtain ⟨rfl, -⟩ := Prod.mk.inj (Option.some.inj read)
  cases same

theorem isNameChar_control : ∀ n < 0x20, isNameChar (Char.ofNat n) = false := by
  decide

theorem textChar_of_isNameChar {c : Char} (name : isNameChar c = true) : textChar c = [c] := by
  have control : ¬c.toNat < 0x20 := by
    intro small
    rw [← Char.ofNat_toNat c, isNameChar_control _ small] at name
    contradiction
  have ne {d : Char} (other : isNameChar d = false) : c ≠ d := by
    rintro rfl
    rw [name] at other
    contradiction
  unfold textChar
  rw [if_neg, if_neg (ne (by decide)), if_neg (ne (by decide)), if_neg (ne (by decide)), if_neg (ne (by decide)),
    if_neg (ne (by decide)), if_neg control]
  rintro (quote | slash | dollar)
  · exact ne (by decide) quote
  · exact ne (by decide) slash
  · exact ne (by decide) dollar

/-! Names -/

/-- Whether a name is the spelling of an identifier or a constant: a word with the mark that may end it. -/
def isIdentifier (name : List Char) : Bool :=
  name.head?.any (fun c => Text.isLetter c || c = '_') && [[], ['?'], ['!']].contains (name.dropWhile isNameChar)

theorem mark_cases {mark : List Char} (h : [[], ['?'], ['!']].contains mark = true) :
    mark = [] ∨ mark = ['?'] ∨ mark = ['!'] := by
  simpa using h

/-- A character of an identifier is written as itself. -/
theorem textChar_of_isIdentifier {front : List Char} {c : Char} (h : isIdentifier (front ++ [c]) = true) :
    textChar c = [c] := by
  by_cases name : isNameChar c = true
  · exact textChar_of_isNameChar name
  · obtain ⟨-, mark⟩ := Bool.and_eq_true_iff.1 h
    rw [List.dropWhile_append, List.dropWhile_cons_of_neg name] at mark
    have last : (if (front.dropWhile isNameChar).isEmpty then [c] else front.dropWhile isNameChar ++ [c]).getLast? =
        some c := by
      split <;> simp
    obtain eq | eq | eq := mark_cases mark
    · rw [eq] at last
      cases last
    · rw [eq] at last
      cases last
      rfl
    · rw [eq] at last
      cases last
      rfl

/-- An identifier that is cut off behind its first character is an identifier. -/
theorem isIdentifier_prefix {front back : List Char} {c : Char} (h : isIdentifier (front ++ c :: back) = true)
    (first : front ≠ []) : isIdentifier (front ++ [c]) = true := by
  unfold isIdentifier at h ⊢
  rw [Bool.and_eq_true, List.head?_append_of_ne_nil front first] at h ⊢
  obtain ⟨letter, mark⟩ := h
  refine ⟨letter, ?_⟩
  rw [List.dropWhile_append] at mark ⊢
  by_cases word : (front.dropWhile isNameChar).isEmpty = true
  · rw [if_pos word] at mark ⊢
    by_cases name : isNameChar c = true
    · rw [List.dropWhile_cons_of_pos name]
      rfl
    · rw [List.dropWhile_cons_of_neg name] at mark ⊢
      obtain eq | eq | eq := mark_cases mark <;> cases eq <;> rfl
  · rw [if_neg word] at mark
    have short : (front.dropWhile isNameChar ++ c :: back).length ≤ 1 := by
      obtain eq | eq | eq := mark_cases mark <;> rw [eq] <;> decide
    rw [List.isEmpty_iff, ← List.length_eq_zero_iff] at word
    rw [List.length_append, List.length_cons] at short
    omega

/-! Strings as characters and substitutions -/

/-- What a reader of a string meets. -/
inductive Glyph where
  | letter (c : Char)
  | substitution (expr : Expression)

namespace Glyph

def text : Glyph → List Char
  | letter c => textChar c
  | substitution expr => (partText (.embed expr)).toList

/-- Whether a glyph could as well belong to the name of the substitution in front of it. -/
def continues : Glyph → Glyph → Bool
  | substitution (.var name), letter c => isIdentifier (name.toList ++ [c])
  | _, _ => false

theorem continues_eq_false {glyph next : Glyph}
    (apart : ∀ name c, glyph = .substitution (.var name) → next = .letter c → False) :
    glyph.continues next = false := by
  unfold continues
  split
  · exact (apart _ _ rfl rfl).elim
  · rfl

theorem text_substitution (expr : Expression) : ∃ code, (Glyph.substitution expr).text = '$' :: code := by
  by_cases var : ∃ name, expr = .var name
  · obtain ⟨name, rfl⟩ := var
    exact ⟨name.toList, by simp [text, partText]⟩
  · refine ⟨'\x7b' :: ((expression expr).toList ++ ['\x7d']), ?_⟩
    rw [text, partText]
    · simp
    · exact fun name same => var ⟨name, same⟩

theorem text_append_ne_nil (glyph : Glyph) (rest : List Char) : glyph.text ++ rest ≠ [] := by
  intro empty
  cases glyph with
  | letter c =>
    have read := congrArg unescape empty
    rw [text, unescape_textChar] at read
    cases read
  | substitution expr =>
    obtain ⟨code, dollar⟩ := text_substitution expr
    rw [dollar] at empty
    cases empty

theorem text_variable (name : String) : (substitution (.var name)).text = '$' :: name.toList := by
  simp [text, partText]

end Glyph

def glyphs : List (Part Expression) → List Glyph
  | [] => []
  | .text value :: rest => value.toList.map .letter ++ glyphs rest
  | .embed expr :: rest => .substitution expr :: glyphs rest

/-- The glyphs after each substitution has taken over the characters behind it that continue its name. -/
def absorb : List Glyph → List Glyph
  | .substitution (.var name) :: .letter c :: rest =>
    if isIdentifier (name.toList ++ [c]) then absorb (.substitution (.var (name.push c)) :: rest)
    else .substitution (.var name) :: absorb (.letter c :: rest)
  | glyph :: rest => glyph :: absorb rest
  | [] => []
termination_by glyphs => glyphs.length

/-- A string of the form that lowering gives it: no text is empty and no two are adjacent. Every substitution is of a
variable. -/
structure Normal (parts : List (Part Expression)) : Prop where
  nonempty : ∀ value, .text value ∈ parts → value ≠ ""
  named : ∀ expr, .embed expr ∈ parts → ∃ name, expr = .var name ∧ isIdentifier name.toList = true
  apart : parts.IsChain fun part next => ∀ value more, ¬(part = .text value ∧ next = .text more)

/-- No substitution has a character behind it that continues its name. -/
def Clear (glyphs : List Glyph) : Prop :=
  glyphs.IsChain fun glyph next => glyph.continues next = false

/-- Every substitution is of a variable. -/
def Named (glyphs : List Glyph) : Prop :=
  ∀ expr, .substitution expr ∈ glyphs → ∃ name, expr = .var name ∧ isIdentifier name.toList = true

theorem toList_expression_string (parts : List (Part Expression)) :
    (expression (.string parts)).toList = '"' :: ((glyphs parts).flatMap Glyph.text ++ ['"']) := by
  have inner : (String.join (partTexts parts)).toList = (glyphs parts).flatMap Glyph.text := by
    induction parts with
    | nil => rfl
    | cons part rest ih =>
      cases part with
      | text value =>
        rw [partTexts, partText, glyphs, List.flatMap_append, ← ih]
        simp [String.join_cons, text, List.flatMap_map, Glyph.text]
      | embed expr =>
        rw [partTexts, glyphs, List.flatMap_cons, ← ih]
        simp [String.join_cons, Glyph.text]
  rw [expression, String.toList_append, String.toList_append, inner]
  rfl

theorem flatMap_text_absorb (glyphs : List Glyph) :
    (absorb glyphs).flatMap Glyph.text = glyphs.flatMap Glyph.text := by
  induction glyphs using absorb.induct with
  | case1 name c rest next ih =>
    rw [absorb, if_pos next, ih]
    simp [Glyph.text, partText, textChar_of_isIdentifier next]
  | case2 name c rest next ih => rw [absorb, if_neg next, List.flatMap_cons, ih, ← List.flatMap_cons]
  | case3 glyph rest apart ih =>
    rw [absorb, List.flatMap_cons, ih, List.flatMap_cons]
    exact apart
  | case4 => rw [absorb]

example : (absorb [.substitution (.var "a"), .letter 'b', .letter '-']).flatMap Glyph.text = "$ab-".toList := by
  cbv

theorem Named.of_cons {glyph : Glyph} {rest : List Glyph} (h : Named (glyph :: rest)) : Named rest :=
  fun expr mem => h expr (List.mem_cons_of_mem glyph mem)

theorem named_absorb {glyphs : List Glyph} (named : Named glyphs) : Named (absorb glyphs) := by
  induction glyphs using absorb.induct with
  | case1 name c rest next ih =>
    rw [absorb, if_pos next]
    apply ih
    intro expr mem
    obtain same | mem := List.mem_cons.1 mem
    · cases same
      exact ⟨name.push c, rfl, by rwa [String.toList_push]⟩
    · exact named.of_cons.of_cons expr mem
  | case2 name c rest next ih =>
    rw [absorb, if_neg next]
    intro expr mem
    obtain same | mem := List.mem_cons.1 mem
    · exact named expr (same ▸ List.mem_cons_self)
    · exact ih named.of_cons expr mem
  | case3 glyph rest apart ih =>
    rw [absorb]
    · intro expr mem
      obtain same | mem := List.mem_cons.1 mem
      · exact named expr (same ▸ List.mem_cons_self)
      · exact ih named.of_cons expr mem
    · exact apart
  | case4 => rwa [absorb]

theorem absorb_letter (c : Char) (rest : List Glyph) : absorb (.letter c :: rest) = .letter c :: absorb rest := by
  rw [absorb]
  rintro name d more same
  cases same

theorem absorb_substitution (expr : Expression) (rest : List Glyph) :
    ∃ longer more, absorb (.substitution expr :: rest) = .substitution longer :: more := by
  generalize eq : Glyph.substitution expr :: rest = glyphs
  induction glyphs using absorb.induct generalizing expr rest with
  | case1 name c rest next ih =>
    rw [absorb, if_pos next]
    exact ih _ _ rfl
  | case2 name c rest next ih =>
    rw [absorb, if_neg next]
    exact ⟨_, _, rfl⟩
  | case3 glyph rest apart ih =>
    rw [absorb]
    · cases eq
      exact ⟨_, _, rfl⟩
    · exact apart
  | case4 => cases eq

theorem clear_absorb (glyphs : List Glyph) : Clear (absorb glyphs) := by
  induction glyphs using absorb.induct with
  | case1 name c rest next ih => rwa [absorb, if_pos next]
  | case2 name c rest next ih =>
    rw [absorb, if_neg next, absorb_letter]
    rw [absorb_letter] at ih
    exact .cons_cons (eq_false_of_ne_true next) ih
  | case3 glyph rest apart ih =>
    rw [absorb]
    · match rest with
      | [] =>
        rw [absorb]
        exact .singleton glyph
      | .letter c :: rest =>
        rw [absorb_letter] at ih ⊢
        exact .cons_cons (Glyph.continues_eq_false fun name d same next => apart name c rest same rfl) ih
      | .substitution expr :: rest =>
        obtain ⟨longer, more, eq⟩ := absorb_substitution expr rest
        rw [eq] at ih ⊢
        exact .cons_cons (Glyph.continues_eq_false fun name d same next => nomatch next) ih
    · exact apart
  | case4 =>
    rw [absorb]
    exact .nil

theorem Clear.of_cons {glyph : Glyph} {rest : List Glyph} (h : Clear (glyph :: rest)) : Clear rest :=
  List.IsChain.of_cons h

theorem absorb_of_clear {glyphs : List Glyph} (clear : Clear glyphs) : absorb glyphs = glyphs := by
  induction glyphs using absorb.induct with
  | case1 name c rest next ih =>
    have other := (List.isChain_cons_cons.1 clear).1
    rw [Glyph.continues, next] at other
    contradiction
  | case2 name c rest next ih => rw [absorb, if_neg next, ih clear.of_cons]
  | case3 glyph rest apart ih =>
    rw [absorb, ih clear.of_cons]
    exact apart
  | case4 => rw [absorb]

/-- Behind a substitution that is clear of what follows, nothing continues its name. -/
theorem eq_nil_of_clear {name : String} {more after : List Char} {rest : List Glyph}
    (word : isIdentifier name.toList = true) (longer : isIdentifier (name.toList ++ more) = true)
    (clear : Clear (.substitution (.var name) :: rest)) (h : rest.flatMap Glyph.text = more ++ after) :
    more = [] := by
  cases more with
  | nil => rfl
  | cons c more =>
    have first : name.toList ≠ [] := by
      intro empty
      rw [empty] at word
      contradiction
    have next : isIdentifier (name.toList ++ [c]) = true := isIdentifier_prefix longer first
    have plain : textChar c = [c] := textChar_of_isIdentifier next
    cases rest with
    | nil => cases h
    | cons glyph rest =>
      rw [List.flatMap_cons] at h
      cases glyph with
      | letter d =>
        have eq : textChar d ++ rest.flatMap Glyph.text = textChar c ++ (more ++ after) := by
          rw [plain]
          exact h
        obtain ⟨rfl, -⟩ := textChar_append_inj eq
        have apart := (List.isChain_cons_cons.1 clear).1
        rw [Glyph.continues, next] at apart
        contradiction
      | substitution expr =>
        obtain ⟨code, dollar⟩ := Glyph.text_substitution expr
        rw [dollar] at h
        obtain ⟨rfl, -⟩ := List.cons.inj h
        cases plain

/-- A text is that of one list of glyphs in which no substitution is followed by more of its name. -/
theorem flatMap_text_inj {glyphs others : List Glyph} (named : Named glyphs) (named' : Named others)
    (clear : Clear glyphs) (clear' : Clear others) (h : glyphs.flatMap Glyph.text = others.flatMap Glyph.text) :
    glyphs = others := by
  induction glyphs generalizing others with
  | nil =>
    cases others with
    | nil => rfl
    | cons glyph' rest' =>
      rw [List.flatMap_cons] at h
      exact (glyph'.text_append_ne_nil _ h.symm).elim
  | cons glyph rest ih =>
    cases others with
    | nil =>
      rw [List.flatMap_cons] at h
      exact (glyph.text_append_ne_nil _ h).elim
    | cons glyph' rest' =>
      rw [List.flatMap_cons, List.flatMap_cons] at h
      cases glyph with
      | letter c =>
        cases glyph' with
        | letter d =>
          obtain ⟨rfl, same⟩ := textChar_append_inj h
          rw [ih named.of_cons named'.of_cons clear.of_cons clear'.of_cons same]
        | substitution expr =>
          obtain ⟨code, dollar⟩ := Glyph.text_substitution expr
          rw [dollar] at h
          exact (textChar_ne_dollar _ _ _ h).elim
      | substitution expr =>
        cases glyph' with
        | letter d =>
          obtain ⟨code, dollar⟩ := Glyph.text_substitution expr
          rw [dollar] at h
          exact (textChar_ne_dollar _ _ _ h.symm).elim
        | substitution expr' =>
          obtain ⟨name, rfl, word⟩ := named expr List.mem_cons_self
          obtain ⟨name', rfl, word'⟩ := named' expr' List.mem_cons_self
          rw [Glyph.text_variable, Glyph.text_variable, List.cons_append, List.cons_append] at h
          -- One of the names begins the other, and what is left over would continue it.
          have same := (List.cons.inj h).2
          obtain ⟨more, longer, behind⟩ | ⟨more, longer, behind⟩ := List.append_eq_append_iff.1 same
          · obtain rfl := eq_nil_of_clear word (longer ▸ word') clear behind
            obtain rfl := String.toList_injective (longer.trans (List.append_nil _))
            rw [ih named.of_cons named'.of_cons clear.of_cons clear'.of_cons behind]
          · obtain rfl := eq_nil_of_clear word' (longer ▸ word) clear' behind
            obtain rfl := String.toList_injective (longer.trans (List.append_nil _))
            rw [ih named.of_cons named'.of_cons clear.of_cons clear'.of_cons behind.symm]

/-! Strings from their glyphs -/

theorem named_glyphs {parts : List (Part Expression)} (h : Normal parts) : Named (glyphs parts) := by
  have mem_parts : ∀ expr, Glyph.substitution expr ∈ glyphs parts → Part.embed expr ∈ parts := by
    intro expr mem
    clear h
    induction parts with
    | nil => cases mem
    | cons part rest ih =>
      cases part with
      | text value =>
        rw [glyphs, List.mem_append] at mem
        obtain mem | mem := mem
        · obtain ⟨c, -, other⟩ := List.mem_map.1 mem
          cases other
        · exact List.mem_cons_of_mem _ (ih mem)
      | embed inner =>
        rw [glyphs, List.mem_cons] at mem
        obtain same | mem := mem
        · cases same
          exact List.mem_cons_self
        · exact List.mem_cons_of_mem _ (ih mem)
  exact fun expr mem => h.named expr (mem_parts expr mem)

theorem Normal.of_cons {part : Part Expression} {rest : List (Part Expression)} (h : Normal (part :: rest)) :
    Normal rest where
  nonempty value mem := h.nonempty value (List.mem_cons_of_mem part mem)
  named expr mem := h.named expr (List.mem_cons_of_mem part mem)
  apart := h.apart.of_cons

/-- Behind a text stands a substitution or nothing. -/
theorem Normal.glyphs_ne_letter {value : String} {rest : List (Part Expression)} (h : Normal (.text value :: rest))
    (c : Char) (more : List Glyph) : glyphs rest ≠ .letter c :: more := by
  cases rest with
  | nil => exact nofun
  | cons part rest =>
    cases part with
    | text next => exact ((List.isChain_cons_cons.1 h.apart).1 value next ⟨rfl, rfl⟩).elim
    | embed expr => exact nofun

theorem letters_inj {word word' : List Char} {rest rest' : List Glyph} (ends : ∀ c more, rest ≠ .letter c :: more)
    (ends' : ∀ c more, rest' ≠ .letter c :: more)
    (h : word.map Glyph.letter ++ rest = word'.map Glyph.letter ++ rest') : word = word' ∧ rest = rest' := by
  induction word generalizing word' with
  | nil =>
    cases word' with
    | nil => exact ⟨rfl, h⟩
    | cons d word' => exact (ends d _ h).elim
  | cons c word ih =>
    cases word' with
    | nil => exact (ends' c _ h.symm).elim
    | cons d word' =>
      obtain ⟨same, others⟩ := List.cons.inj h
      obtain ⟨rfl, eq⟩ := ih others
      cases same
      exact ⟨rfl, eq⟩

theorem letters_ne_substitution {value : String} (nonempty : value ≠ "") (rest more : List Glyph)
    (expr : Expression) : value.toList.map Glyph.letter ++ rest ≠ .substitution expr :: more := by
  intro same
  cases eq : value.toList with
  | nil => exact nonempty (String.toList_eq_nil_iff.1 eq)
  | cons c word =>
    rw [eq] at same
    cases same

theorem glyphs_inj {parts others : List (Part Expression)} (normal : Normal parts) (normal' : Normal others)
    (h : glyphs parts = glyphs others) : parts = others := by
  induction parts generalizing others with
  | nil =>
    match others with
    | [] => rfl
    | .embed expr :: rest' => cases h
    | .text value :: rest' =>
      have empty : value.toList = [] := List.map_eq_nil_iff.1 (List.append_eq_nil_iff.1 h.symm).1
      exact (normal'.nonempty value List.mem_cons_self (String.toList_eq_nil_iff.1 empty)).elim
  | cons part rest ih =>
    match part, others with
    | .text value, [] =>
      have empty : value.toList = [] := List.map_eq_nil_iff.1 (List.append_eq_nil_iff.1 h).1
      exact (normal.nonempty value List.mem_cons_self (String.toList_eq_nil_iff.1 empty)).elim
    | .embed expr, [] => cases h
    | .text value, .text value' :: rest' =>
      obtain ⟨same, eq⟩ := letters_inj normal.glyphs_ne_letter normal'.glyphs_ne_letter h
      rw [String.toList_injective same, ih normal.of_cons normal'.of_cons eq]
    | .text value, .embed expr :: rest' =>
      exact (letters_ne_substitution (normal.nonempty value List.mem_cons_self) _ _ _ h).elim
    | .embed expr, .text value :: rest' =>
      exact (letters_ne_substitution (normal'.nonempty value List.mem_cons_self) _ _ _ h.symm).elim
    | .embed expr, .embed expr' :: rest' =>
      obtain ⟨same, eq⟩ := List.cons.inj h
      cases same
      rw [ih normal.of_cons normal'.of_cons eq]

/-- Two strings have one text exactly when they are the same after each substitution has taken over what continues
its name. So the text gives back every string in which no substitution is followed by more of its name. -/
theorem expression_string_eq_iff {parts others : List (Part Expression)} (normal : Normal parts)
    (normal' : Normal others) :
    (expression (.string parts) = expression (.string others) ↔ absorb (glyphs parts) = absorb (glyphs others)) ∧
      (Clear (glyphs parts) → Clear (glyphs others) →
        expression (.string parts) = expression (.string others) → parts = others) := by
  have texts : expression (.string parts) = expression (.string others) ↔
      (glyphs parts).flatMap Glyph.text = (glyphs others).flatMap Glyph.text := by
    rw [← String.toList_inj, toList_expression_string, toList_expression_string, List.cons_inj_right,
      List.append_left_inj]
  have absorbed : expression (.string parts) = expression (.string others) ↔
      absorb (glyphs parts) = absorb (glyphs others) := by
    rw [texts, ← flatMap_text_absorb (glyphs parts), ← flatMap_text_absorb (glyphs others)]
    constructor
    · exact flatMap_text_inj (named_absorb (named_glyphs normal)) (named_absorb (named_glyphs normal'))
        (clear_absorb _) (clear_absorb _)
    · exact congrArg _
  refine ⟨absorbed, fun clear clear' same => glyphs_inj normal normal' ?_⟩
  have eq := absorbed.1 same
  rwa [absorb_of_clear clear, absorb_of_clear clear'] at eq

theorem expression_string_eq_iff_path :
    let parts := [.text "$HOME: ", .embed (.var "prefix"), .text "/bin"]
    let others := [.embed (.var "prefix"), .text "lib\n"]
    Normal parts ∧ Normal others ∧
      (expression (.string parts) = expression (.string others) ↔ absorb (glyphs parts) = absorb (glyphs others)) ∧
      (Clear (glyphs parts) → Clear (glyphs others) →
        expression (.string parts) = expression (.string others) → parts = others) := by
  intro parts others
  have normal : Normal parts := by
    refine ⟨by simp [parts], ?_, by simp [parts]⟩
    exact fun expr mem => ⟨"prefix", by simpa [parts] using mem, by decide⟩
  have normal' : Normal others := by
    refine ⟨by simp [others], ?_, by simp [others]⟩
    exact fun expr mem => ⟨"prefix", by simpa [others] using mem, by decide⟩
  exact ⟨normal, normal', expression_string_eq_iff normal normal'⟩

/-- The variable `a` with a `b` behind it and the variable `ab` have one text. -/
theorem exists_expression_string_eq : ∃ parts others, Normal parts ∧ Normal others ∧
    expression (.string parts) = expression (.string others) ∧ parts ≠ others := by
  refine ⟨[.embed (.var "a"), .text "b"], [.embed (.var "ab")], ⟨?_, ?_, ?_⟩, ⟨?_, ?_, ?_⟩, ?_, ?_⟩
  · simp
  · exact fun expr mem => ⟨"a", by simpa using mem, by decide⟩
  · simp
  · simp
  · exact fun expr mem => ⟨"ab", by simpa using mem, by decide⟩
  · simp
  · decide
  · simp

end Formulary.Layout

import Formulary.Text.Number
import Formulary.Token.Spelling
import Mathlib.Data.List.Forall2
import Mathlib.Data.Nat.Digits.Lemmas
import Mathlib.Tactic.Ring

/-!
Natural numbers as they can be written: in four bases, with letters of either case for the digits from ten on and with
underscores between the digits. Without the underscores such a text is read as its value.
-/

namespace Formulary

/-- The characters that stand for a digit: `0` to `9`, and from ten on the letters of either case. -/
def digitForms (digit : Nat) : List Char :=
  [digit.digitChar, digit.digitChar.toUpper]

/-- Digits as they can be written, the first one first, with any number of underscores between them. -/
inductive WritesDigits : List Nat → List Char → Prop
  | last {digit : Nat} {c : Char} : c ∈ digitForms digit → WritesDigits [digit] [c]
  | cons {digit : Nat} {digits : List Nat} {c : Char} {text : List Char} (underscores : Nat) : c ∈ digitForms digit →
      WritesDigits digits text → WritesDigits (digit :: digits) (c :: (List.replicate underscores '_' ++ text))

/-- The letters that name a base behind a zero. -/
def baseLetters : List (Char × Nat) :=
  [('x', 16), ('X', 16), ('b', 2), ('B', 2), ('o', 8), ('O', 8)]

/-- The ways to write a natural number. -/
inductive WritesNatural : Nat → List Char → Prop
  /-- Decimal digits without zeros in front. -/
  | decimal {digits : List Nat} {text : List Char} : (∀ digit ∈ digits, digit < 10) →
      (digits = [0] ∨ digits.head? ≠ some 0) → WritesDigits digits text →
      WritesNatural (Nat.ofDigits 10 digits.reverse) text
  /-- A zero, the letter of a base, and digits in this base. -/
  | lettered {letter : Char} {base : Nat} {digits : List Nat} {text : List Char} : (letter, base) ∈ baseLetters →
      (∀ digit ∈ digits, digit < base) → WritesDigits digits text →
      WritesNatural (Nat.ofDigits base digits.reverse) ('0' :: letter :: text)
  /-- Octal digits behind a zero. -/
  | octal {digits : List Nat} {text : List Char} : digits ≠ [] → (∀ digit ∈ digits, digit < 8) →
      WritesDigits (0 :: digits) text → WritesNatural (Nat.ofDigits 8 digits.reverse) text

/-- Characters that stand for digits, one for each. -/
abbrev StandFor (text : List Char) (digits : List Nat) : Prop :=
  List.Forall₂ (fun c digit => c ∈ digitForms digit) text digits

/-! Characters -/

/-- What holds of all characters for digits is checked for one after the other. -/
theorem forall_forms {P : Nat → Char → Prop} [∀ digit c, Decidable (P digit c)] {bound : Nat}
    (h : ((List.range bound).all fun digit => (digitForms digit).all fun c => P digit c) = true) :
    ∀ digit < bound, ∀ c ∈ digitForms digit, P digit c := by
  intro digit small c form
  have all := List.all_eq_true.1 h digit (List.mem_range.2 small)
  exact of_decide_eq_true (List.all_eq_true.1 all c form)

theorem digitForms_value : ∀ digit < 16, ∀ c ∈ digitForms digit, Text.digitValue? c = some digit :=
  forall_forms (by decide)

theorem digitForms_plain : ∀ digit < 16, ∀ c ∈ digitForms digit,
    c ≠ '_' ∧ Spelling.isNameChar c = true ∧ c.toNat < 128 ∧ c.toLower ∈ digitForms digit :=
  forall_forms (by decide)

theorem digitForms_decimal : ∀ digit < 10, ∀ c ∈ digitForms digit, Text.isDigit c = true :=
  forall_forms (by decide)

namespace WritesDigits

variable {digits : List Nat} {text : List Char}

/-- The characters of a number without the underscores. -/
theorem filter (h : WritesDigits digits text) (within : ∀ digit ∈ digits, digit < 16) :
    StandFor (text.filter (· ≠ '_')) digits := by
  induction h with
  | last form =>
    obtain ⟨solid, -⟩ := digitForms_plain _ (within _ List.mem_cons_self) _ form
    rw [List.filter_cons_of_pos (by simpa using solid)]
    exact .cons form .nil
  | cons underscores form _ ih =>
    obtain ⟨first, others⟩ := List.forall_mem_cons.1 within
    obtain ⟨solid, -⟩ := digitForms_plain _ first _ form
    have gap : (List.replicate underscores '_').filter (· ≠ '_') = [] :=
      List.filter_eq_nil_iff.2 fun c mem => by simp [List.eq_of_mem_replicate mem]
    rw [List.filter_cons_of_pos (by simpa using solid), List.filter_append, gap]
    exact .cons form (ih others)

/-- What holds of the underscore and of the forms of all digits holds of all characters of a number. -/
theorem forall_mem {p : Char → Prop} (h : WritesDigits digits text) (gap : p '_')
    (forms : ∀ digit ∈ digits, ∀ c ∈ digitForms digit, p c) : ∀ c ∈ text, p c := by
  induction h with
  | last form => exact List.forall_mem_singleton.2 (forms _ List.mem_cons_self _ form)
  | cons underscores form _ ih =>
    obtain ⟨first, others⟩ := List.forall_mem_cons.1 forms
    refine List.forall_mem_cons.2 ⟨first _ form, List.forall_mem_append.2 ⟨fun c mem => ?_, ih others⟩⟩
    exact List.eq_of_mem_replicate mem ▸ gap

theorem head (h : WritesDigits digits text) :
    ∃ digit c more, digits.head? = some digit ∧ text = c :: more ∧ c ∈ digitForms digit := by
  cases h with
  | last form => exact ⟨_, _, _, rfl, rfl, form⟩
  | cons underscores form _ => exact ⟨_, _, _, rfl, rfl, form⟩

theorem ne_nil (h : WritesDigits digits text) : digits ≠ [] := by
  cases h <;> exact List.cons_ne_nil _ _

theorem of_digitChars (digit : Nat) (digits : List Nat) :
    WritesDigits (digit :: digits) ((digit :: digits).map Nat.digitChar) := by
  induction digits generalizing digit with
  | nil => exact .last List.mem_cons_self
  | cons second digits ih => exact .cons 0 List.mem_cons_self (ih second)

end WritesDigits

/-- Every natural number can be written. -/
theorem exists_writesNatural (n : Nat) : ∃ text, WritesNatural n text := by
  by_cases zero : n = 0
  · exact ⟨['0'], zero ▸ @WritesNatural.decimal [0] _ (by decide) (.inl rfl) (.of_digitChars 0 [])⟩
  · have within : ∀ digit ∈ (Nat.digits 10 n).reverse, digit < 10 :=
      fun digit mem => Nat.digits_lt_base (by decide) (List.mem_reverse.1 mem)
    have filled : Nat.digits 10 n ≠ [] := Nat.digits_ne_nil_iff_ne_zero.2 zero
    have front : (Nat.digits 10 n).reverse.head? ≠ some 0 := by
      rw [List.head?_reverse, List.getLast?_eq_some_getLast filled]
      exact fun same => Nat.getLast_digit_ne_zero 10 zero (Option.some.inj same)
    obtain ⟨digit, digits, begun⟩ := List.exists_cons_of_ne_nil (List.reverse_ne_nil_iff.2 filled)
    have chars : WritesDigits (Nat.digits 10 n).reverse ((digit :: digits).map Nat.digitChar) :=
      begun ▸ .of_digitChars digit digits
    have written := WritesNatural.decimal within (.inr front) chars
    rw [List.reverse_reverse, Nat.ofDigits_digits] at written
    exact ⟨_, written⟩

/-! Values -/

namespace Text

/-- Digits have their value in a base, behind a value that was read before. -/
theorem positional?_eq {base value : Nat} {text : List Char} {digits : List Nat} (small : base ≤ 16)
    (written : StandFor text digits) (within : ∀ digit ∈ digits, digit < base) :
    positional? base value text = some (value * base ^ digits.length + Nat.ofDigits base digits.reverse) := by
  induction written generalizing value with
  | nil => simp [positional?]
  | @cons c digit text digits form _ ih =>
    obtain ⟨first, others⟩ := List.forall_mem_cons.1 within
    rw [positional?, digitForms_value digit (first.trans_le small) c form]
    change (if digit < base then positional? base (value * base + digit) text else none) = _
    rw [if_pos first, ih others, List.reverse_cons, Nat.ofDigits_append, Nat.ofDigits_singleton, List.length_reverse,
      List.length_cons, pow_succ]
    congr 1
    ring

theorem natural?_eq {base : Nat} {text : List Char} {digits : List Nat} (small : base ≤ 16)
    (written : StandFor text digits) (within : ∀ digit ∈ digits, digit < base)
    (filled : digits ≠ []) : natural? base text = some (Nat.ofDigits base digits.reverse) := by
  have begun : text.isEmpty = false := by
    cases written with
    | nil => exact absurd rfl filled
    | cons => rfl
  rw [natural?, begun, if_neg Bool.false_ne_true, positional?_eq small written within, Nat.zero_mul, Nat.zero_add]

theorem lowerAfter_ascii {before text : List Char} (ascii : ∀ c ∈ text, c.toNat < 128) :
    lowerAfter before text = text.map Char.toLower := by
  induction text generalizing before with
  | nil => rfl
  | cons c text ih =>
    obtain ⟨first, others⟩ := List.forall_mem_cons.1 ascii
    have small : ¬c.toNat = 0x3A3 := by omega
    rw [lowerAfter, if_neg small, lowerChar, if_pos first, ih others]
    rfl

/-- The characters of digits, in small letters. -/
theorem forms_toLower {text : List Char} {digits : List Nat} (within : ∀ digit ∈ digits, digit < 16)
    (written : StandFor text digits) :
    StandFor (text.map Char.toLower) digits ∧ ∀ c ∈ text, c.toNat < 128 := by
  induction written with
  | nil => exact ⟨.nil, nofun⟩
  | cons form _ ih =>
    obtain ⟨first, others⟩ := List.forall_mem_cons.1 within
    obtain ⟨-, -, ascii, small⟩ := digitForms_plain _ first _ form
    obtain ⟨forms, all⟩ := ih others
    exact ⟨.cons small forms, List.forall_mem_cons.2 ⟨ascii, all⟩⟩

theorem baseLetters_prefix : ∀ pair ∈ baseLetters, pair.2 ≤ 16 ∧ pair.1.toNat < 128 ∧ pair.1 ≠ '_' ∧
    Spelling.isBaseMark pair.1 = true ∧
      ∀ digits, basePrefix? ('0' :: pair.1.toLower :: digits) = some (pair.2, digits) := by
  simp only [baseLetters, List.forall_mem_cons]
  refine ⟨?_, ?_, ?_, ?_, ?_, ?_, nofun⟩ <;> exact ⟨by decide, by decide, by decide, by decide, fun _ => rfl⟩

theorem integerLiteral_lettered {letter : Char} {base : Nat} {text : List Char} {digits : List Nat}
    (named : (letter, base) ∈ baseLetters) (within : ∀ digit ∈ digits, digit < base) (filled : digits ≠ [])
    (written : StandFor text digits) :
    integerLiteral (String.ofList ('0' :: letter :: text)) = .ok (Nat.ofDigits base digits.reverse) := by
  obtain ⟨small, plain, -, -, begins⟩ := baseLetters_prefix _ named
  obtain ⟨forms, ascii⟩ := forms_toLower (fun digit mem => (within digit mem).trans_le small) written
  have all : ∀ c ∈ '0' :: letter :: text, c.toNat < 128 :=
    List.forall_mem_cons.2 ⟨by decide, List.forall_mem_cons.2 ⟨plain, ascii⟩⟩
  have lowered : (lower (String.ofList ('0' :: letter :: text))).toList =
      '0' :: letter.toLower :: text.map Char.toLower := by
    rw [lower, String.toList_ofList, String.toList_ofList, lowerAfter_ascii all]
    rfl
  rw [integerLiteral, lowered, begins]
  dsimp only
  rw [natural?_eq small forms within filled]
  rfl

/-- Behind the first digit of a number without a letter stands no letter of a base. -/
theorem basePrefix?_digits {text : List Char} {digits : List Nat} (within : ∀ digit ∈ digits, digit < 10)
    (written : StandFor text digits) :
    basePrefix? (text.map Char.toLower) = none := by
  have letters : ∀ digit < 10, ∀ c ∈ digitForms digit, c.toLower ≠ 'x' ∧ c.toLower ≠ 'o' ∧ c.toLower ≠ 'b' :=
    forall_forms (by decide)
  cases written with
  | nil => rfl
  | @cons c digit text digits form written =>
    cases written with
    | nil =>
      unfold basePrefix?
      split <;> simp_all
    | @cons d digit' text digits' form' written =>
      have second : digit' < 10 := within digit' (List.mem_cons_of_mem _ List.mem_cons_self)
      obtain ⟨notX, notO, notB⟩ := letters digit' second d form'
      unfold basePrefix?
      split <;> simp_all

theorem integerLiteral_plain {text : List Char} {digits : List Nat} (within : ∀ digit ∈ digits, digit < 10)
    (filled : digits ≠ []) (written : StandFor text digits) :
    let base := if 1 < digits.length ∧ digits.head? = some 0 then 8 else 10
    (∀ digit ∈ digits, digit < base) →
      integerLiteral (String.ofList text) = .ok (Nat.ofDigits base digits.reverse) := by
  intro base below
  obtain ⟨-, ascii⟩ := forms_toLower (fun digit mem => (within digit mem).trans (by decide)) written
  have zero : text.head? = some '0' ↔ digits.head? = some 0 := by
    have forms : ∀ digit < 10, ∀ c ∈ digitForms digit, c = '0' ↔ digit = 0 := forall_forms (by decide)
    cases written with
    | nil => exact absurd rfl filled
    | cons form => simpa using forms _ (within _ List.mem_cons_self) _ form
  have same : (if text.length > 1 ∧ text.head? = some '0' then 8 else 10) = base := by
    simp only [base, zero, written.length_eq, gt_iff_lt]
  have small : base ≤ 16 := by
    unfold base
    split <;> decide
  rw [integerLiteral, lower, String.toList_ofList, String.toList_ofList, lowerAfter_ascii ascii,
    basePrefix?_digits within written]
  dsimp only
  rw [same, natural?_eq small written below filled]
  rfl

end Text

end Formulary

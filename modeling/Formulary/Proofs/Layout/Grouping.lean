import Formulary.Grammar.Operator
import Formulary.Proofs.Substitution

/-!
Reading an operation's text back. From its end to its front a text can be read in one way only: a bracket, a name or a
mark says what an operand is, and what stands before an operand is a sign, an operator, an assignment or nothing. What
is read is the expression, except that a sign in front of a call or a subscript is always read as a sign of the whole:
`!a.b` is the text of a call on `!a` as well as of the negation of `a.b`.
-/

namespace Formulary.Layout

open Spelling (isNameChar)

def signs : List String :=
  ["!", "-", "~", "not"]

def isOperator (op : String) : Bool :=
  (Grammar.precedence? op).isSome || op = "and" || op = "or"

/-- Operations, calls without arguments and subscripts over variables. -/
inductive Operation : Expression → Prop
  | var {name : String} (word : isIdentifier name.toList = true) : Operation (.var name)
  | methodCall {receiver : Expression} {method : String} (base : Operation receiver)
      (word : isIdentifier method.toList = true) : Operation (.methodCall receiver method [])
  | binary {op : String} {left right : Expression} (known : isOperator op = true) (first : Operation left)
      (second : Operation right) : Operation (.binary op left right)
  | unary {op : String} {inner : Expression} (sign : op ∈ signs) (operand : Operation inner) :
      Operation (.unary op inner)
  | index {base subscript : Expression} (first : Operation base) (second : Operation subscript) :
      Operation (.index base subscript)
  | assign {name : String} {value : Expression} (word : isIdentifier name.toList = true) (right : Operation value) :
      Operation (.assign (.var name) value)

/-! Signs in front of calls and subscripts -/

/-- What stands behind an operand. -/
inductive Suffix where
  | method (name : String) (args : List Expression)
  | subscript (expr : Expression)

namespace Suffix

def on (base : Expression) : Suffix → Expression
  | method name args => .methodCall base name args
  | subscript expr => .index base expr

/-- The suffix as it is read: behind the operand of a sign, not behind the operation. -/
def under (suffix : Suffix) : Expression → Expression
  | .unary op inner => .unary op (suffix.under inner)
  | base => suffix.on base

def allUnder (base : Expression) (suffixes : List Suffix) : Expression :=
  suffixes.foldl (fun base suffix => suffix.under base) base

theorem operand_unary (op : String) (inner : Expression) (rendered : String) :
    operand (.unary op inner) rendered = rendered := rfl

theorem operand_under (suffix : Suffix) (base : Expression) (rendered : String) :
    operand (suffix.under base) rendered = rendered := by
  cases suffix <;> cases base <;> rfl

theorem allUnder_unary (op : String) (inner : Expression) (suffixes : List Suffix) :
    allUnder (.unary op inner) suffixes = .unary op (allUnder inner suffixes) := by
  induction suffixes generalizing inner with
  | nil => rfl
  | cons suffix rest ih => exact ih (suffix.under inner)

def text : Suffix → String
  | method name args => looseCall ("." ++ name) (expressions args)
  | subscript expr => "[" ++ expression expr ++ "]"

theorem expression_on (base : Expression) (suffix : Suffix) :
    expression (suffix.on base) = operand base (expression base) ++ suffix.text := by
  cases suffix with
  | method name args =>
    rw [on, expression, text]
    unfold looseCall call
    split <;> simp only [String.append_assoc]
  | subscript expr => simp only [on, expression, text, String.append_assoc]

theorem expression_under (suffix : Suffix) (base : Expression) :
    expression (suffix.under base) = operand base (expression base) ++ suffix.text := by
  fun_induction under suffix base with
  | case1 op inner ih => simp only [expression, operand_under, operand_unary, ih, String.append_assoc]
  | case2 base _ => exact expression_on base suffix

end Suffix

/-- The expression with each sign in front of the calls and subscripts behind its operand. -/
def hoist : Expression → Expression
  | .methodCall receiver method args => (Suffix.method method args).under (hoist receiver)
  | .index base subscript => (Suffix.subscript (hoist subscript)).under (hoist base)
  | .binary op left right => .binary op (hoist left) (hoist right)
  | .unary op inner => .unary op (hoist inner)
  | .assign target value => .assign target (hoist value)
  | expr => expr

def isUnary : Expression → Bool
  | .unary .. => true
  | _ => false

/-- Whether no sign stands in front of a call's receiver or a subscript's base. -/
def basesUnsigned : Expression → Bool
  | .methodCall receiver _ _ => !isUnary receiver && basesUnsigned receiver
  | .index base subscript => !isUnary base && basesUnsigned base && basesUnsigned subscript
  | .binary _ left right => basesUnsigned left && basesUnsigned right
  | .unary _ inner => basesUnsigned inner
  | .assign _ value => basesUnsigned value
  | _ => true

theorem Suffix.under_of_unsigned (suffix : Suffix) {base : Expression} (unsigned : isUnary base = false) :
    suffix.under base = suffix.on base := by
  cases base <;> first | rfl | contradiction

theorem operand_hoist (expr : Expression) (rendered : String) : operand (hoist expr) rendered = operand expr rendered := by
  fun_cases hoist expr with
  | case1 receiver method args => rw [Suffix.operand_under]; rfl
  | case2 base subscript => rw [Suffix.operand_under]; rfl
  | case3 op left right => rfl
  | case4 op inner => rfl
  | case5 target value => rfl
  | case6 => rfl

theorem expression_hoist (expr : Expression) : expression (hoist expr) = expression expr := by
  fun_induction hoist expr with
  | case1 receiver method args ih =>
    rw [Suffix.expression_under, operand_hoist, ih, ← Suffix.expression_on, Suffix.on]
  | case2 base subscript inner ih =>
    have same : (Suffix.subscript (hoist subscript)).text = (Suffix.subscript subscript).text := by
      rw [Suffix.text, inner, Suffix.text]
    rw [Suffix.expression_under, operand_hoist, ih, same, ← Suffix.expression_on, Suffix.on]
  | case3 op left right first second => simp only [expression, operand_hoist, first, second]
  | case4 op inner ih => simp only [expression, operand_hoist, ih]
  | case5 target value ih => simp only [expression, ih]
  | case6 => rfl

theorem hoist_of_basesUnsigned {expr : Expression} (unsigned : basesUnsigned expr = true) : hoist expr = expr := by
  fun_induction hoist expr with
  | case1 receiver method args ih =>
    simp only [basesUnsigned, Bool.and_eq_true, Bool.not_eq_true'] at unsigned
    rw [ih unsigned.2, Suffix.under_of_unsigned _ unsigned.1, Suffix.on]
  | case2 base subscript inner ih =>
    simp only [basesUnsigned, Bool.and_eq_true, Bool.not_eq_true'] at unsigned
    rw [ih unsigned.1.2, inner unsigned.2, Suffix.under_of_unsigned _ unsigned.1.1, Suffix.on]
  | case3 op left right first second =>
    obtain ⟨front, back⟩ := Bool.and_eq_true_iff.1 unsigned
    rw [first front, second back]
  | case4 op inner ih => rw [ih unsigned]
  | case5 target value ih => rw [ih unsigned]
  | case6 => rfl

/-! Reading from the end -/

/-- The name that a text ends in, and what stands before it. Here and below the text is given from its end. -/
def nameBack : List Char → List Char × List Char
  | [] => ([], [])
  | c :: text =>
    if c = '?' ∨ c = '!' then (c :: text.takeWhile isNameChar, text.dropWhile isNameChar)
    else ((c :: text).takeWhile isNameChar, (c :: text).dropWhile isNameChar)

/-- The signs that stand before an operand. -/
def signsBack (expr : Expression) : List Char → Expression × List Char
  | '!' :: text => signsBack (.unary "!" expr) text
  | '-' :: text => signsBack (.unary "-" expr) text
  | '~' :: text => signsBack (.unary "~" expr) text
  | ' ' :: 't' :: 'o' :: 'n' :: text => signsBack (.unary "not" expr) text
  | text => (expr, text)

/-- The operator that stands before an operand. -/
def operatorBack? : List Char → Option (String × List Char)
  | ' ' :: text =>
    if text.takeWhile (· ≠ ' ') = ['='] then none
    else some (String.ofList (text.takeWhile (· ≠ ' ')).reverse, (text.dropWhile (· ≠ ' ')).tail)
  | _ => none

theorem length_nameBack_le (text : List Char) : (nameBack text).2.length ≤ text.length := by
  have short (chars : List Char) : (chars.dropWhile isNameChar).length ≤ chars.length :=
    (List.dropWhile_sublist _).length_le
  fun_cases nameBack text with
  | case1 => exact Nat.le_refl 0
  | case2 c text mark => exact Nat.le_succ_of_le (short text)
  | case3 c text mark => exact short (c :: text)

/-- The variables that a value is assigned to. -/
def targetsBack (value : Expression) : List Char → Expression × List Char
  | ' ' :: '=' :: ' ' :: text =>
    targetsBack (.assign (.var (String.ofList (nameBack text).1.reverse)) value) (nameBack text).2
  | text => (value, text)
termination_by text => text.length
decreasing_by
  have short := length_nameBack_le text
  simp only [List.length_cons]
  omega

mutual

/-- An operand with the signs before it and the suffixes behind it, and what stands before all of them. -/
def operandBack? : Nat → List Suffix → List Char → Option (Expression × List Char)
  | 0, _, _ => none
  | fuel + 1, suffixes, ')' :: text => do
    let (expr, front) ← expressionBack? fuel text
    return signsBack (Suffix.allUnder expr suffixes) front.tail
  | fuel + 1, suffixes, ']' :: text => do
    let (expr, front) ← expressionBack? fuel text
    operandBack? fuel (.subscript expr :: suffixes) front.tail
  | fuel + 1, suffixes, text =>
    let name := String.ofList (nameBack text).1.reverse
    match (nameBack text).2 with
    | '.' :: front => operandBack? fuel (.method name [] :: suffixes) front
    | front => some (signsBack (Suffix.allUnder (.var name) suffixes) front)

def expressionBack? : Nat → List Char → Option (Expression × List Char)
  | 0, _ => none
  | fuel + 1, text => do
    let (right, front) ← operandBack? fuel [] text
    match operatorBack? front with
    | some (op, front) =>
      let (left, front) ← operandBack? fuel [] front
      return targetsBack (.binary op left right) front
    | none => return targetsBack right front

end

/-- A text from its end. -/
def back (text : String) : List Char :=
  text.toList.reverse

theorem back_append (text more : String) : back (text ++ more) = back more ++ back text := by
  rw [back, String.toList_append, List.reverse_append]
  rfl

theorem ofList_reverse_back (text : String) : String.ofList (back text).reverse = text := by
  rw [back, List.reverse_reverse, String.ofList_toList]

/-- What stands before an operand: not more of its name, and not the dot of a call. -/
def Before (front : List Char) : Prop :=
  ∀ c ∈ front.head?, isNameChar c = false ∧ c ≠ '.'

/-- What stands before an expression: nothing, a bracket or an assignment. -/
def Outside (front : List Char) : Prop :=
  (∀ c ∈ front.head?, c = '(' ∨ c = '[') ∨ [' ', '=', ' '] <+: front

theorem before_cons {c : Char} (other : isNameChar c = false ∧ c ≠ '.') (front : List Char) : Before (c :: front) := by
  intro d head
  cases head
  exact other

theorem outside_bracket {c : Char} (bracket : c = '(' ∨ c = '[') (front : List Char) : Outside (c :: front) := by
  refine .inl fun d head => ?_
  cases head
  exact bracket

theorem Outside.cases {front : List Char} (outside : Outside front) :
    front = [] ∨ (∃ c rest, front = c :: rest ∧ (c = '(' ∨ c = '[')) ∨ ∃ rest, front = ' ' :: '=' :: ' ' :: rest := by
  obtain bracket | ⟨rest, rfl⟩ := outside
  · cases front with
    | nil => exact .inl rfl
    | cons c rest => exact .inr (.inl ⟨c, rest, rfl, bracket c rfl⟩)
  · exact .inr (.inr ⟨rest, rfl⟩)

theorem Outside.before {front : List Char} (outside : Outside front) : Before front := by
  obtain rfl | ⟨c, rest, rfl, rfl | rfl⟩ | ⟨rest, rfl⟩ := outside.cases
  · intro c head
    cases head
  · exact before_cons (by decide) rest
  · exact before_cons (by decide) rest
  · exact before_cons (by decide) _

theorem signsBack_of_outside {front : List Char} (outside : Outside front) (expr : Expression) :
    signsBack expr front = (expr, front) := by
  obtain rfl | ⟨c, rest, rfl, rfl | rfl⟩ | ⟨rest, rfl⟩ := outside.cases <;> rfl

theorem operatorBack?_of_outside {front : List Char} (outside : Outside front) : operatorBack? front = none := by
  obtain rfl | ⟨c, rest, rfl, rfl | rfl⟩ | ⟨rest, rfl⟩ := outside.cases
  · rfl
  · rfl
  · rfl
  · simp [operatorBack?]

theorem targetsBack_of_head {front : List Char} (bracket : ∀ c ∈ front.head?, c = '(' ∨ c = '[') (value : Expression) :
    targetsBack value front = (value, front) := by
  rw [targetsBack]
  rintro rest rfl
  obtain same | same := bracket ' ' rfl <;> cases same

/-! Names, signs and operators -/

theorem exists_stem {name : List Char} (word : isIdentifier name = true) :
    ∃ stem mark, name = stem ++ mark ∧ stem ≠ [] ∧ (∀ c ∈ stem, isNameChar c = true) ∧
      (mark = [] ∨ mark = ['?'] ∨ mark = ['!']) := by
  obtain ⟨letter, mark⟩ := Bool.and_eq_true_iff.1 word
  have mark := mark_cases mark
  refine ⟨name.takeWhile isNameChar, name.dropWhile isNameChar, List.takeWhile_append_dropWhile.symm, ?_,
    List.all_eq_true.1 List.all_takeWhile, mark⟩
  intro empty
  have whole : name = name.dropWhile isNameChar := by
    conv_lhs => rw [← List.takeWhile_append_dropWhile (p := isNameChar) (l := name), empty, List.nil_append]
  rw [← whole] at mark
  obtain rfl | rfl | rfl := mark <;> revert letter <;> decide

theorem nameBack_back {name : String} {front : List Char} (word : isIdentifier name.toList = true)
    (apart : ∀ c ∈ front.head?, isNameChar c = false) : nameBack (back name ++ front) = (back name, front) := by
  obtain ⟨stem, mark, split, filled, stems, mark⟩ := exists_stem word
  have names : ∀ c ∈ stem.reverse, isNameChar c = true := fun c mem => stems c (List.mem_reverse.1 mem)
  have stop : front.takeWhile isNameChar = [] ∧ front.dropWhile isNameChar = front := by
    cases front with
    | nil => exact ⟨rfl, rfl⟩
    | cons c front =>
      have other : ¬isNameChar c = true := Bool.not_eq_true _ ▸ apart c rfl
      exact ⟨List.takeWhile_cons_of_neg other, List.dropWhile_cons_of_neg other⟩
  have take : (stem.reverse ++ front).takeWhile isNameChar = stem.reverse := by
    rw [List.takeWhile_append_of_pos names, stop.1, List.append_nil]
  have drop : (stem.reverse ++ front).dropWhile isNameChar = front := by
    rw [List.dropWhile_append_of_pos names, stop.2]
  rw [back, split, List.reverse_append]
  obtain rfl | rfl | rfl := mark
  · rw [List.reverse_nil, List.nil_append]
    obtain ⟨c, rest, eq⟩ := List.exists_cons_of_ne_nil (List.reverse_ne_nil_iff.2 filled)
    have plain : ¬(c = '?' ∨ c = '!') := by
      have name := names c (eq ▸ List.mem_cons_self)
      rintro (rfl | rfl) <;> exact absurd name (by decide)
    rw [eq, List.cons_append, nameBack, if_neg plain, ← List.cons_append, ← eq, take, drop]
  · simp only [List.reverse_singleton, List.cons_append, List.nil_append, nameBack, true_or, if_true, take, drop]
  · simp only [List.reverse_singleton, List.cons_append, List.nil_append, nameBack, or_true, if_true, take, drop]

theorem back_ne_nil {name : String} (word : isIdentifier name.toList = true) : back name ≠ [] := by
  obtain ⟨stem, mark, split, filled, -, -⟩ := exists_stem word
  rw [back, split, Ne, List.reverse_eq_nil_iff, List.append_eq_nil_iff]
  exact fun empty => filled empty.1

def signText (op : String) : String :=
  op ++ if op = "not" then " " else ""

theorem sign_cases {op : String} (sign : op ∈ signs) : op = "!" ∨ op = "-" ∨ op = "~" ∨ op = "not" := by
  simpa [signs] using sign

theorem before_sign {op : String} (sign : op ∈ signs) (front : List Char) : Before (back (signText op) ++ front) := by
  obtain rfl | rfl | rfl | rfl := sign_cases sign <;> exact before_cons (by decide) _

theorem signsBack_sign {op : String} (sign : op ∈ signs) (expr : Expression) (front : List Char) :
    signsBack expr (back (signText op) ++ front) = signsBack (.unary op expr) front := by
  obtain rfl | rfl | rfl | rfl := sign_cases sign <;> rfl

/-- An operator is a word of its own that is not the one of an assignment and does not end as that of a sign. -/
theorem operator_spelled {op : String} (known : isOperator op = true) :
    (back op).all (· ≠ ' ') = true ∧ back op ≠ ['='] ∧ (back op).head?.any (· ≠ 't') = true := by
  unfold isOperator Grammar.precedence? at known
  split at known
  case h_24 =>
    obtain rfl | rfl : op = "and" ∨ op = "or" := by simpa using known
    all_goals decide
  all_goals decide

/-- What is written between the operands of an operator. -/
def between (op : String) : List Char :=
  ' ' :: (back op ++ [' '])

theorem before_between (op : String) (front : List Char) : Before (between op ++ front) :=
  before_cons (by decide) _

theorem operatorBack?_between {op : String} (known : isOperator op = true) (front : List Char) :
    operatorBack? (between op ++ front) = some (op, front) := by
  obtain ⟨spaceless, other, -⟩ := operator_spelled known
  have word : ∀ c ∈ back op, decide (c ≠ ' ') = true := List.all_eq_true.1 spaceless
  have take : (back op ++ ' ' :: front).takeWhile (· ≠ ' ') = back op := by
    rw [List.takeWhile_append_of_pos word, List.takeWhile_cons_of_neg (by decide), List.append_nil]
  have drop : (back op ++ ' ' :: front).dropWhile (· ≠ ' ') = ' ' :: front := by
    rw [List.dropWhile_append_of_pos word, List.dropWhile_cons_of_neg (by decide)]
  rw [between, List.cons_append, List.append_assoc, List.singleton_append, operatorBack?, take, drop, if_neg other,
    ofList_reverse_back, List.tail_cons]

theorem signsBack_between {op : String} (known : isOperator op = true) (expr : Expression) (front : List Char) :
    signsBack expr (between op ++ front) = (expr, between op ++ front) := by
  obtain ⟨-, -, head⟩ := operator_spelled known
  rw [signsBack]
  · rintro rest same
    cases same
  · rintro rest same
    cases same
  · rintro rest same
    cases same
  · intro rest same
    have word : back op ++ ' ' :: front = 't' :: 'o' :: 'n' :: rest := by
      simpa [between] using same
    cases spelled : back op with
    | nil =>
      rw [spelled] at word
      cases word
    | cons c others =>
      rw [spelled] at word head
      obtain ⟨rfl, -⟩ := List.cons.inj word
      contradiction

/-! Reading what was written -/

def Reads (expr : Expression) : Prop :=
  ∃ least, ∀ fuel ≥ least, ∀ front, Outside front →
    expressionBack? fuel (back (expression expr) ++ front) = some (targetsBack (hoist expr) front)

def ReadsOperand (expr : Expression) : Prop :=
  ∃ least, ∀ fuel ≥ least, ∀ suffixes front, Before front →
    operandBack? fuel suffixes (back (operand expr (expression expr)) ++ front) =
      some (signsBack (Suffix.allUnder (hoist expr) suffixes) front)

section

variable {op name method : String} {expr base subscript left right inner value : Expression}

theorem reads_of_operand (whole : ∀ rendered, operand expr rendered = rendered) (reads : ReadsOperand expr) :
    Reads expr := by
  obtain ⟨least, reads⟩ := reads
  refine ⟨least + 1, fun fuel enough front outside => ?_⟩
  obtain _ | fuel := fuel
  · omega
  have read := reads fuel (by omega) [] front outside.before
  rw [whole, signsBack_of_outside outside] at read
  rw [expressionBack?, read, Option.bind_eq_bind, Option.bind_some]
  simp only [operatorBack?_of_outside outside]
  rfl

theorem readsOperand_of_grouped (grouped : ∀ rendered, operand expr rendered = "(" ++ rendered ++ ")")
    (reads : Reads expr) : ReadsOperand expr := by
  obtain ⟨least, reads⟩ := reads
  refine ⟨least + 1, fun fuel enough suffixes front _ => ?_⟩
  obtain _ | fuel := fuel
  · omega
  have outside : Outside ('(' :: front) := outside_bracket (.inl rfl) front
  have text : back (operand expr (expression expr)) ++ front = ')' :: (back (expression expr) ++ '(' :: front) := by
    rw [grouped, back_append, back_append, List.append_assoc, List.append_assoc]
    rfl
  rw [text, operandBack?, reads fuel (by omega) _ outside, Option.bind_eq_bind, Option.bind_some,
    targetsBack_of_head]
  · rfl
  · intro c head
    cases head
    exact .inl rfl

theorem ne_bracket_cons (word : isIdentifier name.toList = true) {front : List Char}
    (apart : ∀ c ∈ front.head?, isNameChar c = false) {c : Char} (bracket : c = ')' ∨ c = ']') (text : List Char) :
    back name ++ front ≠ c :: text := by
  intro same
  have read := nameBack_back word apart
  rw [same] at read
  obtain rfl | rfl := bracket <;> exact back_ne_nil word (Prod.mk.inj read).1.symm

theorem operandBack?_method (word : isIdentifier name.toList = true) (fuel : Nat) (suffixes : List Suffix)
    (front : List Char) : operandBack? (fuel + 1) suffixes (back name ++ '.' :: front) =
      operandBack? fuel (.method name [] :: suffixes) front := by
  have apart : ∀ c ∈ ('.' :: front).head?, isNameChar c = false := by
    intro c head
    cases head
    decide
  rw [operandBack?, nameBack_back word apart, ofList_reverse_back]
  · rfl
  · exact ne_bracket_cons word apart (.inl rfl)
  · exact ne_bracket_cons word apart (.inr rfl)

theorem operandBack?_var (word : isIdentifier name.toList = true) {front : List Char} (before : Before front)
    (fuel : Nat) (suffixes : List Suffix) : operandBack? (fuel + 1) suffixes (back name ++ front) =
      some (signsBack (Suffix.allUnder (.var name) suffixes) front) := by
  have apart : ∀ c ∈ front.head?, isNameChar c = false := fun c head => (before c head).1
  rw [operandBack?, nameBack_back word apart, ofList_reverse_back]
  · cases front with
    | nil => rfl
    | cons c front =>
      have plain : c ≠ '.' := (before c rfl).2
      split
      · rename_i dot
        exact absurd (List.cons.inj dot).1 plain
      · rfl
  · exact ne_bracket_cons word apart (.inl rfl)
  · exact ne_bracket_cons word apart (.inr rfl)

theorem readsOperand_var (word : isIdentifier name.toList = true) : ReadsOperand (.var name) := by
  refine ⟨1, fun fuel enough suffixes front before => ?_⟩
  obtain _ | fuel := fuel
  · omega
  exact operandBack?_var word before fuel suffixes

theorem readsOperand_methodCall (reads : ReadsOperand base) (word : isIdentifier method.toList = true) :
    ReadsOperand (.methodCall base method []) := by
  obtain ⟨least, reads⟩ := reads
  refine ⟨least + 1, fun fuel enough suffixes front before => ?_⟩
  obtain _ | fuel := fuel
  · omega
  have text : back (operand (.methodCall base method []) (expression (.methodCall base method []))) ++ front =
      back method ++ '.' :: (back (operand base (expression base)) ++ front) := by
    change back (operand base (expression base) ++ "." ++ method) ++ front = _
    rw [back_append, back_append, List.append_assoc, List.append_assoc]
    rfl
  rw [text, operandBack?_method word]
  exact reads fuel (by omega) (.method method [] :: suffixes) front before

theorem readsOperand_index (reads : ReadsOperand base) (inside : Reads subscript) :
    ReadsOperand (.index base subscript) := by
  obtain ⟨least, reads⟩ := reads
  obtain ⟨most, inside⟩ := inside
  refine ⟨max least most + 1, fun fuel enough suffixes front before => ?_⟩
  obtain _ | fuel := fuel
  · omega
  have text : back (operand (.index base subscript) (expression (.index base subscript))) ++ front =
      ']' :: (back (expression subscript) ++ '[' :: (back (operand base (expression base)) ++ front)) := by
    change back (operand base (expression base) ++ "[" ++ expression subscript ++ "]") ++ front = _
    rw [back_append, back_append, back_append]
    simp only [List.append_assoc]
    rfl
  rw [text, operandBack?, inside fuel (by omega) _ (outside_bracket (.inr rfl) _), Option.bind_eq_bind,
    Option.bind_some, targetsBack_of_head]
  · exact reads fuel (by omega) (.subscript (hoist subscript) :: suffixes) front before
  · intro c head
    cases head
    exact .inr rfl

theorem readsOperand_unary (sign : op ∈ signs) (reads : ReadsOperand inner) : ReadsOperand (.unary op inner) := by
  obtain ⟨least, reads⟩ := reads
  refine ⟨least, fun fuel enough suffixes front before => ?_⟩
  rw [Suffix.operand_unary, expression, back_append, ← signText, List.append_assoc,
    reads fuel enough suffixes _ (before_sign sign front), signsBack_sign sign, hoist, Suffix.allUnder_unary]

theorem reads_binary (known : isOperator op = true) (first : ReadsOperand left) (second : ReadsOperand right) :
    Reads (.binary op left right) := by
  obtain ⟨least, first⟩ := first
  obtain ⟨most, second⟩ := second
  refine ⟨max least most + 1, fun fuel enough front outside => ?_⟩
  obtain _ | fuel := fuel
  · omega
  have text : back (expression (.binary op left right)) ++ front =
      back (operand right (expression right)) ++ (between op ++ (back (operand left (expression left)) ++ front)) := by
    simp only [expression, back_append, between, List.append_assoc, List.cons_append]
    rfl
  have read := first fuel (by omega) [] front outside.before
  rw [signsBack_of_outside outside] at read
  rw [text, expressionBack?, second fuel (by omega) [] _ (before_between op _), signsBack_between known,
    Option.bind_eq_bind, Option.bind_some]
  simp only [operatorBack?_between known]
  rw [read]
  rfl

theorem reads_assign (word : isIdentifier name.toList = true) (reads : Reads value) :
    Reads (.assign (.var name) value) := by
  obtain ⟨least, reads⟩ := reads
  refine ⟨least, fun fuel enough front outside => ?_⟩
  have text : back (expression (.assign (.var name) value)) ++ front =
      back (expression value) ++ (' ' :: '=' :: ' ' :: (back name ++ front)) := by
    rw [expression, expression, back_append, back_append, List.append_assoc, List.append_assoc]
    rfl
  have assigned : Outside (' ' :: '=' :: ' ' :: (back name ++ front)) := .inr ⟨_, rfl⟩
  rw [text, reads fuel enough _ assigned, targetsBack, nameBack_back word fun c head => (outside.before c head).1,
    ofList_reverse_back, hoist]

end

theorem reads_of_operation {expr : Expression} (operation : Operation expr) : ReadsOperand expr ∧ Reads expr := by
  induction operation with
  | var word =>
    have reads := readsOperand_var word
    exact ⟨reads, reads_of_operand (fun _ => rfl) reads⟩
  | methodCall base word ih =>
    have reads := readsOperand_methodCall ih.1 word
    exact ⟨reads, reads_of_operand (fun _ => rfl) reads⟩
  | binary known first second left right =>
    have reads := reads_binary known left.1 right.1
    exact ⟨readsOperand_of_grouped (fun _ => rfl) reads, reads⟩
  | unary sign operand ih =>
    have reads := readsOperand_unary sign ih.1
    exact ⟨reads, reads_of_operand (fun _ => rfl) reads⟩
  | index first second base subscript =>
    have reads := readsOperand_index base.1 subscript.2
    exact ⟨reads, reads_of_operand (fun _ => rfl) reads⟩
  | assign word right ih =>
    have reads := reads_assign word ih.2
    exact ⟨readsOperand_of_grouped (fun _ => rfl) reads, reads⟩

theorem hoist_eq_of_expression_eq {expr other : Expression} (operation : Operation expr) (operation' : Operation other)
    (same : expression expr = expression other) : hoist expr = hoist other := by
  obtain ⟨least, reads⟩ := (reads_of_operation operation).2
  obtain ⟨least', reads'⟩ := (reads_of_operation operation').2
  have bracket : ∀ c ∈ ([] : List Char).head?, c = '(' ∨ c = '[' := by
    intro c head
    cases head
  have read := reads (max least least') (by omega) [] (.inl bracket)
  have read' := reads' (max least least') (by omega) [] (.inl bracket)
  rw [targetsBack_of_head bracket] at read read'
  rw [same, read'] at read
  exact (Prod.mk.inj (Option.some.inj read)).1.symm

/-- Two operations have the same text exactly when they are the same with each sign in front of the calls and
subscripts behind its operand. Where no sign stands in front of a receiver or a base, the text gives the expression. -/
theorem expression_operation_eq_iff {expr other : Expression} (operation : Operation expr)
    (operation' : Operation other) :
    (expression expr = expression other ↔ hoist expr = hoist other) ∧
      (basesUnsigned expr = true → basesUnsigned other = true → expression expr = expression other → expr = other) := by
  have reads : expression expr = expression other → hoist expr = hoist other :=
    hoist_eq_of_expression_eq operation operation'
  refine ⟨⟨reads, fun same => ?_⟩, fun unsigned unsigned' same => ?_⟩
  · rw [← expression_hoist expr, same, expression_hoist]
  · rw [← hoist_of_basesUnsigned unsigned, reads same, hoist_of_basesUnsigned unsigned']

/-- `a - (b - c)` and `(a - b) - c` are written apart. -/
theorem expression_operation_eq_iff_difference :
    let first : Expression := .binary "-" (.var "a") (.binary "-" (.var "b") (.var "c"))
    let second : Expression := .binary "-" (.binary "-" (.var "a") (.var "b")) (.var "c")
    Operation first ∧ Operation second ∧ expression first ≠ expression second := by
  intro first second
  have a : Operation (.var "a") := .var (by decide)
  have b : Operation (.var "b") := .var (by decide)
  have c : Operation (.var "c") := .var (by decide)
  have operation : Operation first := .binary (by decide) a (.binary (by decide) b c)
  have operation' : Operation second := .binary (by decide) (.binary (by decide) a b) c
  refine ⟨operation, operation', fun same => ?_⟩
  have equal : first = second := (expression_operation_eq_iff operation operation').2 (by decide) (by decide) same
  injection equal with _ left
  cases left

/-- A call on a negation has the text of the negation of a call. -/
theorem exists_grouping_lost :
    ∃ expr other, Operation expr ∧ Operation other ∧ expression expr = "!a.b" ∧ expression other = "!a.b" ∧
      expr ≠ other := by
  have a : Operation (.var "a") := .var (by decide)
  refine ⟨.methodCall (.unary "!" (.var "a")) "b" [], .unary "!" (.methodCall (.var "a") "b" []),
    .methodCall (.unary (by decide) a) (by decide), .unary (by decide) (.methodCall a (by decide)), by decide, by decide,
    fun same => ?_⟩
  cases same

end Formulary.Layout

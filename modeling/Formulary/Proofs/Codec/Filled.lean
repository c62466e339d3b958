import Formulary.Proofs.Codec.Written

/-!
What is read of a JSON value is written as that value with its defaults filled in. Values are read from the outside in,
so the proof is by induction on their size.
-/

namespace Formulary.Codec

open JsonValue (field? stringField?)

/-! What is read is filled in -/

/-- What a field holds that was left out. -/
def defaults : List (String × JsonValue) :=
  [("parts", .array []), ("args", .array []), ("receiver", .null), ("else_branch", .null)]

/-- The second value is the first one with every field that it leaves out set to its default, with the fields of its
type alone, and with each integer written as one. -/
inductive Fills : JsonValue → JsonValue → Prop
  | null : Fills .null .null
  | string (value : String) : Fills (.string value) (.string value)
  | int {value : JsonValue} {n : Int} : int? value = some n → Fills value (.int n)
  | array {items items' : List JsonValue} : items.length = items'.length →
      (∀ pair ∈ items.zip items', Fills pair.1 pair.2) → Fills (.array items) (.array items')
  | object {fields fields' : List (String × JsonValue)} :
      (∀ field ∈ fields', ∀ value, field? field.1 fields = some value → Fills value field.2) →
      (∀ field ∈ fields', field? field.1 fields = none → field ∈ defaults) → Fills (.object fields) (.object fields')

/-- A field is filled in from these. -/
structure Filled (fields : List (String × JsonValue)) (field : String × JsonValue) : Prop where
  given : ∀ value, field? field.1 fields = some value → Fills value field.2
  missing : field? field.1 fields = none → field ∈ defaults

variable {fields fields' : List (String × JsonValue)} {name : String} {n : Nat}

theorem Filled.of_given {value value' : JsonValue} (there : field? name fields = some value)
    (fills : Fills value value') : Filled fields (name, value') where
  given other there' := Option.some.inj (there.symm.trans there') ▸ fills
  missing none := by simp [there] at none

theorem Filled.of_missing {value' : JsonValue} (none : field? name fields = none)
    (default : (name, value') ∈ defaults) : Filled fields (name, value') where
  given other there := by simp [none] at there
  missing _ := default

theorem filled_string {value : String} (read : stringField? name fields = some value) :
    Filled fields (name, .string value) := by
  obtain ⟨given, there, spelled⟩ := Option.bind_eq_some_iff.1 read
  cases given with
  | string text =>
    obtain rfl := Option.some.inj spelled
    exact .of_given there (.string text)
  | _ => contradiction

theorem filled_int {value : Int} (read : intField? name fields = some value) : Filled fields (name, .int value) := by
  obtain ⟨given, there, spelled⟩ := Option.bind_eq_some_iff.1 read
  exact .of_given there (.int spelled)

theorem fills_tagged {type : String} (typed : stringField? "type" fields = some type)
    (all : ∀ field ∈ fields', Filled fields field) : Fills (.object fields) (tagged type fields') := by
  have whole : ∀ field ∈ ("type", JsonValue.string type) :: fields', Filled fields field :=
    List.forall_mem_cons.2 ⟨filled_string typed, all⟩
  exact .object (fun field mem => (whole field mem).given) fun field mem => (whole field mem).missing

theorem sizeOf_lt_of_field? {value : JsonValue} (there : field? name fields = some value) :
    sizeOf value < sizeOf (JsonValue.object fields) := by
  obtain ⟨⟨key, found⟩, hfind, rfl⟩ := Option.map_eq_some_iff.1 there
  have smaller := List.sizeOf_lt_of_mem (List.mem_of_find?_eq_some hfind)
  simp only [Prod.mk.sizeOf_spec, JsonValue.object.sizeOf_spec] at smaller ⊢
  omega

/-! Lists are read item by item -/

section Lists

variable {α : Type} {read? : JsonValue → Option α} {write : α → JsonValue}

def listOf? (read? : JsonValue → Option α) : JsonValue → Option (List α)
  | .array items => items.mapM read?
  | _ => none

theorem fills_mapM {items : List JsonValue} {found : List α}
    (each : ∀ item ∈ items, ∀ value, read? item = some value → Fills item (write value))
    (read : items.mapM read? = some found) : Fills (.array items) (.array (found.map write)) := by
  refine .array ?_ ?_
  · induction items generalizing found with
    | nil => simp_all
    | cons item more ih =>
      simp only [List.mapM_cons, Option.bind_eq_bind, Option.bind_eq_some_iff] at read
      obtain ⟨value, -, values, others, same⟩ := read
      obtain rfl := Option.some.inj same
      simpa using ih (fun item mem => each item (List.mem_cons_of_mem _ mem)) others
  · induction items generalizing found with
    | nil => simp
    | cons item more ih =>
      simp only [List.mapM_cons, Option.bind_eq_bind, Option.bind_eq_some_iff] at read
      obtain ⟨value, first, values, others, same⟩ := read
      obtain rfl := Option.some.inj same
      exact List.forall_mem_cons.2 ⟨each item List.mem_cons_self value first,
        ih (fun item mem => each item (List.mem_cons_of_mem _ mem)) others⟩

theorem fills_listOf? {given : JsonValue} {found : List α}
    (each : ∀ item value, sizeOf item < sizeOf given → read? item = some value → Fills item (write value))
    (read : listOf? read? given = some found) : Fills given (.array (found.map write)) := by
  cases given with
  | array items =>
    refine fills_mapM (fun item mem value => each item value ?_) read
    have := List.sizeOf_lt_of_mem mem
    simp only [JsonValue.array.sizeOf_spec]
    omega
  | _ => contradiction

theorem filled_list {found : List α} (default : (name, .array []) ∈ defaults)
    (each : ∀ item value, sizeOf item < sizeOf (JsonValue.object fields) → read? item = some value →
      Fills item (write value))
    (read : (field? name fields).elim (some []) (listOf? read?) = some found) :
    Filled fields (name, .array (found.map write)) := by
  cases there : field? name fields with
  | none =>
    rw [there] at read
    obtain rfl := Option.some.inj read
    exact .of_missing there default
  | some given =>
    rw [there] at read
    exact .of_given there (fills_listOf? (fun item value less => each item value
      (Nat.lt_trans less (sizeOf_lt_of_field? there))) read)

end Lists

theorem expressions?_eq (items : List JsonValue) : expressions? items = items.mapM expression? := by
  induction items with
  | nil => rfl
  | cons item more ih => rw [expressions?, ih, List.mapM_cons]

theorem parts?_eq (items : List JsonValue) : parts? items = items.mapM part? := by
  induction items with
  | nil => rfl
  | cons item more ih => rw [parts?, ih, List.mapM_cons]

theorem instructions?_eq (items : List JsonValue) : instructions? items = items.mapM instruction? := by
  induction items with
  | nil => rfl
  | cons item more ih => rw [instructions?, ih, List.mapM_cons]

theorem ofExpressions_eq (exprs : List Expression) : ofExpressions exprs = exprs.map ofExpression := by
  induction exprs with
  | nil => rfl
  | cons expr more ih => rw [ofExpressions, ih, List.map_cons]

theorem ofParts_eq (parts : List (Part Expression)) : ofParts parts = parts.map ofPart := by
  induction parts with
  | nil => rfl
  | cons part more ih => rw [ofParts, ih, List.map_cons]

theorem ofInstructions_eq (list : List Instruction) : ofInstructions list = list.map ofInstruction := by
  induction list with
  | nil => rfl
  | cons instruction more ih => rw [ofInstructions, ih, List.map_cons]

theorem expressionField?_eq (name : String) (fields : List (String × JsonValue)) :
    expressionField? name fields = (field? name fields).bind expression? := by
  induction fields with
  | nil => rfl
  | cons field more ih =>
    rw [expressionField?, field?_cons, ih]
    split <;> rfl

theorem expressionsField?_eq (name : String) (fields : List (String × JsonValue)) :
    expressionsField? name fields = (field? name fields).elim (some []) (listOf? expression?) := by
  induction fields with
  | nil => rfl
  | cons field more ih =>
    obtain ⟨key, value⟩ := field
    rw [expressionsField?.eq_def, field?_cons]
    dsimp only
    rw [ih]
    split
    · cases value <;> simp [listOf?, expressions?_eq]
    · rfl

theorem partsField?_eq (name : String) (fields : List (String × JsonValue)) :
    partsField? name fields = (field? name fields).elim (some []) (listOf? part?) := by
  induction fields with
  | nil => rfl
  | cons field more ih =>
    obtain ⟨key, value⟩ := field
    rw [partsField?.eq_def, field?_cons]
    dsimp only
    rw [ih]
    split
    · cases value <;> simp [listOf?, parts?_eq]
    · rfl

theorem thenField?_eq (fields : List (String × JsonValue)) :
    thenField? fields = (field? "then_branch" fields).bind (listOf? instruction?) := by
  induction fields with
  | nil => rfl
  | cons field more ih =>
    obtain ⟨key, value⟩ := field
    rw [thenField?.eq_def, field?_cons]
    dsimp only
    rw [ih]
    split
    · cases value <;> simp [listOf?, instructions?_eq]
    · rfl

theorem elseField?_eq (fields : List (String × JsonValue)) :
    elseField? fields = match field? "else_branch" fields with
      | none | some .null => some none
      | some value => (listOf? instruction? value).map some := by
  induction fields with
  | nil => rfl
  | cons field more ih =>
    obtain ⟨key, value⟩ := field
    rw [elseField?.eq_def, field?_cons]
    dsimp only
    rw [ih]
    split
    · cases value <;> simp [listOf?, instructions?_eq]
    · rfl

/-! Expressions and instructions are filled in -/

section Expressions

variable (below : ∀ value expr, sizeOf value < n → expression? value = some expr → Fills value (ofExpression expr))
include below

theorem filled_expression {expr : Expression} (within : sizeOf (JsonValue.object fields) ≤ n)
    (read : expressionField? name fields = some expr) : Filled fields (name, ofExpression expr) := by
  rw [expressionField?_eq] at read
  obtain ⟨given, there, read⟩ := Option.bind_eq_some_iff.1 read
  exact .of_given there (below given expr (Nat.lt_of_lt_of_le (sizeOf_lt_of_field? there) within) read)

theorem filled_expressions {exprs : List Expression} (within : sizeOf (JsonValue.object fields) ≤ n)
    (read : expressionsField? "args" fields = some exprs) : Filled fields ("args", .array (ofExpressions exprs)) := by
  rw [expressionsField?_eq] at read
  rw [ofExpressions_eq]
  exact filled_list (by simp [defaults]) (fun item value less => below item value (Nat.lt_of_lt_of_le less within)) read

theorem fills_part {value : JsonValue} {part : Part Expression} (within : sizeOf value < n)
    (read : part? value = some part) : Fills value (ofPart part) := by
  cases value with
  | object fields =>
    unfold part? at read
    simp only [Option.bind_eq_bind, Option.pure_def] at read
    split at read
    · rename_i typed
      obtain ⟨text, first, read⟩ := Option.bind_eq_some_iff.1 read
      obtain rfl := Option.some.inj read
      exact fills_tagged typed (by simp [filled_string first])
    · rename_i typed
      obtain ⟨expr, first, read⟩ := Option.bind_eq_some_iff.1 read
      obtain rfl := Option.some.inj read
      exact fills_tagged typed (by simp [filled_expression below (Nat.le_of_lt within) first])
    · contradiction
  | _ => simp [part?] at read

theorem filled_parts {parts : List (Part Expression)} (within : sizeOf (JsonValue.object fields) ≤ n)
    (read : partsField? "parts" fields = some parts) : Filled fields ("parts", .array (ofParts parts)) := by
  rw [partsField?_eq] at read
  rw [ofParts_eq]
  exact filled_list (by simp [defaults]) (fun item value less => fills_part below (Nat.lt_of_lt_of_le less within)) read

theorem fills_expression_of_below {expr : Expression} (within : sizeOf (JsonValue.object fields) ≤ n)
    (read : expression? (.object fields) = some expr) : Fills (.object fields) (ofExpression expr) := by
  unfold expression? at read
  simp only [Option.bind_eq_bind, Option.pure_def] at read
  have expression {name : String} {expr : Expression} (read : expressionField? name fields = some expr) :
      Filled fields (name, ofExpression expr) := filled_expression below within read
  have expressions {exprs : List Expression} (read : expressionsField? "args" fields = some exprs) :
      Filled fields ("args", .array (ofExpressions exprs)) := filled_expressions below within read
  split at read
  case h_13 => contradiction
  all_goals
    rename_i typed
    obtain ⟨first, hfirst, read⟩ := Option.bind_eq_some_iff.1 read
  case h_1 =>
    obtain rfl := Option.some.inj read
    exact fills_tagged typed (by simp [filled_parts below within hfirst])
  case h_2 | h_9 =>
    obtain rfl := Option.some.inj read
    exact fills_tagged typed (by simp [filled_string hfirst])
  case h_7 | h_10 =>
    obtain rfl := Option.some.inj read
    exact fills_tagged typed (by simp [filled_int hfirst])
  case h_12 =>
    obtain rfl := Option.some.inj read
    exact fills_tagged typed (by simp [expression hfirst])
  all_goals obtain ⟨second, hsecond, read⟩ := Option.bind_eq_some_iff.1 read
  case h_3 =>
    obtain rfl := Option.some.inj read
    exact fills_tagged typed (by simp [filled_string hfirst, expressions hsecond])
  case h_6 =>
    obtain rfl := Option.some.inj read
    exact fills_tagged typed (by simp [filled_string hfirst, expression hsecond])
  case h_8 | h_11 =>
    obtain rfl := Option.some.inj read
    exact fills_tagged typed (by simp [expression hfirst, expression hsecond])
  all_goals
    obtain ⟨third, hthird, read⟩ := Option.bind_eq_some_iff.1 read
    obtain rfl := Option.some.inj read
  case h_4 => exact fills_tagged typed (by simp [expression hfirst, filled_string hsecond, expressions hthird])
  case h_5 => exact fills_tagged typed (by simp [filled_string hfirst, expression hsecond, expression hthird])

end Expressions

theorem fills_expression {value : JsonValue} {expr : Expression} (read : expression? value = some expr) :
    Fills value (ofExpression expr) := by
  induction bound : sizeOf value using Nat.strongRecOn generalizing value expr with
  | ind n ih =>
    cases value with
    | object fields =>
      exact fills_expression_of_below (fun value expr less read => ih _ less read rfl) (Nat.le_of_eq bound) read
    | _ => simp [expression?] at read

theorem filled_receiver {receiver : Option Expression} (read : receiverField? fields = some receiver) :
    Filled fields ("receiver", (receiver.map ofExpression).getD .null) := by
  unfold receiverField? at read
  split at read
  · rename_i none
    obtain rfl := Option.some.inj read
    exact .of_missing none (by simp [defaults])
  · rename_i null
    obtain rfl := Option.some.inj read
    exact .of_given null .null
  · rename_i there
    obtain ⟨expr, hexpr, rfl⟩ := Option.map_eq_some_iff.1 read
    exact .of_given there (fills_expression hexpr)

section Instructions

variable (below : ∀ value instruction, sizeOf value < n → instruction? value = some instruction →
  Fills value (ofInstruction instruction))
include below

theorem fills_instructions {value : JsonValue} {list : List Instruction} (within : sizeOf value ≤ n)
    (read : listOf? instruction? value = some list) : Fills value (.array (ofInstructions list)) := by
  rw [ofInstructions_eq]
  exact fills_listOf? (fun item value less => below item value (Nat.lt_of_lt_of_le less within)) read

theorem filled_else {branch : Option (List Instruction)} (within : sizeOf (JsonValue.object fields) ≤ n)
    (read : elseField? fields = some branch) : Filled fields ("else_branch", ofElse branch) := by
  rw [elseField?_eq] at read
  split at read
  · rename_i none
    obtain rfl := Option.some.inj read
    exact .of_missing none (by simp [defaults, ofElse])
  · rename_i null
    obtain rfl := Option.some.inj read
    exact .of_given null .null
  · rename_i there
    obtain ⟨list, hlist, rfl⟩ := Option.map_eq_some_iff.1 read
    have less := sizeOf_lt_of_field? there
    exact .of_given there (fills_instructions below (by omega) hlist)

theorem fills_instruction_of_below {instruction : Instruction} (within : sizeOf (JsonValue.object fields) ≤ n)
    (read : instruction? (.object fields) = some instruction) :
    Fills (.object fields) (ofInstruction instruction) := by
  unfold instruction? at read
  simp only [Option.bind_eq_bind, Option.pure_def] at read
  split at read
  · rename_i typed
    obtain ⟨name, hname, read⟩ := Option.bind_eq_some_iff.1 read
    obtain ⟨receiver, hreceiver, read⟩ := Option.bind_eq_some_iff.1 read
    obtain ⟨args, hargs, read⟩ := Option.bind_eq_some_iff.1 read
    obtain rfl := Option.some.inj read
    have args := filled_expressions (fun _ _ _ => fills_expression) (Nat.le_refl _) hargs
    exact fills_tagged typed (by simp [filled_string hname, filled_receiver hreceiver, args])
  · rename_i typed
    obtain ⟨polarity, hpolarity, read⟩ := Option.bind_eq_some_iff.1 read
    obtain ⟨cond, hcond, read⟩ := Option.bind_eq_some_iff.1 read
    obtain ⟨thenBranch, hthen, read⟩ := Option.bind_eq_some_iff.1 read
    obtain ⟨elseBranch, helse, read⟩ := Option.bind_eq_some_iff.1 read
    obtain rfl := Option.some.inj read
    obtain ⟨kind, hkind, spelled⟩ := Option.bind_eq_some_iff.1 hpolarity
    have word : kind = polarity.branchWord := by
      unfold polarity? at spelled
      split at spelled
      · exact Option.some.inj spelled ▸ rfl
      · exact Option.some.inj spelled ▸ rfl
      · contradiction
    obtain ⟨given, there, hgiven⟩ := Option.bind_eq_some_iff.1 hcond
    rw [thenField?_eq] at hthen
    obtain ⟨items, there', hitems⟩ := Option.bind_eq_some_iff.1 hthen
    have less := sizeOf_lt_of_field? there'
    have kind : Filled fields ("kind", .string polarity.branchWord) := filled_string (word ▸ hkind)
    have cond : Filled fields ("cond", ofExpression cond) := .of_given there (fills_expression hgiven)
    have branch : Filled fields ("then_branch", .array (ofInstructions thenBranch)) :=
      .of_given there' (fills_instructions below (by omega) hitems)
    exact fills_tagged typed (by simp [kind, cond, branch, filled_else below within helse])
  · rename_i typed
    obtain ⟨expr, hexpr, read⟩ := Option.bind_eq_some_iff.1 read
    obtain rfl := Option.some.inj read
    obtain ⟨given, there, hgiven⟩ := Option.bind_eq_some_iff.1 hexpr
    exact fills_tagged typed (by simp [Filled.of_given there (fills_expression hgiven)])
  · contradiction

end Instructions

theorem fills_instruction {value : JsonValue} {instruction : Instruction}
    (read : instruction? value = some instruction) : Fills value (ofInstruction instruction) := by
  induction bound : sizeOf value using Nat.strongRecOn generalizing value instruction with
  | ind n ih =>
    cases value with
    | object fields =>
      exact fills_instruction_of_below (fun value instruction less read => ih _ less read rfl) (Nat.le_of_eq bound) read
    | _ => simp [instruction?] at read

end Formulary.Codec

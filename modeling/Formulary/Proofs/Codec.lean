import Formulary.Instruction.Layout
import Formulary.Proofs.Codec.Filled

/-!
Instructions survive being written as JSON and read again. The types of instructions and those of expressions are apart,
so neither is read where the other is called for.
-/

namespace Formulary.Codec

open JsonValue (field? stringField?)

/-! Types -/

def instructionTypes : List String :=
  ["command", "conditional", "expression"]

/-- An instruction is read off an object with the type of an instruction. -/
theorem type_of_instruction? {value : JsonValue} {instruction : Instruction}
    (read : instruction? value = some instruction) :
    ∃ fields type, value = .object fields ∧ stringField? "type" fields = some type ∧ type ∈ instructionTypes := by
  cases value with
  | object fields =>
    unfold instruction? at read
    split at read
    · exact ⟨fields, _, rfl, ‹_›, by decide⟩
    · exact ⟨fields, _, rfl, ‹_›, by decide⟩
    · exact ⟨fields, _, rfl, ‹_›, by decide⟩
    · contradiction
  | _ => simp [instruction?] at read

theorem expression?_of_instructionType {fields : List (String × JsonValue)} {type : String}
    (typed : stringField? "type" fields = some type) (mem : type ∈ instructionTypes) :
    expression? (.object fields) = none := by
  unfold expression?
  rw [typed]
  simp only [instructionTypes, List.mem_cons, List.not_mem_nil, or_false] at mem
  obtain rfl | rfl | rfl := mem <;> rfl

/-- No value is read both as an instruction and as an expression. -/
theorem expression?_of_instruction? {value : JsonValue} (read : instruction? value ≠ none) :
    expression? value = none := by
  obtain ⟨instruction, read⟩ := Option.ne_none_iff_exists'.1 read
  obtain ⟨fields, type, rfl, typed, mem⟩ := type_of_instruction? read
  exact expression?_of_instructionType typed mem

/-! Whole lists -/

theorem mapM_eq_none_of_mem {α : Type} {read? : JsonValue → Option α} {value : JsonValue} {items : List JsonValue}
    (refused : read? value = none) (mem : value ∈ items) : items.mapM read? = none := by
  induction items with
  | nil => contradiction
  | cons item more ih =>
    rw [List.mapM_cons]
    obtain rfl | mem := List.mem_cons.1 mem
    · rw [refused]
      rfl
    · rw [ih mem]
      cases read? item <;> rfl

/-- An instruction list as JSON. -/
def ofInstructionList (list : List Instruction) : JsonValue :=
  .array (ofInstructions list)

theorem instructionList?_ofInstructionList (list : List Instruction) :
    instructionList? (ofInstructionList list) = some list :=
  instructions?_ofInstructions list

theorem fills_instructionList {value : JsonValue} {list : List Instruction}
    (read : instructionList? value = some list) : Fills value (ofInstructionList list) := by
  refine fills_instructions (fun _ _ _ => fills_instruction) (Nat.le_refl _) ?_
  cases value with
  | array items => exact (instructions?_eq items).symm.trans read
  | _ => contradiction

/-- Instructions survive being written as JSON and read again, and so does their layout. What is read of any JSON value
is written as that value with all defaults filled in, and read again it is the same. Where an instruction is called for,
no expression is read, and where an expression is called for, no instruction. -/
theorem instructionList_survives :
    (∀ list, instructionList? (ofInstructionList list) = some list ∧
      ∀ depth, (instructionList? (ofInstructionList list)).map (Layout.instructions · depth) =
        some (Layout.instructions list depth)) ∧
    (∀ value list, instructionList? value = some list → Fills value (ofInstructionList list) ∧
      Full (ofInstructionList list) ∧ instructionList? (ofInstructionList list) = some list) ∧
    (∀ value, expression? value ≠ none → instruction? value = none ∧
      ∀ items, value ∈ items → instructionList? (.array items) = none) ∧
    ∀ value, instruction? value ≠ none → expression? value = none ∧
      ∀ items, value ∈ items → expressions? items = none := by
  refine ⟨fun list => ?_, fun value list read => ?_, fun value read => ?_, fun value read => ?_⟩
  · have same := instructionList?_ofInstructionList list
    exact ⟨same, fun depth => by rw [same, Option.map_some]⟩
  · exact ⟨fills_instructionList read, .array (full_ofInstructions list), instructionList?_ofInstructionList list⟩
  · have refused : instruction? value = none := by
      cases accepted : instruction? value with
      | none => rfl
      | some instruction => exact absurd (expression?_of_instruction? (by simp [accepted])) read
    exact ⟨refused, fun items mem => (instructions?_eq items).trans (mapM_eq_none_of_mem refused mem)⟩
  · have refused := expression?_of_instruction? read
    exact ⟨refused, fun items mem => (expressions?_eq items).trans (mapM_eq_none_of_mem refused mem)⟩

/-- A test without an else branch around a command without arguments, in other order and with a number as text. -/
def sparse : JsonValue :=
  .array [.object [("kind", .string "unless"), ("type", .string "conditional"), ("note", .null),
    ("cond", tagged "array" [("length", .string " +1_000 ")]),
    ("then_branch", .array [tagged "command" [("name", .string "system")]])]]

theorem instructionList_survives_sparse : ∃ list, instructionList? sparse = some list ∧
    Fills sparse (ofInstructionList list) ∧ Full (ofInstructionList list) ∧
    instructionList? (ofInstructionList list) = some list :=
  ⟨[.conditional .negative (.array 1000) [.command "system" none []] none], rfl,
    instructionList_survives.2.1 sparse _ rfl⟩

end Formulary.Codec

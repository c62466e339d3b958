import Formulary.Proofs.Directive.DependsOn

/-!
What the arguments of a directive evaluate to. Evaluation visits nodes in a fixed order and looks at a key between the
key's own nodes and those of its value. The first visit that finds something wrong gives the error; if none does, there
is a value, in which a hash has each key once.
-/

namespace Formulary.Static

open Result

/-- A step of evaluation: a node is met, or the value of a key is looked at. -/
inductive Visit where
  | meets (node : Node)
  | key (node : Node)

/-- Whether a node evaluates to a list or a hash, if to anything. -/
def isComposite : Node → Bool
  | .paren _ [inner] => isComposite inner
  | .array .. | .hash .. => true
  | _ => false

def isText : Piece Node → Bool
  | .text _ => true
  | .code .. => false

/-- What is wrong with a node or a key. -/
def Visit.fault? : Visit → Option Fault
  | .key node => if isComposite node then some ⟨.compositeKey, node.line⟩ else none
  | .meets (.string pos pieces) => if pieces.all isText then none else some ⟨.interpolated, pos.line⟩
  | .meets (.reference pos name) =>
    if name ∈ ["nil", "true", "false"] then none else some ⟨.notStatic "var_ref", pos.line⟩
  | .meets (.symbol ..) | .meets (.int ..) | .meets (.array ..) | .meets (.hash ..) | .meets (.paren _ [_]) => none
  | .meets node => some ⟨.notStatic node.kind, node.line⟩

mutual

/-- The visits of an evaluation that nothing stops. -/
def visits : Node → List Visit
  | .array pos elements => .meets (.array pos elements) :: visitsOfAll elements
  | .hash pos pairs braces => .meets (.hash pos pairs braces) :: visitsOfPairs pairs
  | .paren pos [inner] => .meets (.paren pos [inner]) :: visits inner
  | node => [.meets node]

def visitsOfAll : List Node → List Visit
  | [] => []
  | node :: rest => visits node ++ visitsOfAll rest

def visitsOfPairs : List (Node × Node) → List Visit
  | [] => []
  | (key, content) :: rest => visits key ++ .key key :: (visits content ++ visitsOfPairs rest)

end

/-- The entries of a hash, and the pairs with which it is written. -/
structure Settles (written entries : List (Scalar × Value)) : Prop where
  /-- No two entries have keys that count as equal. -/
  apart : entries.Pairwise fun first second => first.1.key ≠ second.1.key
  /-- Entries stand in the order in which their keys first come. -/
  ordered : entries.Pairwise fun first second =>
    written.findIdx (·.1.key = first.1.key) < written.findIdx (·.1.key = second.1.key)
  /-- Every key that is written has an entry. -/
  complete : ∀ pair ∈ written, ∃ entry ∈ entries, entry.1.key = pair.1.key
  /-- An entry has its key in the form that comes first. -/
  form : ∀ entry ∈ entries, (written.find? (·.1.key = entry.1.key)).map (·.1) = some entry.1
  /-- An entry has the value that comes last with its key. -/
  content : ∀ entry ∈ entries, (written.reverse.find? (·.1.key = entry.1.key)).map (·.2) = some entry.2

mutual

/-- What a node stands for. -/
inductive Denotes : Node → Value → Prop
  | string (pos : Position) (texts : List String) :
      Denotes (.string pos (texts.map .text)) (.scalar (.string (texts.foldr (· ++ ·) "")))
  | symbol (pos : Position) (name : String) : Denotes (.symbol pos name) (.scalar (.symbol name))
  | int (pos : Position) (number : Int) : Denotes (.int pos number) (.scalar (.int number))
  | nil (pos : Position) : Denotes (.reference pos "nil") (.scalar .nil)
  | true (pos : Position) : Denotes (.reference pos "true") (.scalar (.bool Bool.true))
  | false (pos : Position) : Denotes (.reference pos "false") (.scalar (.bool Bool.false))
  | paren {inner : Node} {value : Value} (pos : Position) (h : Denotes inner value) : Denotes (.paren pos [inner]) value
  | array {elements : List Node} {items : List Value} (pos : Position) (h : List.Forall₂ Denotes elements items) :
      Denotes (.array pos elements) (.list items)
  | hash {pairs : List (Node × Node)} {written entries : List (Scalar × Value)} (pos : Position) (braces : Bool)
      (given : Gives pairs written) (settles : Settles written entries) : Denotes (.hash pos pairs braces) (.hash entries)

/-- What pairs of nodes stand for. -/
inductive Gives : List (Node × Node) → List (Scalar × Value) → Prop
  | nil : Gives [] []
  | cons {key content : Node} {scalar : Scalar} {value : Value} {rest : List (Node × Node)}
      {written : List (Scalar × Value)} (first : Denotes key (.scalar scalar)) (second : Denotes content value)
      (others : Gives rest written) : Gives ((key, content) :: rest) ((scalar, value) :: written)

end

/-! The first fault among the visits -/

/-- A computation fails with the first fault among visits; if there is none, it gives a result. -/
def Follows {α : Type} (visits : List Visit) (R : α → Prop) (result : Result α) : Prop :=
  match visits.findSome? Visit.fault? with
  | none => ∃ value, result = .ok value ∧ R value
  | some fault => result = .error fault

namespace Follows

variable {α β : Type} {visit : Visit} {first later : List Visit} {R : α → Prop} {S : β → Prop} {result : Result α}

theorem pure {value : α} (h : R value) : Follows [] R (.ok value) :=
  ⟨value, rfl, h⟩

theorem error {fault : Fault} (h : visit.fault? = some fault) : Follows [visit] R (.error fault) := by
  simp [Follows, h]

theorem bind {next : α → Result β} (h : Follows first R result) (hnext : ∀ value, R value → Follows later S (next value)) :
    Follows (first ++ later) S (result >>= next) := by
  unfold Follows at h
  rw [Follows, List.findSome?_append]
  cases found : first.findSome? Visit.fault? with
  | none =>
    rw [found] at h
    obtain ⟨value, rfl, hvalue⟩ := h
    exact hnext value hvalue
  | some fault =>
    rw [found] at h
    subst h
    rfl

theorem after (sound : visit.fault? = none) (h : Follows later R result) : Follows (visit :: later) R result := by
  rw [Follows, List.findSome?_cons_of_isNone (by simp [sound])]
  exact h

theorem map {f : α → β} (h : Follows first R result) (hf : ∀ value, R value → S (f value)) :
    Follows first S (do return f (← result)) := by
  have composed : Follows (first ++ []) S (do return f (← result)) := h.bind fun value hvalue => pure (hf value hvalue)
  rwa [List.append_nil] at composed

theorem imp {S : α → Prop} (h : Follows first R result) (himp : ∀ value, R value → S value) : Follows first S result := by
  unfold Follows at h ⊢
  split
  · rename_i sound
    rw [sound] at h
    obtain ⟨value, rfl, hvalue⟩ := h
    exact ⟨value, rfl, himp value hvalue⟩
  · rename_i fault found
    rwa [found] at h

theorem exists_ok_iff (h : Follows first R result) : (∃ value, result = .ok value) ↔ ∀ visit ∈ first, visit.fault? = none := by
  rw [← List.findSome?_eq_none_iff]
  unfold Follows at h
  split at h
  · rename_i sound
    obtain ⟨value, rfl, -⟩ := h
    exact iff_of_true ⟨value, rfl⟩ sound
  · rename_i fault found
    subst h
    exact iff_of_false (by simp) (by simp [found])

theorem of_ok {value : α} (h : Follows first R result) (ok : result = .ok value) : R value := by
  unfold Follows at h
  split at h
  · obtain ⟨other, same, hother⟩ := h
    obtain rfl := Except.ok.inj (ok.symm.trans same)
    exact hother
  · rw [ok] at h
    contradiction

theorem error_iff {fault : Fault} (h : Follows first R result) :
    result = .error fault ↔ first.findSome? Visit.fault? = some fault := by
  unfold Follows at h
  split at h
  · rename_i sound
    obtain ⟨value, rfl, -⟩ := h
    exact iff_of_false (by simp) (by simp [sound])
  · rename_i other found
    rw [h, found]
    simp

end Follows

/-! Hashes -/

theorem settles_ofList (written : List (Scalar × Value)) : Settles written (Entries.ofList written) := by
  rw [Entries.ofList_eq_settled]
  have same (first second : Scalar) : (first == second) = decide (first.key = second.key) := rfl
  refine ⟨?_, ?_, fun pair among => ?_, fun entry among => ?_, fun entry among => ?_⟩
  · refine List.pairwise_map.2 ((Entries.pairwise_firsts written).imp fun differ equal => ?_)
    simp [same, equal] at differ
  · refine List.pairwise_map.2 ((Entries.pairwise_findIdx_firsts written).imp fun earlier => ?_)
    simpa [same] using earlier
  · have there : (Entries.firsts written).any (·.1 == pair.1) = true := by
      rw [Entries.any_firsts]
      exact List.any_eq_true.2 ⟨pair, among, BEq.rfl⟩
    obtain ⟨first, among', equal⟩ := List.any_eq_true.1 there
    exact ⟨_, List.mem_map_of_mem among', of_decide_eq_true equal⟩
  · obtain ⟨first, among', rfl⟩ := List.mem_map.1 among
    have found := (Entries.mem_firsts_iff first written).1 among'
    simp only [same] at found
    rw [found]
    rfl
  · obtain ⟨first, among', rfl⟩ := List.mem_map.1 among
    have there : (Entries.lastValue first.1 written).isSome = true := by
      simp only [Entries.lastValue, Entries.get?, Option.isSome_map, List.find?_isSome, List.mem_reverse]
      exact ⟨first, Entries.firsts_subset written among', BEq.rfl⟩
    obtain ⟨last, found⟩ := Option.isSome_iff_exists.1 there
    rw [found]
    exact found

/-! Strings and keys -/

theorem plainText?_map (texts : List String) :
    plainText? (texts.map .text) = some (texts.foldr (· ++ ·) "") := by
  induction texts with
  | nil => rfl
  | cons text rest ih => simp [plainText?, ih]

/-- Without embedded code the pieces are texts. -/
theorem plainText?_cases (pieces : List (Piece Node)) :
    (∃ texts : List String, pieces = texts.map .text) ∧ pieces.all isText = Bool.true ∨
      plainText? pieces = none ∧ pieces.all isText = Bool.false := by
  induction pieces with
  | nil => exact .inl ⟨⟨[], rfl⟩, rfl⟩
  | cons piece rest ih =>
    cases piece with
    | code pos body => exact .inr ⟨rfl, rfl⟩
    | text value =>
      obtain ⟨⟨texts, rfl⟩, sound⟩ | ⟨none, unsound⟩ := ih
      · exact .inl ⟨⟨value :: texts, rfl⟩, sound⟩
      · exact .inr ⟨by simp [plainText?, none], unsound⟩

/-- A node that stands for something is composite exactly if that is no scalar. -/
theorem Denotes.not_isComposite_iff {node : Node} {value : Value} (h : Denotes node value) :
    isComposite node = Bool.false ↔ ∃ scalar, value = .scalar scalar := by
  fun_induction isComposite node with
  | case1 pos inner ih =>
    cases h with
    | paren _ h => exact ih h
  | case2 | case3 =>
    cases h
    simp
  | case4 node noParen noArray noHash =>
    cases h with
    | paren => exact absurd rfl (noParen _ _)
    | array => exact absurd rfl (noArray _ _)
    | hash => exact absurd rfl (noHash _ _ _)
    | _ => exact iff_of_true rfl ⟨_, rfl⟩

theorem follows_asKey {node : Node} {value : Value} (h : Denotes node value) :
    Follows [.key node] (fun key => Denotes node (.scalar key)) (asKey node value) := by
  have composite := h.not_isComposite_iff
  cases value with
  | scalar key => exact .after (by simp [Visit.fault?, composite]) (.pure h)
  | list items => exact .error (by simp_all [Visit.fault?])
  | hash entries => exact .error (by simp_all [Visit.fault?])

/-! Evaluation -/

theorem follows_string (pos : Position) (pieces : List (Piece Node)) :
    Follows (visits (.string pos pieces)) (Denotes (.string pos pieces)) (value (.string pos pieces)) := by
  obtain ⟨⟨texts, rfl⟩, sound⟩ | ⟨none, unsound⟩ := plainText?_cases pieces
  · rw [value, plainText?_map]
    exact .after (by simp [Visit.fault?, sound]) (.pure (.string pos texts))
  · rw [value, none]
    exact .error (by simp [Visit.fault?, unsound, Node.line, Node.pos])

theorem follows_reference (pos : Position) (name : String) :
    Follows (visits (.reference pos name)) (Denotes (.reference pos name)) (value (.reference pos name)) := by
  rw [value]
  by_cases known : name ∈ ["nil", "true", "false"]
  · have sound : (Visit.meets (.reference pos name)).fault? = none := by simp only [Visit.fault?, if_pos known]
    refine .after sound ?_
    simp only [List.mem_cons, List.not_mem_nil, or_false] at known
    obtain rfl | rfl | rfl := known
    · exact .pure (.nil pos)
    · exact .pure (.true pos)
    · exact .pure (.false pos)
  · have unknown : keyword? name = none := by
      unfold keyword?
      split <;> simp_all
    rw [unknown]
    exact .error (by simp only [Visit.fault?, if_neg known]; rfl)

mutual

theorem follows_value : ∀ node : Node, Follows (visits node) (Denotes node) (value node)
  | .string pos pieces => follows_string pos pieces
  | .reference pos name => follows_reference pos name
  | .symbol pos name => .after rfl (.pure (.symbol pos name))
  | .int pos number => .after rfl (.pure (.int pos number))
  | .array pos elements => .after rfl ((follows_values elements).map fun _ items => .array pos items)
  | .hash pos pairs braces =>
    .after rfl ((follows_entries pairs).map fun written given => .hash pos braces given (settles_ofList written))
  | .paren pos [inner] => by
    rw [visits, value]
    exact .after rfl ((follows_value inner).imp fun _ h => .paren pos h)
  | .paren _ [] | .paren _ (_ :: _ :: _) => .error rfl
  | .program .. | .classDef .. | .moduleDef .. | .methodDef .. | .block .. | .call .. | .keywordCall .. => .error rfl
  | .constPath .. | .code .. | .shell .. | .regexp .. | .float .. | .range .. | .splat .. | .blockPass .. => .error rfl
  | .binary .. | .unary .. | .index .. | .assign .. | .opAssign .. | .elseClause .. | .branch .. => .error rfl
  | .branchModifier .. | .choice .. | .loop .. | .forLoop .. | .whenClause .. | .caseOf .. => .error rfl
  | .rescueClause .. | .guarded .. | .rescueModifier .. | .jump .. => .error rfl

theorem follows_values : ∀ nodes : List Node, Follows (visitsOfAll nodes) (List.Forall₂ Denotes nodes) (values nodes)
  | [] => .pure .nil
  | node :: rest =>
    (follows_value node).bind fun _ first => (follows_values rest).map fun _ others => .cons first others

theorem follows_entries : ∀ pairs : List (Node × Node), Follows (visitsOfPairs pairs) (Gives pairs) (entries pairs)
  | [] => .pure .nil
  | (key, content) :: rest =>
    (follows_value key).bind fun _ found => (follows_asKey found).bind fun _ first =>
      (follows_value content).bind fun _ second => (follows_entries rest).map fun _ others => .cons first second others

end

end Formulary.Static

namespace Formulary.Directive

open Static

/-- The arguments of a directive have values exactly if no visit finds a fault. The values are what the nodes stand for, and
the first fault gives the error, with its line. -/
theorem arguments_static (directive : Directive) :
    let visits := visitsOfAll directive.args
    ((∃ values, directive.arguments = .ok values) ↔ ∀ visit ∈ visits, visit.fault? = none) ∧
      (∀ values, directive.arguments = .ok values → List.Forall₂ Denotes directive.args values) ∧
      ∀ before visit after fault, visits = before ++ visit :: after → (∀ earlier ∈ before, earlier.fault? = none) →
        visit.fault? = some fault → directive.arguments = .error (.invalid directive.name fault.reason (some fault.line)) := by
  intro visits
  have follows := follows_values directive.args
  refine ⟨?_, fun values ok => ?_, fun before visit after fault split sound here => ?_⟩
  · simp only [arguments, Result.mapError_eq_ok_iff]
    exact follows.exists_ok_iff
  · exact follows.of_ok (Result.mapError_eq_ok_iff.1 ok)
  · refine Result.mapError_eq_error_iff.2 ⟨fault, follows.error_iff.2 ?_, rfl⟩
    have first := List.findSome?_eq_none_iff.2 sound
    rw [← show visits = visitsOfAll directive.args from rfl, split, List.findSome?_append, first]
    simp [here]

/-- A symbol and a string of one text are one key, and so are one and true. In a pair the key is at fault before its
value. -/
theorem arguments_static_pairs :
    let symbol (name : String) : Node := .symbol ⟨2, 3⟩ name
    let text (value : String) : Node := .string ⟨3, 3⟩ [.text value]
    let code : Node := .string ⟨5, 9⟩ [.text "a", .code ⟨5, 11⟩ []]
    let settled : Directive := ⟨"foo", [.hash ⟨2, 3⟩ [(symbol "a", .array ⟨2, 7⟩ [.int ⟨2, 8⟩ 7]),
      (.int ⟨2, 12⟩ 1, symbol "b"), (text "a", .paren ⟨3, 8⟩ [text "c"]), (.reference ⟨3, 13⟩ "true", symbol "d")] false],
      none, 2⟩
    let faulty : Directive := ⟨"bar", [symbol "a", .hash ⟨3, 3⟩ [(.paren ⟨4, 3⟩ [.array ⟨4, 4⟩ []], code)] true, code], none, 2⟩
    let values : List Value := [.hash [(.symbol "a", .scalar (.string "c")), (.int 1, .scalar (.symbol "d"))]]
    settled.arguments = .ok values ∧ List.Forall₂ Denotes settled.args values ∧
      faulty.arguments = .error (.invalid "bar" .compositeKey (some 4)) := by
  intro symbol text code settled faulty values
  have ok : settled.arguments = .ok values := by rfl
  refine ⟨ok, (arguments_static settled).2.1 values ok, ?_⟩
  refine (arguments_static faulty).2.2 [.meets (symbol "a"), .meets faulty.args[1], .meets (.paren ⟨4, 3⟩ [.array ⟨4, 4⟩ []]),
    .meets (.array ⟨4, 4⟩ [])] (.key (.paren ⟨4, 3⟩ [.array ⟨4, 4⟩ []])) _ ⟨.compositeKey, 4⟩ rfl ?_ rfl
  simp [symbol, faulty, Visit.fault?]

end Formulary.Directive

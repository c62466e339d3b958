import Formulary.Proofs.Token.Places
import Mathlib.Data.List.Forall2

/-!
The places noted for the code in a body. Lines are counted as in the text. A column is lost behind code and behind
an escaped newline, and found again at the next newline.
-/

namespace Formulary

namespace Position

theorem line_past (pos : Position) (text : List Char) : (pos.past text).line = pos.line + text.count '\n' := by
  induction text generalizing pos with
  | nil => rfl
  | cons c more ih =>
    refine (ih (pos.after c)).trans ?_
    by_cases line : c = '\n'
    · simp only [after, line, if_true, List.count_cons_self]
      omega
    · simp only [after, line, if_false, List.count_cons_of_ne line]

/-- A place noted for another one: on its line, and the same if the column is known. -/
def Notes (pos : Position) (known : Bool) (place : Position) : Prop :=
  pos.line = place.line ∧ (known = true → pos = place)

variable {pos place : Position} {known : Bool}

theorem notes_self (pos : Position) (known : Bool) : pos.Notes known pos :=
  ⟨rfl, fun _ => rfl⟩

theorem Notes.after (notes : pos.Notes known place) (c : Char) :
    (pos.after c).Notes (known || c == '\n') (place.after c) := by
  by_cases line : c = '\n'
  · have same : pos.after c = place.after c := by simp only [Position.after, line, if_true, notes.1]
    exact same ▸ notes_self _ _
  · refine ⟨?_, fun h => ?_⟩
    · simpa only [Position.after, line, if_false] using notes.1
    · rw [notes.2 (by simpa [line] using h)]

theorem Notes.past (notes : pos.Notes known place) (text : List Char) :
    (pos.past text).Notes (known || text.contains '\n') (place.past text) := by
  induction text generalizing pos place known with
  | nil =>
    rw [List.contains_nil, Bool.or_false]
    exact notes
  | cons c more ih =>
    have behind := ih (notes.after c)
    rwa [Bool.or_assoc, BEq.comm, ← List.contains_cons] at behind

end Position

namespace Literal

/-- A piece of the body of a literal that embeds code. -/
inductive Item where
  | plain (c : Char)
  | escape (c : Char)
  | code (text : List Char)

namespace Item

def text : Item → List Char
  | plain c => [c]
  | escape c => ['\\', c]
  | code text => '#' :: '\x7b' :: text ++ ['\x7d']

/-- The place noted behind an item, given the one noted before it. -/
def noted (pos : Position) : Item → Position
  | plain c => pos.after c
  | escape c => (if c = '\n' then pos.down 1 else pos).right 2
  | code text => pos.down (text.count '\n')

/-- Whether the column is known behind an item, given whether it is known before it. -/
def knows (known : Bool) : Item → Bool
  | plain c => known || c == '\n'
  | escape c => known && c != '\n'
  | code _ => false

theorem noted_notes {pos place : Position} {known : Bool} (notes : pos.Notes known place) (item : Item) :
    (item.noted pos).Notes (item.knows known) (place.past item.text) := by
  cases item with
  | plain c => exact notes.after c
  | escape c =>
    by_cases line : c = '\n'
    · subst line
      exact ⟨congrArg (· + 1) notes.1, fun known => by simp [knows] at known⟩
    · refine ⟨?_, fun h => ?_⟩
      · simpa [noted, line, text, Position.past, Position.after, Position.right] using notes.1
      · rw [notes.2 (by simpa [knows, line] using h)]
        simp [noted, line, text, Position.past, Position.after, Position.right]
  | code code =>
    refine ⟨?_, nofun⟩
    rw [Position.line_past]
    simp [noted, text, Position.down, notes.1]

end Item

/-- The place noted behind these items and whether its column is known. -/
theorem foldl_noted_notes {pos place : Position} {known : Bool} (notes : pos.Notes known place) (items : List Item) :
    (items.foldl Item.noted pos).Notes (items.foldl Item.knows known) (place.past (items.flatMap Item.text)) := by
  induction items generalizing pos place known with
  | nil => exact notes
  | cons item more ih =>
    rw [List.flatMap_cons, Position.past_append]
    exact ih (Item.noted_notes notes item)

/-- The pieces of a body that embeds code, without its first `skip` characters. -/
def items (skip : Nat) : List Char → List Item
  | [] => []
  | c :: rest =>
    match skip with
    | skip + 1 => items skip rest
    | 0 =>
      match (if c = '\\' then rest.head? else none) with
      | some e => .escape e :: items 1 rest
      | none =>
        match (if opensCode c rest then codeLength rest.tail else none) with
        | some length => .code (rest.tail.take length) :: items (length + 2) rest
        | none => .plain c :: items 0 rest

section Items

variable {c e : Char} {rest : List Char}

theorem items_escape (escape : (if c = '\\' then rest.head? else none) = some e) :
    items 0 (c :: rest) = .escape e :: items 1 rest := by
  rw [items, escape]

theorem items_code {length : Nat} (bare : (if c = '\\' then rest.head? else none) = none)
    (opens : opensCode c rest = true) (closes : codeLength rest.tail = some length) :
    items 0 (c :: rest) = .code (rest.tail.take length) :: items (length + 2) rest := by
  rw [items, bare, if_pos opens, closes]

theorem items_plain (bare : (if c = '\\' then rest.head? else none) = none) (plain : opensCode c rest = false) :
    items 0 (c :: rest) = .plain c :: items 0 rest := by
  rw [items, bare, if_neg (Bool.eq_false_iff.1 plain)]

end Items

/-- Nothing of a body is lost in its pieces. -/
theorem flatMap_items (skip : Nat) (body : List Char) : (items skip body).flatMap Item.text = body.drop skip := by
  induction body generalizing skip with
  | nil => simp [items]
  | cons c rest ih =>
    cases skip with
    | succ skip => exact ih skip
    | zero =>
      unfold items
      dsimp only
      split
      · rename_i e escape
        split at escape
        · rename_i backslash
          obtain ⟨more, rfl⟩ := List.head?_eq_some_iff.1 escape
          rw [List.flatMap_cons, ih, backslash]
          rfl
        · contradiction
      split
      · rename_i length found
        split at found
        · rename_i opens
          obtain ⟨rfl, brace⟩ : c = '#' ∧ rest.head? = some '\x7b' := by simpa [opensCode] using opens
          obtain ⟨more, rfl⟩ := List.head?_eq_some_iff.1 brace
          obtain ⟨within, closes⟩ := List.getElem?_eq_some_iff.1 (Body.brace_of_codeLengthFrom found)
          have behind := List.drop_eq_getElem_cons within
          rw [closes, List.tail_cons] at behind
          rw [List.flatMap_cons, ih, List.tail_cons, Item.text]
          simp [← behind]
        · contradiction
      · rw [List.flatMap_cons, ih]
        rfl

/-- A piece of code in a body, with what stands before it. -/
structure Inset where
  before : List Item
  code : List Char

def insets : List Item → List Inset
  | [] => []
  | item :: more =>
    let later := (insets more).map fun inset => { inset with before := item :: inset.before }
    match item with
    | .code code => ⟨[], code⟩ :: later
    | _ => later

/-- An inset stands among the items behind those before it. -/
theorem eq_of_mem_insets {list : List Item} {inset : Inset} (h : inset ∈ insets list) :
    ∃ later, list = inset.before ++ .code inset.code :: later := by
  induction list generalizing inset with
  | nil => contradiction
  | cons item more ih =>
    have later (h : inset ∈ (insets more).map fun inset => { inset with before := item :: inset.before }) :
        ∃ later, item :: more = inset.before ++ .code inset.code :: later := by
      obtain ⟨found, among, rfl⟩ := List.mem_map.1 h
      obtain ⟨behind, rfl⟩ := ih among
      exact ⟨behind, rfl⟩
    unfold insets at h
    dsimp only at h
    split at h
    · obtain rfl | h := List.mem_cons.1 h
      · exact ⟨more, rfl⟩
      · exact later h
    · exact later h

/-- An inset stands in its body behind the items before it. -/
theorem stands_of_mem_insets {body : List Char} {inset : Inset} (h : inset ∈ insets (items 0 body)) :
    ∃ behind, inset.before.flatMap Item.text ++ (Item.code inset.code).text ++ behind = body := by
  obtain ⟨later, split⟩ := eq_of_mem_insets h
  have whole := flatMap_items 0 body
  rw [split, List.flatMap_append, List.flatMap_cons, ← List.append_assoc] at whole
  exact ⟨_, whole⟩

/-- The code of a literal: its tokens and where it is noted. -/
def parts (segments : List (Segment Token)) : List (List Token × Position) :=
  segments.filterMap fun
    | .code tokens pos => some (tokens, pos)
    | .text _ => none

/-- A part was read from this inset of a body noted to begin at a place. -/
def ReadFrom (read : Body.Reader) (start : Position) (part : List Token × Position) (inset : Inset) : Prop :=
  part.2 = inset.before.foldl Item.noted start ∧ read inset.code (part.2.right 2) = .ok part.1

section Parts

open Result

variable {read : Body.Reader} {closer : Option Char} {skip : Nat} {pos : Position} {body : List Char}
  {segments : List (Segment Token)}

theorem parts_consText (c : Char) (segments : List (Segment Token)) : parts (consText c segments) = parts segments := by
  unfold consText
  split <;> rfl

theorem parts_foldr_consText (text : List Char) (segments : List (Segment Token)) :
    parts (text.foldr consText segments) = parts segments := by
  induction text with
  | nil => rfl
  | cons c more ih => exact (parts_consText c _).trans ih

theorem parts_of_plain (h : splitBody read false closer skip pos body = .ok segments) : parts segments = [] := by
  induction body generalizing skip pos segments with
  | nil => exact Except.ok.inj h ▸ rfl
  | cons c rest ih =>
    unfold splitBody at h
    cases skip with
    | succ skip => exact ih h
    | zero =>
      dsimp only at h
      split at h
      · obtain ⟨found, hfound, rfl⟩ := map_eq_ok_iff.1 h
        exact (parts_consText c found).trans (ih hfound)
      split at h
      · obtain ⟨found, hfound, rfl⟩ := map_eq_ok_iff.1 h
        exact (parts_foldr_consText _ found).trans (ih hfound)
      · obtain ⟨found, hfound, rfl⟩ := map_eq_ok_iff.1 h
        exact (parts_consText c found).trans (ih hfound)

/-- An item more before the insets of a body. -/
theorem ReadFrom.later (item : Item) {start : Position} {found : List (List Token × Position)} {insets : List Inset}
    (h : List.Forall₂ (ReadFrom read (item.noted start)) found insets) :
    List.Forall₂ (ReadFrom read start) found (insets.map fun inset => { inset with before := item :: inset.before }) :=
  List.forall₂_map_right_iff.2 h

/-- The parts of a literal are the insets of its body, in order. -/
theorem parts_of_splitBody (h : splitBody read true closer skip pos body = .ok segments) :
    List.Forall₂ (ReadFrom read pos) (parts segments) (insets (items skip body)) := by
  induction body generalizing skip pos segments with
  | nil => exact Except.ok.inj h ▸ .nil
  | cons c rest ih =>
    unfold splitBody at h
    cases skip with
    | succ skip => exact ih h
    | zero =>
      dsimp only at h
      split at h
      · rename_i line
        subst line
        obtain ⟨found, hfound, rfl⟩ := map_eq_ok_iff.1 h
        rw [parts_consText, items_plain rfl rfl]
        exact ReadFrom.later (.plain '\n') (ih hfound)
      rename_i inline
      split at h
      · rename_i e escape
        obtain ⟨found, hfound, rfl⟩ := map_eq_ok_iff.1 h
        rw [parts_foldr_consText, items_escape escape]
        refine ReadFrom.later (.escape e) ?_
        simpa [Item.noted] using ih hfound
      rename_i bare
      split at h
      · rename_i opens
        split at h
        · contradiction
        rename_i length closes
        obtain ⟨inner, hinner, h⟩ := bind_eq_ok_iff.1 h
        obtain ⟨others, hothers, h⟩ := bind_eq_ok_iff.1 h
        obtain rfl := pure_eq_ok_iff.1 h
        rw [items_code bare opens closes]
        exact .cons ⟨rfl, hinner⟩ (ReadFrom.later (.code _) (ih hothers))
      · rename_i plain
        obtain ⟨found, hfound, rfl⟩ := map_eq_ok_iff.1 h
        rw [parts_consText, items_plain bare (Bool.eq_false_iff.2 plain)]
        refine ReadFrom.later (.plain c) ?_
        simpa [Item.noted, Position.after, inline, Position.right] using ih hfound

/-- The parts of a literal are the insets of its body, if code can be embedded there at all. -/
theorem parts_of_segments {embeds : Bool} (h : Literal.segments read embeds closer pos body = .ok segments) :
    List.Forall₂ (ReadFrom read pos) (parts segments) (insets (if embeds then items 0 body else [])) := by
  obtain ⟨found, hfound, rfl⟩ := map_eq_ok_iff.1 h
  have same : parts (if found.isEmpty then [.text ""] else found) = parts found := by
    cases found <;> rfl
  rw [same]
  cases embeds with
  | true => exact parts_of_splitBody hfound
  | false =>
    rw [parts_of_plain hfound]
    exact .nil

end Parts

end Literal

end Formulary

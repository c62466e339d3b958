import Formulary.Proofs.Token.Interpolation
import Formulary.Proofs.Token.LiteralText

/-!
The two passes over the body of a literal that embeds code. The first one looks for the end of the body and passes over
code, the second one parts the body into text and code. Both take the same pieces for code, and a piece of code ends at
the brace that closes it: braces in strings and escaped ones do not count.
-/

namespace Formulary.Literal

open Body Result

/-! Code -/

/-- The characters of a string between two of these quotes. -/
inductive WithinQuotes (quote : Char) : List Char → Prop
  | nil : WithinQuotes quote []
  | plain {c : Char} {text : List Char} : c ≠ '\\' → c ≠ quote → WithinQuotes quote text →
      WithinQuotes quote (c :: text)
  | escape {c : Char} {text : List Char} : WithinQuotes quote text → WithinQuotes quote ('\\' :: c :: text)

/-- Code in which every brace has its partner, those in strings and escaped ones apart. -/
inductive Closed : List Char → Prop
  | nil : Closed []
  | plain {c : Char} {text : List Char} : c ∉ ['\\', '"', '\'', '\x7b', '\x7d'] → Closed text → Closed (c :: text)
  | escape {c : Char} {text : List Char} : Closed text → Closed ('\\' :: c :: text)
  | quoted {quote : Char} {inner text : List Char} : quote ∈ ['"', '\''] → WithinQuotes quote inner → Closed text →
      Closed (quote :: (inner ++ quote :: text))
  | braces {inner text : List Char} : Closed inner → Closed text → Closed ('\x7b' :: (inner ++ '\x7d' :: text))

section Code

variable {depth n : Nat} {quote : Char} {inner code text : List Char}

theorem codeLengthFrom_escape (quote : Option Char) (c : Char) :
    codeLengthFrom 0 depth quote ('\\' :: c :: text) = (codeLengthFrom 0 depth quote text).map (· + 2) := by
  rw [codeLengthFrom.eq_def]
  dsimp only
  rw [if_pos rfl, codeLengthFrom.eq_def, Option.map_map]
  rfl

theorem codeLengthFrom_quote {c : Char} (opens : c ∈ ['"', '\'']) :
    codeLengthFrom 0 depth none (c :: text) = (codeLengthFrom 0 depth (some c) text).map (· + 1) := by
  simp only [List.mem_cons, List.not_mem_nil, or_false] at opens
  obtain rfl | rfl := opens <;> rw [codeLengthFrom.eq_def] <;> rfl

theorem codeLengthFrom_open :
    codeLengthFrom 0 depth none ('\x7b' :: text) = (codeLengthFrom 0 (depth + 1) none text).map (· + 1) := by
  rw [codeLengthFrom.eq_def]
  rfl

theorem codeLengthFrom_close :
    codeLengthFrom 0 (depth + 1) none ('\x7d' :: text) = (codeLengthFrom 0 depth none text).map (· + 1) := by
  rw [codeLengthFrom.eq_def]
  rfl

theorem codeLengthFrom_plain {c : Char} (other : c ∉ ['\\', '"', '\'', '\x7b', '\x7d']) :
    codeLengthFrom 0 depth none (c :: text) = (codeLengthFrom 0 depth none text).map (· + 1) := by
  simp only [List.mem_cons, List.not_mem_nil, or_false, not_or] at other
  obtain ⟨backslash, double, single, opening, closing⟩ := other
  rw [codeLengthFrom.eq_def]
  simp only [backslash, double, single, opening, closing, or_self, if_false]

/-- Nothing in a string ends the code. -/
theorem codeLengthFrom_quotes (h : WithinQuotes quote inner) (escape : quote ≠ '\\') :
    codeLengthFrom 0 depth (some quote) (inner ++ quote :: text) =
      (codeLengthFrom 0 depth none text).map (· + (inner.length + 1)) := by
  induction h with
  | nil => simp [codeLengthFrom, escape]
  | plain backslash other _ ih =>
    rw [List.cons_append, codeLengthFrom.eq_def]
    simp only [backslash, other, if_false, ih, Option.map_map]
    rfl
  | escape _ ih =>
    rw [List.cons_append, List.cons_append, codeLengthFrom_escape, ih, Option.map_map]
    rfl

theorem not_escape_of_quote {c : Char} (opens : c ∈ ['"', '\'']) : c ≠ '\\' := by
  rintro rfl
  contradiction

/-- Nothing in closed code ends it. -/
theorem codeLengthFrom_closed (h : Closed code) : codeLengthFrom 0 depth none (code ++ text) =
    (codeLengthFrom 0 depth none text).map (· + code.length) := by
  induction h generalizing depth text with
  | nil => simp
  | plain other _ ih =>
    rw [List.cons_append, codeLengthFrom_plain other, ih, Option.map_map]
    rfl
  | escape _ ih =>
    rw [List.cons_append, List.cons_append, codeLengthFrom_escape, ih, Option.map_map]
    rfl
  | quoted opens within _ ih =>
    rw [List.cons_append, List.append_assoc, List.cons_append, codeLengthFrom_quote opens,
      codeLengthFrom_quotes within (not_escape_of_quote opens), ih, Option.map_map, Option.map_map]
    refine congrArg (Option.map · _) (funext fun n => ?_)
    simp only [Function.comp_apply, List.length_cons, List.length_append]
    omega
  | braces _ _ ih ih' =>
    rw [List.cons_append, List.append_assoc, List.cons_append, codeLengthFrom_open, ih, codeLengthFrom_close, ih',
      Option.map_map, Option.map_map, Option.map_map]
    refine congrArg (Option.map · _) (funext fun n => ?_)
    simp only [Function.comp_apply, List.length_cons, List.length_append]
    omega

/-- A string ends at its quote. -/
theorem exists_quotes (h : codeLengthFrom 0 depth (some quote) text = some n) :
    ∃ inner rest, text = inner ++ quote :: rest ∧ WithinQuotes quote inner := by
  induction length : text.length using Nat.strongRecOn generalizing text n with
  | ind length ih =>
    subst length
    cases text with
    | nil => simp [codeLengthFrom] at h
    | cons c more =>
      by_cases backslash : c = '\\'
      · subst backslash
        cases more with
        | nil => simp [codeLengthFrom] at h
        | cons e more =>
          rw [codeLengthFrom_escape] at h
          obtain ⟨m, h, -⟩ := Option.map_eq_some_iff.1 h
          have short : more.length < ('\\' :: e :: more).length := Nat.lt_add_right 1 (Nat.lt_succ_self _)
          obtain ⟨inner, rest, rfl, within⟩ := ih more.length short h rfl
          exact ⟨'\\' :: e :: inner, rest, rfl, .escape within⟩
      · rw [codeLengthFrom.eq_def] at h
        simp only [backslash, if_false] at h
        obtain ⟨m, h, -⟩ := Option.map_eq_some_iff.1 h
        by_cases ends : c = quote
        · exact ⟨[], more, by rw [ends, List.nil_append], .nil⟩
        · rw [if_neg ends] at h
          obtain ⟨inner, rest, rfl, within⟩ := ih more.length (Nat.lt_succ_self _) h rfl
          exact ⟨c :: inner, rest, rfl, .plain backslash ends within⟩

/-- Code that ends stands closed before a brace. -/
theorem exists_closed (h : codeLengthFrom 0 depth none text = some n) :
    ∃ code rest, text = code ++ '\x7d' :: rest ∧ Closed code := by
  induction length : text.length using Nat.strongRecOn generalizing depth text n with
  | ind length ih =>
    subst length
    cases text with
    | nil => simp [codeLengthFrom] at h
    | cons c more =>
      -- What stands in front of the rest is closed by itself.
      have later {depth m : Nat} (front : List Char) {rest : List Char} (split : c :: more = front ++ rest)
          (filled : 0 < front.length) (closed : ∀ code, Closed code → Closed (front ++ code))
          (h : codeLengthFrom 0 depth none rest = some m) :
          ∃ code rest, c :: more = code ++ '\x7d' :: rest ∧ Closed code := by
        have short : rest.length < (c :: more).length := by
          rw [split, List.length_append]
          omega
        obtain ⟨code, rest, rfl, inner⟩ := ih rest.length short h rfl
        exact ⟨front ++ code, rest, by rw [split, List.append_assoc], closed code inner⟩
      by_cases backslash : c = '\\'
      · subst backslash
        cases more with
        | nil => simp [codeLengthFrom] at h
        | cons e more =>
          rw [codeLengthFrom_escape] at h
          obtain ⟨m, h, -⟩ := Option.map_eq_some_iff.1 h
          exact later ['\\', e] rfl (Nat.succ_pos _) (fun _ => .escape) h
      by_cases quotes : c ∈ ['"', '\'']
      · rw [codeLengthFrom_quote quotes] at h
        obtain ⟨m, h, -⟩ := Option.map_eq_some_iff.1 h
        obtain ⟨inner, rest, rfl, within⟩ := exists_quotes h
        rw [codeLengthFrom_quotes within backslash] at h
        obtain ⟨m, h, -⟩ := Option.map_eq_some_iff.1 h
        refine later (c :: (inner ++ [c])) (by simp) (Nat.succ_pos _) (fun code closed => ?_) h
        rw [List.cons_append, List.append_assoc]
        exact .quoted quotes within closed
      by_cases opening : c = '\x7b'
      · subst opening
        rw [codeLengthFrom_open] at h
        obtain ⟨m, h, -⟩ := Option.map_eq_some_iff.1 h
        obtain ⟨inner, rest, rfl, balanced⟩ := ih more.length (Nat.lt_succ_self _) h rfl
        rw [codeLengthFrom_closed balanced, codeLengthFrom_close, Option.map_map] at h
        obtain ⟨m, h, -⟩ := Option.map_eq_some_iff.1 h
        refine later ('\x7b' :: (inner ++ ['\x7d'])) (by simp) (Nat.succ_pos _) (fun code closed => ?_) h
        rw [List.cons_append, List.append_assoc]
        exact .braces balanced closed
      by_cases closing : c = '\x7d'
      · exact ⟨[], more, by rw [closing, List.nil_append], .nil⟩
      · have other : c ∉ ['\\', '"', '\'', '\x7b', '\x7d'] := by simp_all
        rw [codeLengthFrom_plain other] at h
        obtain ⟨m, h, -⟩ := Option.map_eq_some_iff.1 h
        exact later [c] rfl (Nat.succ_pos _) (fun _ => .plain other) h

/-- Code ends at the brace that closes it. -/
theorem codeLength_eq_some_iff :
    codeLength text = some n ↔ ∃ code rest, text = code ++ '\x7d' :: rest ∧ code.length = n ∧ Closed code := by
  have length {code rest : List Char} (closed : Closed code) :
      codeLength (code ++ '\x7d' :: rest) = some code.length := by
    rw [codeLength, codeLengthFrom_closed closed]
    simp [codeLengthFrom]
  constructor
  · intro h
    obtain ⟨code, rest, rfl, closed⟩ := exists_closed h
    exact ⟨code, rest, rfl, Option.some.inj ((length closed).symm.trans h), closed⟩
  · rintro ⟨code, rest, rfl, rfl, closed⟩
    exact length closed

end Code

/-! The first pass -/

/-- How many nested delimiters are open behind a character, unless the literal ends there. -/
def Delimiters.depthBehind? (marks : Delimiters) (depth : Nat) (c : Char) : Option Nat :=
  if marks.opener = some c then some (depth + 1)
  else if c = marks.closer then
    match depth with
    | 0 => none
    | depth + 1 => some depth
  else some depth

/-- The first pass over a body, piece by piece, up to the delimiter that ends the literal. -/
inductive Passes (marks : Delimiters) : Nat → List Char → List Item → List Char → Prop
  | done {depth : Nat} {c : Char} {after : List Char} : c ≠ '\\' → (marks.embeds && opensCode c after) = false →
      marks.depthBehind? depth c = none → Passes marks depth (c :: after) [] after
  | plain {depth deeper : Nat} {c : Char} {rest after : List Char} {items : List Item} : c ≠ '\\' →
      (marks.embeds && opensCode c rest) = false → marks.depthBehind? depth c = some deeper →
      Passes marks deeper rest items after → Passes marks depth (c :: rest) (.plain c :: items) after
  | escape {depth : Nat} {c : Char} {rest after : List Char} {items : List Item} : Passes marks depth rest items after →
      Passes marks depth ('\\' :: c :: rest) (.escape c :: items) after
  /-- Code is passed over up to the brace that closes it. -/
  | code {depth : Nat} {code rest after : List Char} {items : List Item} : marks.embeds = true →
      codeLength (code ++ '\x7d' :: rest) = some code.length → Passes marks depth rest items after →
      Passes marks depth ('#' :: '\x7b' :: (code ++ '\x7d' :: rest)) (.code code :: items) after

section First

variable {marks : Delimiters} {depth : Nat} {pos : Position} {c : Char} {text rest body after code : List Char}
  {items : List Item}

theorem readBody_other (backslash : c ≠ '\\') (code : (marks.embeds && opensCode c rest) = false) :
    readBody marks 0 depth pos (c :: rest) = match marks.depthBehind? depth c with
      | none => .ok ([], rest)
      | some deeper => (readBody marks 0 deeper (pos.after c) rest).map fun (body, after) => (c :: body, after) := by
  rw [readBody.eq_def, Delimiters.depthBehind?.eq_def]
  dsimp only
  rw [if_neg backslash, code, if_neg Bool.false_ne_true]
  repeat' split
  all_goals simp_all

/-- Characters that belong to code are passed over. -/
theorem readBody_skip (text : List Char) : readBody marks text.length depth pos (text ++ rest) =
    (readBody marks 0 depth (pos.past text) rest).map fun (body, after) => (text ++ body, after) := by
  induction text generalizing pos with
  | nil => exact (congrFun Except.map_id _).symm
  | cons c text ih =>
    rw [List.cons_append, List.length_cons, readBody]
    dsimp only
    rw [ih, map_map]
    rfl

theorem readBody_code (embeds : marks.embeds = true) (closed : codeLength (code ++ '\x7d' :: rest) = some code.length) :
    readBody marks 0 depth pos ('#' :: '\x7b' :: (code ++ '\x7d' :: rest)) =
      (readBody marks 0 depth (pos.past (Item.code code).text) rest).map
        fun (body, after) => ((Item.code code).text ++ body, after) := by
  have long : code.length + 2 = ('\x7b' :: (code ++ ['\x7d'])).length := by simp
  have split : '\x7b' :: (code ++ '\x7d' :: rest) = '\x7b' :: (code ++ ['\x7d']) ++ rest := by simp
  have opens : opensCode '#' ('\x7b' :: (code ++ '\x7d' :: rest)) = true := rfl
  have length : codeLength ('\x7b' :: (code ++ '\x7d' :: rest)).tail = some code.length := closed
  rw [readBody.eq_def]
  dsimp only
  rw [if_neg (by decide), embeds, opens, Bool.true_and, if_pos rfl, length]
  dsimp only
  rw [long, split, readBody_skip, map_map]
  rfl

theorem readBody_openCode (embeds : marks.embeds = true) (opens : opensCode c rest = true)
    (open' : codeLength rest.tail = none) : readBody marks 0 depth pos (c :: rest) = .error (.openCode pos) := by
  obtain ⟨rfl, -⟩ : c = '#' ∧ rest.head? = some '\x7b' := by simpa [opensCode] using opens
  rw [readBody.eq_def]
  dsimp only
  rw [if_neg (by decide), embeds, opens, Bool.true_and, if_pos rfl, open']

/-- What the first pass gets through, it passes over piece by piece. -/
theorem exists_passes_of_readBody (h : readBody marks 0 depth pos text = .ok (body, after)) :
    ∃ items, Passes marks depth text items after ∧ body = items.flatMap Item.text := by
  induction length : text.length using Nat.strongRecOn generalizing depth pos text body with
  | ind length ih =>
    subst length
    cases text with
    | nil => cases h
    | cons c rest =>
      by_cases backslash : c = '\\'
      · subst backslash
        cases rest with
        | nil => cases h
        | cons e rest =>
          rw [readBody_escape] at h
          obtain ⟨⟨inner, behind⟩, found, same⟩ := map_eq_ok_iff.1 h
          obtain ⟨rfl, rfl⟩ := Prod.mk.inj same
          have short : rest.length < ('\\' :: e :: rest).length := Nat.lt_add_right 1 (Nat.lt_succ_self _)
          obtain ⟨items, passes, rfl⟩ := ih rest.length short found rfl
          exact ⟨.escape e :: items, .escape passes, rfl⟩
      · cases embedded : (marks.embeds && opensCode c rest) with
        | false =>
          rw [readBody_other backslash embedded] at h
          split at h
          · rename_i ends
            obtain ⟨rfl, rfl⟩ := Prod.mk.inj (Except.ok.inj h)
            exact ⟨[], .done backslash embedded ends, rfl⟩
          · rename_i deeper goes
            obtain ⟨⟨inner, behind⟩, found, same⟩ := map_eq_ok_iff.1 h
            obtain ⟨rfl, rfl⟩ := Prod.mk.inj same
            obtain ⟨items, passes, rfl⟩ := ih rest.length (Nat.lt_succ_self _) found rfl
            exact ⟨.plain c :: items, .plain backslash embedded goes passes, rfl⟩
        | true =>
          obtain ⟨embeds, opens⟩ := Bool.and_eq_true_iff.1 embedded
          cases closes : codeLength rest.tail with
          | none =>
            rw [readBody_openCode embeds opens closes] at h
            cases h
          | some length =>
            obtain ⟨rfl, brace⟩ : c = '#' ∧ rest.head? = some '\x7b' := by simpa [opensCode] using opens
            obtain ⟨more, rfl⟩ := List.head?_eq_some_iff.1 brace
            rw [List.tail_cons] at closes
            obtain ⟨code, rest, rfl, rfl, closed⟩ := codeLength_eq_some_iff.1 closes
            rw [readBody_code embeds closes] at h
            obtain ⟨⟨inner, behind⟩, found, same⟩ := map_eq_ok_iff.1 h
            obtain ⟨rfl, rfl⟩ := Prod.mk.inj same
            have short : rest.length < ('#' :: '\x7b' :: (code ++ '\x7d' :: rest)).length := by
              simp only [List.length_cons, List.length_append]
              omega
            obtain ⟨items, passes, rfl⟩ := ih rest.length short found rfl
            exact ⟨.code code :: items, .code embeds closes passes, rfl⟩

theorem readBody_of_passes (passes : Passes marks depth text items after) :
    readBody marks 0 depth pos text = .ok (items.flatMap Item.text, after) := by
  induction passes generalizing pos with
  | done backslash code ends => rw [readBody_other backslash code, ends]; rfl
  | plain backslash code deeper _ ih =>
    rw [readBody_other backslash code, deeper]
    dsimp only
    rw [ih]
    rfl
  | escape _ ih =>
    rw [readBody_escape, ih]
    rfl
  | code embeds closed _ ih =>
    rw [readBody_code embeds closed, ih]
    rfl

theorem readBody_eq_ok_iff : readBody marks 0 depth pos text = .ok (body, after) ↔
    ∃ items, Passes marks depth text items after ∧ body = items.flatMap Item.text := by
  constructor
  · exact exists_passes_of_readBody
  · rintro ⟨items, passes, rfl⟩
    exact readBody_of_passes passes

theorem Passes.split (passes : Passes marks depth text items after) :
    text = items.flatMap Item.text ++ marks.closer :: after :=
  eq_of_readBody (readBody_of_passes passes : readBody marks 0 depth .origin text = _)

/-- Code that is passed over is closed. -/
theorem Passes.closed (passes : Passes marks depth text items after) (among : .code code ∈ items) : Closed code := by
  induction passes with
  | done => contradiction
  | plain _ _ _ _ ih => exact ih (by simpa using among)
  | escape _ ih => exact ih (by simpa using among)
  | code _ closes _ ih =>
    obtain same | among := List.mem_cons.1 among
    · obtain rfl := Item.code.inj same
      obtain ⟨code', rest, split, length, closed⟩ := codeLength_eq_some_iff.1 closes
      exact (List.append_inj split length.symm).1 ▸ closed
    · exact ih among

end First

/-! The second pass -/

/-- The place noted for an inset of a body that is noted to begin at a place. -/
def Inset.place (start : Position) (inset : Inset) : Position :=
  inset.before.foldl Item.noted start

/-- The tokens of an inset and where they are noted. -/
def Inset.part (read : Reader) (start : Position) (inset : Inset) : Except Malformed (List Token × Position) :=
  (read inset.code ((inset.place start).right 2)).map fun tokens => (tokens, inset.place start)

section Second

variable {read : Reader} {closer : Option Char} {pos : Position} {code rest : List Char} {items : List Item}

theorem splitBody_skip {embeds : Bool} (text : List Char) :
    splitBody read embeds closer text.length pos (text ++ rest) = splitBody read embeds closer 0 pos rest := by
  induction text with
  | nil => rfl
  | cons c text ih => exact ih

theorem splitBody_escaped (c : Char) : splitBody read true closer 0 pos ('\\' :: c :: rest) =
    (splitBody read true closer 0 ((Item.escape c).noted pos) rest).map
      ((unescape true closer c).foldr consText ·) := by
  simp [splitBody, Item.noted]

theorem splitBody_code (closed : codeLength (code ++ '\x7d' :: rest) = some code.length) :
    splitBody read true closer 0 pos ('#' :: '\x7b' :: (code ++ '\x7d' :: rest)) = do
      let inner ← read code (pos.right 2)
      let more ← splitBody read true closer 0 ((Item.code code).noted pos) rest
      return .code inner pos :: more := by
  have length : codeLength ('\x7b' :: (code ++ '\x7d' :: rest)).tail = some code.length := closed
  have inner : ('\x7b' :: (code ++ '\x7d' :: rest)).tail.take code.length = code := List.take_left
  have long : code.length + 2 = ('\x7b' :: (code ++ ['\x7d'])).length := by simp
  have split : '\x7b' :: (code ++ '\x7d' :: rest) = '\x7b' :: (code ++ ['\x7d']) ++ rest := by simp
  have opens : opensCode '#' ('\x7b' :: (code ++ '\x7d' :: rest)) = true := rfl
  rw [splitBody.eq_def]
  simp only [Char.reduceEq, if_false, Bool.true_and]
  rw [opens, if_pos rfl, length]
  dsimp only
  rw [inner, long, split, splitBody_skip]
  rfl

/-- A literal without text and code has no code. -/
theorem parts_segments (read : Reader) (embeds : Bool) (closer : Option Char) (pos : Position) (body : List Char) :
    (segments read embeds closer pos body).map parts = (splitBody read embeds closer 0 pos body).map parts := by
  rw [segments, map_map]
  refine congrArg (Except.map · _) (funext fun found => ?_)
  cases found <;> rfl

/-- Behind a piece of a body every inset stands as it stands in the rest of it. -/
theorem mapM_part_insets (item : Item) (more : List Item) :
    ((insets more).map fun inset => { inset with before := item :: inset.before }).mapM (Inset.part read pos) =
      (insets more).mapM (Inset.part read (item.noted pos)) := by
  rw [List.mapM_map]
  rfl

/-- The second pass reads the code that the first one passed over, in order, and nothing else. -/
theorem Passes.splits {marks : Delimiters} {depth : Nat} {text after : List Char}
    (passes : Passes marks depth text items after) (embeds : marks.embeds = true) :
    (splitBody read true closer 0 pos (items.flatMap Item.text)).map parts =
      (insets items).mapM (Inset.part read pos) := by
  induction passes generalizing pos with
  | done => rfl
  | @plain depth deeper c rest after items backslash code deeper' passes ih =>
    have code : opensCode c rest = false := by simpa [embeds] using code
    -- What follows the character in the body follows it in the text too.
    have inner : opensCode c (items.flatMap Item.text) = false := by
      rw [passes.split] at code
      cases found : items.flatMap Item.text with
      | nil => simp [opensCode]
      | cons d more => rwa [found] at code
    rw [List.flatMap_cons, Item.text, List.singleton_append, splitBody_next backslash (by rw [inner, Bool.and_false]),
      map_map]
    simp only [parts_consText]
    exact ih.trans (mapM_part_insets (.plain c) items).symm
  | @escape depth c rest after items passes ih =>
    rw [List.flatMap_cons, Item.text, List.cons_append, List.singleton_append, splitBody_escaped, map_map]
    simp only [parts_foldr_consText]
    exact ih.trans (mapM_part_insets (.escape c) items).symm
  | @code depth code rest after items _ closes passes ih =>
    obtain ⟨code', rest', split, length, closed⟩ := codeLength_eq_some_iff.1 closes
    obtain ⟨rfl, -⟩ := List.append_inj split length.symm
    have inner : codeLength (code ++ '\x7d' :: items.flatMap Item.text) = some code.length :=
      codeLength_eq_some_iff.2 ⟨code, _, rfl, rfl, closed⟩
    have body : (.code code :: items : List Item).flatMap Item.text =
        '#' :: '\x7b' :: (code ++ '\x7d' :: items.flatMap Item.text) := by simp [Item.text]
    rw [body, splitBody_code inner]
    change _ = ((⟨[], code⟩ : Inset) :: _).mapM _
    rw [List.mapM_cons, mapM_part_insets, ← ih]
    cases tokens : read code (pos.right 2) with
    | error => simp [Inset.part, Inset.place, tokens]; rfl
    | ok tokens' =>
      simp only [Inset.part, Inset.place, List.foldl_nil, tokens]
      cases splitBody read true closer 0 ((Item.code code).noted pos) (items.flatMap Item.text) <;> rfl

end Second

/-- What one pass over a literal that embeds code passes over as code is what the other one reads as code. It is all
that can keep the body from being read, and each piece of it ends at the brace that closes it. -/
theorem passes_agree {marks : Delimiters} {cursor : Cursor} {body after : List Char} (embeds : marks.embeds = true)
    (h : Scan.body marks cursor = .ok (body, after)) :
    (∃ items, Passes marks 0 cursor.rest items after ∧ body = items.flatMap Item.text ∧
      (∀ code, .code code ∈ items → Closed code) ∧
      ∀ read closer pos, (segments read true closer pos body).map parts =
        (insets items).mapM (Inset.part read pos)) ∧
    ∀ text n, codeLength text = some n ↔
      ∃ code rest, text = code ++ '\x7d' :: rest ∧ code.length = n ∧ Closed code := by
  obtain ⟨items, passes, rfl⟩ := readBody_eq_ok_iff.1 (Scan.body_eq_ok_iff.1 h)
  refine ⟨⟨items, passes, rfl, fun code => passes.closed, fun read closer pos => ?_⟩, fun _ _ => codeLength_eq_some_iff⟩
  rw [parts_segments, passes.splits embeds]

/-- A brace in a string of the code does not end it, and an escaped one does not end the literal. -/
theorem passes_agree_quoted :
    Scan.body ⟨some '\x7b', '\x7d', true⟩ (.ofText "a#\x7bf '\x7d'\x7d\\\x7d\x7d b".toList .origin) =
      .ok ("a#\x7bf '\x7d'\x7d\\\x7d".toList, " b".toList) ∧
    ∃ items, Passes ⟨some '\x7b', '\x7d', true⟩ 0 "a#\x7bf '\x7d'\x7d\\\x7d\x7d b".toList items " b".toList ∧
      ∀ code, .code code ∈ items → Closed code := by
  have ends : Scan.body ⟨some '\x7b', '\x7d', true⟩ (.ofText "a#\x7bf '\x7d'\x7d\\\x7d\x7d b".toList .origin) =
      .ok ("a#\x7bf '\x7d'\x7d\\\x7d".toList, " b".toList) := rfl
  obtain ⟨⟨items, passes, -, closed, -⟩, -⟩ := passes_agree rfl ends
  exact ⟨ends, items, passes, closed⟩

end Formulary.Literal

import Formulary.Grammar.Basic
import Formulary.Proofs.Token.Order

/-!
The tokens of a text by themselves: a name that is marked as no variable does not look like one, and code in a string
was read as the text was. With their order this holds of the tokens of a text and of all code in it.
-/

namespace Formulary

/-- Whether a name is one that a variable can have: no word with a meaning of its own, and neither a constant nor a
name that a sign marks. -/
def isVariableName (name : String) : Bool :=
  !Grammar.valueWords.contains name && name.toList.head?.any fun c => !Text.isUpper c && c ≠ '@' && c ≠ '$'

theorem isVariableName_of_head {name : String} {c : Char} (front : name.toList.head? = some c)
    (h : (!Text.isUpper c && c ≠ '@' && c ≠ '$') = false) : isVariableName name = false := by
  rw [isVariableName, front, Option.any_some, h, Bool.and_false]

namespace Lexeme

/-- What is marked as no variable does not look like one. -/
def Marked : Lexeme Token → Prop
  | constant name | instanceVar name | globalVar name => isVariableName name = false
  | _ => True

/-- The parts of a string. -/
def segments : Lexeme Token → List (Segment Token)
  | string segments | shell segments => segments
  | _ => []

/-- Whether a lexeme is a string of either kind. -/
def isText : Lexeme Token → Bool
  | string _ | shell _ => true
  | _ => false

end Lexeme

namespace Scan

open Body Result Spelling

variable {code : Reader} {state : State} {found : Found} {text after : List Char} {lexeme : Lexeme Token}
  {segments : Segments} {cursor : Cursor} {tokens : List Token} {bodies : List Segments}

/-! Code in strings -/

/-- Code among these parts was read as tokens of its own. -/
def ReadBy (code : Reader) (segments : Segments) : Prop :=
  ∀ inner pos, .code inner pos ∈ segments → ∃ text start, code text start = .ok inner

theorem readBy_nil : ReadBy code [] :=
  nofun

theorem readBy_consText {c : Char} (h : ReadBy code segments) : ReadBy code (Literal.consText c segments) := by
  intro inner pos member
  refine h inner pos ?_
  unfold Literal.consText at member
  split at member
  · exact List.mem_cons_of_mem _ ((List.mem_cons.1 member).resolve_left nofun)
  · exact (List.mem_cons.1 member).resolve_left nofun

theorem readBy_foldr_consText {text : List Char} (h : ReadBy code segments) :
    ReadBy code (text.foldr Literal.consText segments) := by
  induction text with
  | nil => exact h
  | cons c more ih => exact readBy_consText ih

theorem readBy_splitBody {embeds : Bool} {closer : Option Char} {skip : Nat} {pos : Position}
    (h : Literal.splitBody code embeds closer skip pos text = .ok segments) : ReadBy code segments := by
  induction text generalizing skip pos segments with
  | nil => exact Except.ok.inj h ▸ readBy_nil
  | cons c more ih =>
    unfold Literal.splitBody at h
    cases skip with
    | succ skip => exact ih h
    | zero =>
      dsimp only at h
      split at h
      · obtain ⟨found, hfound, rfl⟩ := map_eq_ok_iff.1 h
        exact readBy_consText (ih hfound)
      split at h
      · obtain ⟨found, hfound, rfl⟩ := map_eq_ok_iff.1 h
        exact readBy_foldr_consText (ih hfound)
      split at h
      · split at h
        · contradiction
        · obtain ⟨inner, hinner, h⟩ := bind_eq_ok_iff.1 h
          obtain ⟨others, hothers, h⟩ := bind_eq_ok_iff.1 h
          obtain rfl := pure_eq_ok_iff.1 h
          intro other place member
          obtain same | member := List.mem_cons.1 member
          · obtain ⟨rfl, rfl⟩ := Segment.code.inj same
            exact ⟨_, _, hinner⟩
          · exact ih hothers other place member
      · obtain ⟨found, hfound, rfl⟩ := map_eq_ok_iff.1 h
        exact readBy_consText (ih hfound)

theorem readBy_segments {embeds : Bool} {closer : Option Char} {pos : Position}
    (h : Literal.segments code embeds closer pos text = .ok segments) : ReadBy code segments := by
  obtain ⟨found, hfound, rfl⟩ := map_eq_ok_iff.1 h
  split
  · intro inner place member
    cases List.mem_singleton.1 member
  · exact readBy_splitBody hfound

theorem readBy_literal {marks : Literal.Delimiters} (h : literal code marks cursor = .ok (segments, after)) :
    ReadBy code segments := by
  obtain ⟨text, -, hfound⟩ := literal_eq_ok_iff.1 h
  exact readBy_segments hfound

theorem readBy_bodies {pending : List (Heredoc.Opener × Position)} {behind : Cursor}
    (h : readBodies code cursor pending = .ok (bodies, behind)) : ∀ body ∈ bodies, ReadBy code body := by
  induction pending generalizing cursor bodies with
  | nil =>
    obtain ⟨rfl, -⟩ := Prod.mk.inj (Except.ok.inj h)
    nofun
  | cons opened more ih =>
    obtain ⟨lines, rest, body, bodies', -, hbody, hmore, rfl⟩ := readBodies_cons_iff.1 h
    exact List.forall_mem_cons.2 ⟨readBy_segments hbody, ih hmore⟩

/-! Tokens -/

/-- What holds of a token by itself: of its name and of the code in it. -/
structure Genuine (code : Reader) (lexeme : Lexeme Token) : Prop where
  marked : lexeme.Marked
  readBy : ReadBy code lexeme.segments

/-- A token that is no string, if its name is rightly marked. -/
structure Bare (lexeme : Lexeme Token) : Prop where
  marked : lexeme.Marked
  silent : lexeme.isText = false

theorem Bare.segments_eq (h : Bare lexeme) : lexeme.segments = [] := by
  obtain ⟨-, silent⟩ := h
  cases lexeme <;> first | rfl | cases silent

theorem Bare.place_eq (h : Bare lexeme) (f : Position → Position) : lexeme.place f = lexeme := by
  obtain ⟨-, silent⟩ := h
  cases lexeme <;> first | rfl | cases silent

theorem Bare.ne_hollow (h : Bare lexeme) : lexeme ≠ .string [] := by
  rintro rfl
  cases h.silent

theorem Bare.genuine (h : Bare lexeme) : Genuine code lexeme :=
  ⟨h.marked, h.segments_eq ▸ readBy_nil⟩

theorem bare_number (text : List Char) : Bare (number text).1 := by
  have decimal (text : List Char) : Bare (decimalNumber text).1 := by
    unfold decimalNumber
    dsimp only
    split <;> exact ⟨trivial, rfl⟩
  unfold number
  split
  · split
    · exact ⟨trivial, rfl⟩
    · exact decimal _
  · exact decimal _

theorem bare_word {c : Char} {more : List Char} (name : isNameChar c = true) (last : Option (Lexeme Token)) :
    Bare (word last (c :: more)).1 := by
  unfold word
  dsimp only
  split
  · exact ⟨trivial, rfl⟩
  split
  · exact ⟨trivial, rfl⟩
  split
  · rename_i upper
    have some : 0 < wordLength (c :: more) := wordLength_pos name
    obtain ⟨n, hn⟩ := Nat.exists_eq_succ_of_ne_zero (Nat.pos_iff_ne_zero.1 some)
    have capital : Text.isUpper c = true := by simpa using upper
    refine ⟨isVariableName_of_head (c := c) ?_ (by simp [capital]), rfl⟩
    rw [hn, String.toList_ofList, List.take_succ_cons, List.head?_cons]
  · exact ⟨trivial, rfl⟩

theorem bare_instanceName (h : instanceName text = some (lexeme, after)) : Bare lexeme := by
  unfold instanceName at h
  split at h
  rename_i sigil behind read
  dsimp only at h
  split at h
  · contradiction
  · obtain ⟨rfl, -⟩ := Prod.mk.inj (Option.some.inj h)
    refine ⟨isVariableName_of_head (c := '@') ?_ (by decide), rfl⟩
    split at read <;>
    · obtain ⟨rfl, -⟩ := Prod.mk.inj read
      simp

theorem bare_globalName (h : globalName text = some (lexeme, after)) : Bare lexeme := by
  unfold globalName at h
  dsimp only at h
  split at h
  · obtain ⟨c, -, eq⟩ := Option.map_eq_some_iff.1 h
    obtain ⟨rfl, -⟩ := Prod.mk.inj eq
    exact ⟨isVariableName_of_head (c := '$') (by simp) (by decide), rfl⟩
  · obtain ⟨rfl, -⟩ := Prod.mk.inj (Option.some.inj h)
    exact ⟨isVariableName_of_head (c := '$') (by simp) (by decide), rfl⟩

theorem bare_sign (h : sign text = some (lexeme, after)) : Bare lexeme := by
  unfold sign at h
  split at h
  · exact (Prod.mk.inj (Option.some.inj h)).1 ▸ ⟨trivial, rfl⟩
  split at h
  · exact (Prod.mk.inj (Option.some.inj h)).1 ▸ ⟨trivial, rfl⟩
  split at h
  · exact (Prod.mk.inj (Option.some.inj h)).1 ▸ ⟨trivial, rfl⟩
  · obtain ⟨c, -, punctuated⟩ := Option.bind_eq_some_iff.1 h
    obtain ⟨found, hfound, eq⟩ := Option.map_eq_some_iff.1 punctuated
    obtain ⟨rfl, -⟩ := Prod.mk.inj eq
    unfold punctuation? at hfound
    split at hfound <;> first | contradiction | exact Option.some.inj hfound ▸ ⟨trivial, rfl⟩

theorem bare_quotedSymbol {quote : Char} {start : Position}
    (h : quotedSymbol code quote start cursor = .ok (lexeme, after)) : Bare lexeme := by
  obtain ⟨segments, name, -, -, rfl⟩ := quotedSymbol_eq_ok_iff.1 h
  exact ⟨trivial, rfl⟩

theorem bare_afterColon (h : afterColon code cursor = .ok (lexeme, after)) : Bare lexeme := by
  unfold afterColon at h
  split at h
  · exact (Prod.mk.inj (Except.ok.inj h)).1 ▸ ⟨trivial, rfl⟩
  · exact bare_quotedSymbol h
  · exact bare_quotedSymbol h
  · split at h
    · exact (Prod.mk.inj (Except.ok.inj h)).1 ▸ ⟨trivial, rfl⟩
    · exact (Prod.mk.inj (Except.ok.inj h)).1 ▸ ⟨trivial, rfl⟩
  · exact (Prod.mk.inj (Except.ok.inj h)).1 ▸ ⟨trivial, rfl⟩

theorem bare_regexp {marks : Literal.Delimiters} (h : regexp marks cursor = .ok (lexeme, after)) :
    Bare lexeme := by
  obtain ⟨text, behind, -, rfl, -⟩ := regexp_eq_ok_iff.1 h
  exact ⟨trivial, rfl⟩

theorem genuine_percentLiteral {percent : Percent} (h : percentLiteral code percent cursor = .ok (lexeme, after)) :
    Genuine code lexeme := by
  cases percentLiteral_eq_ok_iff.1 h with
  | regexp _ h => exact (bare_regexp h).genuine
  | words | symbols => exact ⟨trivial, readBy_nil⟩
  | string _ h => exact ⟨trivial, readBy_literal h⟩

theorem genuine_plainToken {c : Char} {more : List Char} (front : state.cursor.rest = c :: more)
    (h : plainToken code state c = .ok (lexeme, after)) : Genuine code lexeme := by
  cases plainToken_cases front h with
  | number => exact (bare_number _).genuine
  | word name => exact (bare_word name state.last).genuine
  | instanceVar _ h => exact (bare_instanceName h).genuine
  | globalVar _ h => exact (bare_globalName h).genuine
  | string _ h => exact ⟨trivial, readBy_literal h⟩
  | shell _ h => exact ⟨trivial, readBy_literal h⟩
  | colon _ h => exact (bare_afterColon h).genuine
  | regexp _ h => exact (bare_regexp h).genuine
  | percent _ _ h => exact genuine_percentLiteral h
  | sign h => exact (bare_sign h).genuine

/-! Whole scans -/

theorem Step.genuine (h : Step code state found) :
    (∀ token ∈ found.tokens, Genuine code token.lexeme) ∧ ∀ body ∈ found.bodies, ReadBy code body := by
  cases h with
  | blockComment | blank | continuation | comment => exact ⟨nofun, nofun⟩
  | newline front atCode h =>
    obtain ⟨bodies, cursor, hbodies, rfl⟩ := newline_cases h
    split
    · exact ⟨nofun, readBy_bodies hbodies⟩
    · exact ⟨List.forall_mem_singleton.2 ⟨trivial, readBy_nil⟩, readBy_bodies hbodies⟩
  | token front atCode solid single hash line h =>
    obtain ⟨opener, after, -, -, rfl⟩ | ⟨-, lexeme, after, hplain, rfl⟩ := token_cases h
    · exact ⟨List.forall_mem_singleton.2 ⟨trivial, readBy_nil⟩, nofun⟩
    · exact ⟨List.forall_mem_singleton.2 (genuine_plainToken front hplain), nofun⟩

theorem Scans.genuine (h : Scans code state tokens bodies) :
    (∀ token ∈ tokens, Genuine code token.lexeme) ∧ ∀ body ∈ bodies, ReadBy code body := by
  induction h with
  | done => exact ⟨List.forall_mem_singleton.2 ⟨trivial, readBy_nil⟩, nofun⟩
  | next hstep _ ih =>
    exact ⟨List.forall_mem_append.2 ⟨hstep.genuine.1, ih.1⟩, List.forall_mem_append.2 ⟨hstep.genuine.2, ih.2⟩⟩

theorem genuine_plug (htokens : ∀ token ∈ tokens, Genuine code token.lexeme)
    (hbodies : ∀ body ∈ bodies, ReadBy code body) : ∀ token ∈ plug tokens bodies, Genuine code token.lexeme := by
  intro token member
  obtain ⟨found, among, -, rfl | ⟨segments, body, -, filled⟩⟩ := mem_plug member
  · exact htokens token among
  · rw [filled]
    exact ⟨trivial, hbodies segments body⟩

end Scan

/-- Tokens behind which stands the end of a text, and so it is with those of the code in them. -/
inductive Capped : List Token → Prop
  | intro {tokens : List Token} (ends : ∃ front last, tokens = front ++ [last] ∧ last.lexeme = .endOfText)
      (inner : ∀ token ∈ tokens, ∀ code pos, .code code pos ∈ token.lexeme.segments → Capped code) : Capped tokens

namespace Capped

variable {tokens code front : List Token} {token last : Token} {pos : Position}

theorem inner (h : Capped tokens) (mem : token ∈ tokens) (within : .code code pos ∈ token.lexeme.segments) :
    Capped code := by
  cases h with
  | intro _ inner => exact inner token mem code pos within

theorem final (h : Capped (front ++ [last])) : last.lexeme = .endOfText := by
  cases h with
  | intro ends _ =>
    obtain ⟨front', last', same, final⟩ := ends
    rwa [List.singleton_inj.1 (List.append_inj' same rfl).2]

theorem behind {rest : List Token} (h : Capped (front ++ [last])) (fewer : rest <:+ front) :
    Capped (rest ++ [last]) := by
  obtain ⟨used, rfl⟩ := fewer
  refine .intro ⟨rest, last, rfl, h.final⟩ fun token mem code pos within => h.inner ?_ within
  rw [List.append_assoc]
  exact List.mem_append_right used mem

/-- The tokens of a text without the end, and the end. -/
theorem split (h : Capped tokens) (default : Token) : tokens.dropLast ++ [tokens.getLast?.getD default] = tokens := by
  cases h with
  | intro ends _ =>
    obtain ⟨front, last, rfl, -⟩ := ends
    simp

end Capped

/-- Tokens as a scan finds them: in the order of the text, each marked as its name is, and the end of the text last;
and so are the tokens of all code in them. -/
inductive Scanned : List Token → Prop
  | intro {tokens : List Token} (ends : ∃ front last, tokens = front ++ [last] ∧ last.lexeme = .endOfText)
      (ordered : (tokens.map (·.pos)).Pairwise Position.Before) (marked : ∀ token ∈ tokens, token.lexeme.Marked)
      (inner : ∀ token ∈ tokens, ∀ code pos, .code code pos ∈ token.lexeme.segments → Scanned code) : Scanned tokens

namespace Scanned

theorem ordered {tokens : List Token} (h : Scanned tokens) : (tokens.map (·.pos)).Pairwise Position.Before := by
  cases h
  assumption

theorem marked {tokens : List Token} (h : Scanned tokens) {token : Token} (member : token ∈ tokens) :
    token.lexeme.Marked := by
  cases h with
  | intro _ _ marked _ => exact marked token member

theorem inner {tokens code : List Token} (h : Scanned tokens) {token : Token} {pos : Position}
    (member : token ∈ tokens) (within : .code code pos ∈ token.lexeme.segments) : Scanned code := by
  cases h with
  | intro _ _ _ inner => exact inner token member code pos within

theorem capped {tokens : List Token} (h : Scanned tokens) : Capped tokens := by
  induction h with
  | intro ends _ _ _ ih => exact .intro ends ih

theorem final {front : List Token} {last : Token} (h : Scanned (front ++ [last])) : last.lexeme = .endOfText :=
  h.capped.final

theorem behind {used front : List Token} {last : Token} (h : Scanned (used ++ front ++ [last])) :
    Scanned (front ++ [last]) := by
  have final := h.final
  rw [List.append_assoc] at h
  refine .intro ⟨front, last, rfl, final⟩ ?_ (fun _ member => h.marked (List.mem_append_right used member))
    fun _ member _ _ => h.inner (List.mem_append_right used member)
  have ordered := h.ordered
  rw [List.map_append] at ordered
  exact (List.pairwise_append.1 ordered).2.1

end Scanned

theorem scanned_tokensWithin {depth : Nat} {text : List Char} {pos : Position} {tokens : List Token}
    (h : Scan.tokensWithin depth text pos = .ok tokens) : Scanned tokens := by
  induction depth generalizing text pos tokens with
  | zero => contradiction
  | succ depth ih =>
    obtain ⟨found, bodies, scans, rfl⟩ := Scan.tokensWithin_eq_ok_iff.1 h
    have genuine := Scan.genuine_plug scans.genuine.1 scans.genuine.2
    refine .intro ?_ ?_ (fun token member => (genuine token member).marked) fun token member code place within => ?_
    · obtain ⟨front, place, rfl⟩ := scans.ends
      exact ⟨_, _, Scan.plug_append_end front place bodies, rfl⟩
    · rw [Scan.pos_plug]
      exact scans.ordered.1
    · obtain ⟨inner, start, read⟩ := (genuine token member).readBy code place within
      exact ih read

theorem scanned_tokenize {text : List Char} {pos : Position} {tokens : List Token}
    (h : tokenize text pos = .ok tokens) : Scanned tokens :=
  scanned_tokensWithin h

end Formulary

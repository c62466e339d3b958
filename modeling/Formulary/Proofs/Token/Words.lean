import Formulary.Proofs.Token.Names

/-!
What the names of tokens are made of. A word is a stem of name characters with the mark that may end it, a variable's
name a sigil and a stem. Only the special global variables have a name of any character.
-/

namespace Formulary

open Spelling (isNameChar)

/-- A stem of name characters with the mark that may end it. -/
def IsWord (name : String) : Prop :=
  ∃ stem mark, name.toList = stem ++ mark ∧ stem ≠ [] ∧ (∀ c ∈ stem, isNameChar c = true) ∧
    (mark = [] ∨ mark = ['?'] ∨ mark = ['!'])

theorem IsWord.of_all {name : String} (filled : name.toList ≠ []) (chars : name.toList.all isNameChar = true) :
    IsWord name :=
  ⟨name.toList, [], (List.append_nil _).symm, filled, List.all_eq_true.1 chars, .inl rfl⟩

/-- The name of a variable that a sigil marks. -/
inductive IsSigned : String → Prop
  | named {sigil : String} {stem : List Char} (known : sigil ∈ ["@", "@@", "$"])
      (chars : ∀ c ∈ stem, isNameChar c = true) : IsSigned (sigil ++ String.ofList stem)
  | special (c : Char) : IsSigned ("$" ++ String.ofList [c])

namespace Lexeme

/-- Names are words, and those of variables with a sigil are signed. -/
def Worded : Lexeme Token → Prop
  | label name | identifier name | constant name | keyword name => IsWord name
  | instanceVar name | globalVar name => IsSigned name
  | _ => True

/-- Whether a lexeme has a name that is written as it stands. -/
def isName : Lexeme Token → Bool
  | label _ | identifier _ | constant _ | keyword _ | instanceVar _ | globalVar _ => true
  | _ => false

theorem worded_of_nameless {lexeme : Lexeme Token} (nameless : lexeme.isName = false) : lexeme.Worded := by
  cases lexeme <;> trivial

end Lexeme

namespace Scan

open Body Result Spelling

variable {code : Reader} {state : State} {cursor : Cursor} {found : Found} {c : Char} {text more after : List Char}
  {lexeme : Lexeme Token} {tokens : List Token} {bodies : List Segments}

theorem isWord_take (name : isNameChar c = true) :
    IsWord (String.ofList ((c :: more).take (wordLength (c :: more)))) := by
  have filled : (c :: more).takeWhile isNameChar ≠ [] := by
    rw [List.takeWhile_cons_of_pos name]
    exact List.cons_ne_nil _ _
  have chars : ∀ d ∈ (c :: more).takeWhile isNameChar, isNameChar d = true := List.all_eq_true.1 List.all_takeWhile
  have stem : (c :: more).take ((c :: more).takeWhile isNameChar).length = (c :: more).takeWhile isNameChar :=
    (List.prefix_iff_eq_take.1 (List.takeWhile_prefix _)).symm
  refine ⟨(c :: more).takeWhile isNameChar, ?_⟩
  rw [String.toList_ofList]
  unfold wordLength
  dsimp only
  split
  · rename_i mark rest behind
    split
    · rename_i marked
      refine ⟨[mark], ?_, filled, chars, ?_⟩
      · rw [List.take_add_one, stem, ← List.head?_drop, behind]
        rfl
      · obtain rfl | rfl := marked.1
        · exact .inr (.inl rfl)
        · exact .inr (.inr rfl)
    · exact ⟨[], by rw [stem, List.append_nil], filled, chars, .inl rfl⟩
  · exact ⟨[], by rw [stem, List.append_nil], filled, chars, .inl rfl⟩

theorem worded_word (name : isNameChar c = true) (last : Option (Lexeme Token)) :
    (word last (c :: more)).1.Worded := by
  have spelled : IsWord (String.ofList ((c :: more).take (wordLength (c :: more)))) := isWord_take name
  unfold word
  dsimp only
  split
  · exact spelled
  split
  · exact spelled
  split
  · exact spelled
  · exact spelled

theorem worded_instanceName (h : instanceName text = some (lexeme, after)) : lexeme.Worded := by
  unfold instanceName at h
  split at h
  rename_i sigil behind read
  dsimp only at h
  split at h
  · contradiction
  · obtain ⟨rfl, -⟩ := Prod.mk.inj (Option.some.inj h)
    refine .named ?_ (List.all_eq_true.1 List.all_takeWhile)
    split at read <;>
    · obtain ⟨rfl, -⟩ := Prod.mk.inj read
      decide

theorem worded_globalName (h : globalName text = some (lexeme, after)) : lexeme.Worded := by
  unfold globalName at h
  dsimp only at h
  split at h
  · obtain ⟨c, -, eq⟩ := Option.map_eq_some_iff.1 h
    obtain ⟨rfl, -⟩ := Prod.mk.inj eq
    exact .special c
  · obtain ⟨rfl, -⟩ := Prod.mk.inj (Option.some.inj h)
    exact .named (by decide) (List.all_eq_true.1 List.all_takeWhile)

theorem worded_number (text : List Char) : (number text).1.Worded := by
  refine Lexeme.worded_of_nameless ?_
  unfold number decimalNumber
  dsimp only
  repeat' split
  all_goals rfl

theorem worded_sign (h : sign text = some (lexeme, after)) : lexeme.Worded := by
  refine Lexeme.worded_of_nameless ?_
  unfold sign at h
  split at h
  · exact (Prod.mk.inj (Option.some.inj h)).1 ▸ rfl
  split at h
  · exact (Prod.mk.inj (Option.some.inj h)).1 ▸ rfl
  split at h
  · exact (Prod.mk.inj (Option.some.inj h)).1 ▸ rfl
  · obtain ⟨c, -, punctuated⟩ := Option.bind_eq_some_iff.1 h
    obtain ⟨found, hfound, eq⟩ := Option.map_eq_some_iff.1 punctuated
    obtain ⟨rfl, -⟩ := Prod.mk.inj eq
    unfold punctuation? at hfound
    split at hfound <;> first | contradiction | exact Option.some.inj hfound ▸ rfl

theorem worded_quotedSymbol {quote : Char} {start : Position}
    (h : quotedSymbol code quote start cursor = .ok (lexeme, after)) : lexeme.Worded := by
  obtain ⟨segments, name, -, -, rfl⟩ := quotedSymbol_eq_ok_iff.1 h
  trivial

theorem worded_afterColon (h : afterColon code cursor = .ok (lexeme, after)) : lexeme.Worded := by
  unfold afterColon at h
  split at h
  · exact (Prod.mk.inj (Except.ok.inj h)).1 ▸ trivial
  · exact worded_quotedSymbol h
  · exact worded_quotedSymbol h
  · split at h <;> exact (Prod.mk.inj (Except.ok.inj h)).1 ▸ trivial
  · exact (Prod.mk.inj (Except.ok.inj h)).1 ▸ trivial

theorem worded_regexp {marks : Literal.Delimiters} (h : regexp marks cursor = .ok (lexeme, after)) :
    lexeme.Worded := by
  obtain ⟨text, behind, -, rfl, -⟩ := regexp_eq_ok_iff.1 h
  trivial

theorem worded_percentLiteral {percent : Percent} (h : percentLiteral code percent cursor = .ok (lexeme, after)) :
    lexeme.Worded := by
  cases percentLiteral_eq_ok_iff.1 h with
  | regexp _ h => exact worded_regexp h
  | words | symbols | string => trivial

theorem worded_plainToken (front : state.cursor.rest = c :: more)
    (h : plainToken code state c = .ok (lexeme, after)) : lexeme.Worded := by
  cases plainToken_cases front h with
  | number => exact worded_number _
  | word name => exact worded_word name state.last
  | instanceVar _ h => exact worded_instanceName h
  | globalVar _ h => exact worded_globalName h
  | string | shell => trivial
  | colon _ h => exact worded_afterColon h
  | regexp _ h => exact worded_regexp h
  | percent _ _ h => exact worded_percentLiteral h
  | sign h => exact worded_sign h

theorem Step.worded (h : Step code state found) : ∀ token ∈ found.tokens, token.lexeme.Worded := by
  cases h with
  | blockComment | blank | continuation | comment => exact List.forall_mem_nil _
  | newline front atCode h =>
    obtain ⟨bodies, cursor, -, rfl⟩ := newline_cases h
    split
    · exact List.forall_mem_nil _
    · exact List.forall_mem_singleton.2 trivial
  | token front atCode solid single hash line h =>
    obtain ⟨opener, after, -, -, rfl⟩ | ⟨-, lexeme, after, hplain, rfl⟩ := token_cases h
    · exact List.forall_mem_singleton.2 trivial
    · exact List.forall_mem_singleton.2 (worded_plainToken front hplain)

theorem Scans.worded (h : Scans code state tokens bodies) : ∀ token ∈ tokens, token.lexeme.Worded := by
  induction h with
  | done => exact List.forall_mem_singleton.2 trivial
  | next hstep _ ih => exact List.forall_mem_append.2 ⟨hstep.worded, ih⟩

end Scan

/-- A token whose name is made as names are, and so are those of the tokens of code in it. -/
inductive Token.Worded : Token → Prop
  | intro {token : Token} (lexeme : token.lexeme.Worded)
      (inner : ∀ code pos, .code code pos ∈ token.lexeme.segments → ∀ other ∈ code, Worded other) : Worded token

namespace Token.Worded

theorem lexeme {token : Token} (h : token.Worded) : token.lexeme.Worded := by
  cases h
  assumption

theorem inner {token : Token} {code : List Token} {pos : Position} (h : token.Worded)
    (within : .code code pos ∈ token.lexeme.segments) : ∀ other ∈ code, other.Worded := by
  cases h with
  | intro _ inner => exact inner code pos within

end Token.Worded

theorem worded_tokensWithin {depth : Nat} {text : List Char} {pos : Position} {tokens : List Token}
    (h : Scan.tokensWithin depth text pos = .ok tokens) : ∀ token ∈ tokens, token.Worded := by
  induction depth generalizing text pos tokens with
  | zero => contradiction
  | succ depth ih =>
    obtain ⟨found, bodies, scans, rfl⟩ := Scan.tokensWithin_eq_ok_iff.1 h
    have genuine := Scan.genuine_plug scans.genuine.1 scans.genuine.2
    intro token member
    refine .intro ?_ fun code place within => ?_
    -- a token whose body is filled in is a string, which has no name
    · obtain ⟨plain, among, -, rfl | ⟨segments, body, -, filled⟩⟩ := Scan.mem_plug member
      · exact scans.worded token among
      · rw [filled]
        trivial
    -- the code in it was read one level further down
    · obtain ⟨inner, start, read⟩ := (genuine token member).readBy code place within
      exact ih read

theorem worded_tokenize {text : List Char} {pos : Position} {tokens : List Token}
    (h : tokenize text pos = .ok tokens) : ∀ token ∈ tokens, token.Worded :=
  worded_tokensWithin h

end Formulary

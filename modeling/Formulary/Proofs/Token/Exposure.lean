import Formulary.Proofs.Token.Run

/-!
The one thing that layout can change. A sign before a newline is an operator; before a carriage return the same
sign opens a literal if an operand can begin there.
-/

namespace Formulary.Scan

open Body Gap Result Seam Spelling

variable {code : Reader} {state : State} {lexeme : Lexeme Token} {text rest after : List Char}

theorem operandExpected_of_follows (possible : operandPossible state = true)
    (follows : (state.cursor.rest.tail.head?.any fun c => !([' ', '\t', '\n', '='].contains c)) = true) :
    operandExpected state = true := by
  unfold operandPossible at possible
  unfold operandExpected
  rw [follows]
  split
  · rfl
  · rename_i last some
    simpa [some] using possible

theorem isOperator_of_sign (opens : Opens text) (soft : Soft rest) (h : sign (text ++ rest) = some (lexeme, after)) :
    lexeme.operator?.isSome = true := by
  have spelled : (sign text).all (fun found => found.1.operator?.isSome) = true := by
    obtain rfl | rfl | ⟨kind, mem, rfl⟩ := opens
    · decide
    · decide
    · have kinds : (Percent.kinds.all fun kind =>
          (sign ['%', kind]).all fun found => found.1.operator?.isSome) = true := by decide
      exact List.all_eq_true.1 kinds kind mem
  rw [sign_append soft] at h
  obtain ⟨⟨found, behind⟩, hfound, eq⟩ := Option.map_eq_some_iff.1 h
  obtain ⟨rfl, -⟩ : found = lexeme ∧ behind ++ rest = after := Prod.mk.inj eq
  simpa [hfound] using spelled

/-- Before a newline that is left for later, the sign is an operator. -/
theorem isOperator_of_newline {c : Char} {more post : List Char} (opens : Opens (c :: more))
    (front : state.cursor.rest = c :: more ++ '\n' :: post) (h : plainToken code state c = .ok (lexeme, after))
    (left : post.length < after.length) : lexeme.operator?.isSome = true := by
  have soft : Soft ('\n' :: post) := fun d head => .inr (Option.some.inj head).symm
  have plain {error : Malformed}
      (found : (sign state.cursor.rest).elim (Except.error error) Except.ok = .ok (lexeme, after)) :
      lexeme.operator?.isSome = true := by
    rw [elim_eq_ok_iff, front] at found
    exact isOperator_of_sign opens soft found
  have percent (eq : c = '%') (none : Percent.read? more = none) : lexeme.operator?.isSome = true := by
    subst eq
    have read : Percent.read? state.cursor.rest.tail = Option.none := by
      rw [front, List.cons_append, List.tail_cons, read?_append soft nofun, none]
    rw [plainToken_percent, read] at h
    split at h
    · exact plain h
    · exact plain h
  obtain eq | eq | ⟨kind, mem, eq⟩ := opens
  · obtain ⟨rfl, rfl⟩ := List.cons.inj eq
    rw [plainToken_slash] at h
    split at h
    · obtain ⟨body, behind, hread, -, rfl⟩ := regexp_eq_ok_iff.1 h
      have taken := readBody_length hread
      have flags := (List.dropWhile_suffix isFlag (l := behind)).length_le
      rw [rest_next, front] at taken
      simp only [List.cons_append, List.nil_append, List.tail_cons, List.length_cons] at taken
      omega
    · exact plain h
  · obtain ⟨rfl, rfl⟩ := List.cons.inj eq
    exact percent rfl rfl
  · obtain ⟨rfl, rfl⟩ := List.cons.inj eq
    refine percent rfl ?_
    rw [read?_cons, if_pos (List.contains_iff_mem.2 mem)]
    rfl

theorem operator?_regexp {marks : Literal.Delimiters} {cursor : Cursor}
    (h : regexp marks cursor = .ok (lexeme, after)) : lexeme.operator? = none := by
  obtain ⟨body, behind, -, rfl, -⟩ := regexp_eq_ok_iff.1 h
  rfl

theorem operator?_percentLiteral {percent : Percent} {cursor : Cursor}
    (h : percentLiteral code percent cursor = .ok (lexeme, after)) : lexeme.operator? = none := by
  cases percentLiteral_eq_ok_iff.1 h with
  | regexp _ h => exact operator?_regexp h
  | words | symbols | string => rfl

/-- Before a carriage return the sign opens a literal. -/
theorem operator?_of_return {c : Char} {more post : List Char} (exposed : Exposed state (c :: more))
    (front : state.cursor.rest = c :: more ++ '\r' :: post) (h : plainToken code state c = .ok (lexeme, after)) :
    lexeme.operator? = none := by
  obtain ⟨possible, eq | eq | ⟨kind, mem, eq⟩⟩ := exposed
  · obtain ⟨rfl, rfl⟩ := List.cons.inj eq
    rw [plainToken_slash, if_pos (operandExpected_of_follows possible (by rw [front]; rfl))] at h
    exact operator?_regexp h
  · obtain ⟨rfl, rfl⟩ := List.cons.inj eq
    obtain ⟨percent, read⟩ : ∃ percent, Percent.read? state.cursor.rest.tail = some percent := by
      rw [front]
      exact ⟨_, rfl⟩
    rw [plainToken_percent, if_pos (operandExpected_of_follows possible (by rw [front]; rfl)), read] at h
    exact operator?_percentLiteral h
  · obtain ⟨rfl, rfl⟩ := List.cons.inj eq
    obtain ⟨percent, read⟩ : ∃ percent, Percent.read? state.cursor.rest.tail = some percent := by
      rw [front, List.cons_append, List.tail_cons, List.cons_append, read?_cons, if_pos (List.contains_iff_mem.2 mem)]
      exact ⟨_, rfl⟩
    have kinds : (Percent.kinds.all fun kind => !([' ', '\t', '\n', '='].contains kind)) = true := by decide
    have follows := List.all_eq_true.1 kinds kind mem
    rw [plainToken_percent, if_pos (operandExpected_of_follows possible (by rw [front]; exact follows)), read] at h
    exact operator?_percentLiteral h

/-! Texts -/

def operatorSigns (tokens : List Token) : List (Option String) :=
  tokens.map fun token => token.lexeme.operator?

theorem operatorSigns_append (tokens others : List Token) :
    operatorSigns (tokens ++ others) = operatorSigns tokens ++ operatorSigns others :=
  List.map_append

theorem operatorSigns_unplaced (tokens : List Token) : operatorSigns (unplaced tokens) = operatorSigns tokens := by
  have blind : Blind nowhere Lexeme.operator? := blind_of_strings (fun _ => rfl) fun _ => rfl
  unfold operatorSigns
  rw [List.map_map]
  congr 1
  funext token
  rw [Function.comp_apply, Token.lexeme_place, blind]

theorem operatorSigns_plug (tokens : List Token) (bodies : List Segments) :
    operatorSigns (plug tokens bodies) = operatorSigns tokens := by
  induction tokens generalizing bodies with
  | nil => rfl
  | cons token more ih =>
    by_cases hollow : token.lexeme = .string []
    · obtain ⟨lexeme, pos, spaced⟩ := token
      subst hollow
      cases bodies with
      | nil => exact congrArg (List.cons none) (ih [])
      | cons found others => exact congrArg (List.cons none) (ih others)
    · rw [plug_cons_of_ne hollow]
      exact congrArg (List.cons token.lexeme.operator?) (ih bodies)

theorem Opens.sign {c : Char} {more : List Char} (opens : Opens (c :: more)) : c = '/' ∨ c = '%' := by
  obtain eq | eq | ⟨kind, -, eq⟩ := opens
  · exact .inl (List.cons.inj eq).1
  · exact .inr (List.cons.inj eq).1
  · exact .inr (List.cons.inj eq).1

theorem Opens.atCode {c : Char} {more : List Char} (opens : Opens (c :: more))
    (front : state.cursor.rest = c :: more ++ rest) : AtCode state := by
  refine atCode_of_head front ?_ ?_
  · obtain rfl | rfl := opens.sign <;> decide
  · obtain rfl | rfl := opens.sign <;> decide

/-- Where a sign stands, a step takes a plain token. -/
theorem step_of_opens {c : Char} {more : List Char} {found : Found} (opens : Opens (c :: more))
    (front : state.cursor.rest = c :: more ++ rest) (h : Step code state found) :
    ∃ lexeme after, plainToken code state c = .ok (lexeme, after) ∧
      found.state.cursor = state.cursor.moveTo after ∧ operatorSigns found.tokens = [lexeme.operator?] := by
  have sign := opens.sign
  have token (h : token code state c = .ok found) : ∃ lexeme after, plainToken code state c = .ok (lexeme, after) ∧
      found.state.cursor = state.cursor.moveTo after ∧ operatorSigns found.tokens = [lexeme.operator?] := by
    obtain ⟨_, _, rfl, -, -⟩ | ⟨-, lexeme, after, hplain, rfl⟩ := token_cases h
    · obtain sign | sign := sign <;> contradiction
    · exact ⟨lexeme, after, hplain, rfl, rfl⟩
  have atCode := opens.atCode front
  cases h with
  | blockComment _ begins _ =>
    rw [atCode.1] at begins
    contradiction
  | blank front' _ blank =>
    obtain ⟨rfl, -⟩ := List.cons.inj (front.symm.trans front')
    obtain rfl | rfl := sign <;> contradiction
  | continuation front' | comment front' | newline front' =>
    obtain ⟨rfl, -⟩ := List.cons.inj (front.symm.trans front')
    obtain sign | sign := sign <;> contradiction
  | token front' _ _ _ _ _ h =>
    obtain ⟨rfl, -⟩ := List.cons.inj (front.symm.trans front')
    exact token h

theorem Scans.first {c : Char} {more : List Char} {tokens : List Token} {bodies : List Segments}
    (h : Scans code state tokens bodies) (opens : Opens (c :: more))
    (front : state.cursor.rest = c :: more ++ rest) :
    ∃ found others, Step code state found ∧ tokens = found.tokens ++ others := by
  cases h with
  | done none =>
    have atCode := opens.atCode front
    obtain ends | ⟨-, ends⟩ := step_eq_none_iff.1 none
    · simp [front] at ends
    · rw [atCode.2] at ends
      contradiction
  | next hstep => exact ⟨_, _, hstep, rfl⟩

/-- Of the places where a sign stands, none is behind the other in front of the same text. -/
theorem Opens.not_longer {front : List Char} (opens : Opens text) (opens' : Opens front) (suffix : text <:+ front) :
    ¬text.length < front.length := by
  intro less
  obtain rfl | rfl | ⟨kind, mem, rfl⟩ := opens'
  · obtain rfl | rfl | ⟨_, -, rfl⟩ := opens <;> simp at less
  · obtain rfl | rfl | ⟨_, -, rfl⟩ := opens <;> simp at less
  · have slash : kind ≠ '/' := by
      rintro rfl
      exact absurd (List.contains_iff_mem.2 mem) (by decide)
    have percent : kind ≠ '%' := by
      rintro rfl
      exact absurd (List.contains_iff_mem.2 mem) (by decide)
    obtain rfl | rfl | ⟨_, -, rfl⟩ := opens
    · exact slash (by simpa [List.suffix_cons_iff, eq_comm] using suffix)
    · exact percent (by simpa [List.suffix_cons_iff, eq_comm] using suffix)
    · simp at less

/-- A carriage return in front of a newline, behind an exposed sign, changes the tokens. -/
theorem unplaced_ne_of_exposedAt {before post post' : List Char} {all all' : List Token}
    (exchange : Exchange ('\n' :: post) ('\r' :: post'))
    (idles : Idles (before ++ '\n' :: post) ('\n' :: post))
    (exposed : ExposedAt (before ++ '\n' :: post) ('\n' :: post))
    (read : tokenize (before ++ '\n' :: post) .origin = .ok all)
    (read' : tokenize (before ++ '\r' :: post') .origin = .ok all') : unplaced all' ≠ unplaced all := by
  obtain ⟨last, ⟨_, _, toLast⟩, point, -⟩ := idles
  obtain ⟨state, text, ⟨tokens, bodies, reached⟩, front, exposed⟩ := exposed
  obtain ⟨c, more, rfl⟩ : ∃ c more, text = c :: more := by
    obtain rfl | rfl | ⟨kind, -, rfl⟩ := exposed.2 <;> exact ⟨_, _, rfl⟩
  -- the other scan comes to the same sign
  have long : before.length ≤ (before ++ '\r' :: post').length := by
    rw [List.length_append]
    exact Nat.le_add_right _ _
  have start : Twin ('\n' :: post) ('\r' :: post') before (.ofText (before ++ '\n' :: post) .origin)
      (.ofText (before ++ '\r' :: post') .origin) := ⟨rfl, rfl, .inl rfl, rfl, .refl none, rfl⟩
  obtain ⟨tokens', bodies', state', rest', reached', sameTokens, -, twin, parted⟩ :=
    reached.twin (refines_tokensWithin before.length _ _ long) exchange start (Nat.le_refl _) front
      fun _ earlier front' ⟨_, _, toEarlier⟩ at' longer exposed' => by
        have suffix : c :: more ++ '\n' :: post <:+ front' ++ '\n' :: post := by
          rw [← front, ← at']
          refine List.suffix_of_suffix_length_le reached.suffix toEarlier.suffix ?_
          rw [front, at', List.length_append, List.length_append]
          omega
        exact exposed.2.not_longer exposed'.2 (suffix_of_append suffix) longer
  obtain rfl : rest' = '\r' :: post' := parted.resolve_right (by simp)
  -- there each takes its token
  obtain ⟨found, filled, scans, rfl⟩ := tokensWithin_eq_ok_iff.1 read
  obtain ⟨found', filled', scans', rfl⟩ := tokensWithin_eq_ok_iff.1 read'
  obtain ⟨behind, _, onward, rfl, -⟩ := reached.scans_iff.1 scans
  obtain ⟨behind', _, onward', rfl, -⟩ := reached'.scans_iff.1 scans'
  obtain ⟨taken, others, hstep, rfl⟩ := onward.first exposed.2 front
  obtain ⟨taken', others', hstep', rfl⟩ := onward'.first exposed.2 twin.front'
  obtain ⟨lexeme, after, hplain, moved, signs⟩ := step_of_opens exposed.2 front hstep
  obtain ⟨lexeme', after', hplain', -, signs'⟩ := step_of_opens exposed.2 twin.front' hstep'
  have left : post.length < after.length := by
    have shorter : last.cursor.rest.length < state.cursor.rest.length := by
      rw [front, point, List.length_append, List.length_cons (a := c)]
      omega
    have further := reached.length_le_of_step toLast hstep shorter
    rw [point, moved, rest_moveTo (front ▸ (plainToken_suffix front hplain).trans (List.suffix_cons c _))] at further
    exact further
  have operator := isOperator_of_newline exposed.2 front hplain left
  have opening := operator?_of_return ⟨twin.operandPossible_eq ▸ exposed.1, exposed.2⟩ twin.front' hplain'
  -- so the texts differ in their signs
  intro same
  have along : operatorSigns tokens' = operatorSigns tokens := by
    rw [← operatorSigns_unplaced tokens', sameTokens, operatorSigns_unplaced]
  have all := congrArg operatorSigns same
  simp only [operatorSigns_unplaced, operatorSigns_plug, operatorSigns_append, along, signs, signs', opening] at all
  have heads := List.append_cancel_left all
  rw [← (List.cons.inj heads).1] at operator
  contradiction

end Formulary.Scan

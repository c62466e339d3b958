import Formulary.Proofs.Token.Enclosed

/-! The lines of tokens. They never fall, and the code in a string does not lie above the string. -/

namespace Formulary

/-- Tokens whose lines never fall, from a line on. -/
structure Ascending (low : Nat) (tokens : List Token) : Prop where
  begins : ∀ token ∈ tokens, low ≤ token.pos.line
  ordered : (tokens.map (·.pos.line)).Pairwise (· ≤ ·)

theorem Ascending.suffix {low : Nat} {tokens others : List Token} (h : Ascending low tokens)
    (fewer : others <:+ tokens) : Ascending low others :=
  ⟨fun token mem => h.begins token (fewer.mem mem), h.ordered.sublist (fewer.sublist.map _)⟩

/-- A token in whose code, at any depth, the lines never fall from that of the token on. -/
inductive Token.Stacked : Token → Prop
  | intro {token : Token}
      (ascending : ∀ code pos, .code code pos ∈ token.lexeme.segments →
        token.pos.line ≤ pos.line ∧ Ascending pos.line code)
      (inner : ∀ code pos, .code code pos ∈ token.lexeme.segments → ∀ other ∈ code, Stacked other) : Stacked token

namespace Token.Stacked

variable {token : Token} {code : List Token} {pos : Position}

theorem ascending (h : token.Stacked) (within : .code code pos ∈ token.lexeme.segments) :
    token.pos.line ≤ pos.line ∧ Ascending pos.line code := by
  cases h with
  | intro ascending _ => exact ascending code pos within

theorem inner (h : token.Stacked) (within : .code code pos ∈ token.lexeme.segments) :
    ∀ other ∈ code, other.Stacked := by
  cases h with
  | intro _ inner => exact inner code pos within

theorem of_bare (bare : token.lexeme.segments = []) : token.Stacked :=
  .intro (fun _ _ within => (List.not_mem_nil (bare ▸ within)).elim)
    fun _ _ within => (List.not_mem_nil (bare ▸ within)).elim

end Token.Stacked

theorem Position.Before.line_le {pos other : Position} (h : pos.Before other) : pos.line ≤ other.line := by
  unfold Before at h
  omega

namespace Scan

open Body

variable {code : Reader} {cursor behind : Cursor} {state : State} {found : Found} {tokens : List Token}
  {bodies : List Segments} {segments : Segments}

theorem MovedOn.line_le (h : MovedOn cursor behind) : cursor.pos.line ≤ behind.pos.line := by
  obtain ⟨n, rfl⟩ := h
  obtain same | before := Cursor.pos_skip n cursor
  · exact Nat.le_of_eq (congrArg Position.line same.symm)
  · exact before.line_le

/-- Segments of a body that does not begin above a line, unless there are none. -/
def ReadBelow (code : Reader) (line : Nat) (segments : Segments) : Prop :=
  segments ≠ [] →
    ∃ embeds closer pos body, line ≤ pos.line ∧ Literal.segments code embeds closer pos body = .ok segments

theorem readBelow_nil (line : Nat) : ReadBelow code line [] :=
  fun some => (some rfl).elim

theorem readBelow_readBodies {pending : List (Heredoc.Opener × Position)}
    (early : ∀ opened ∈ pending, opened.2.line ≤ cursor.pos.line)
    (h : readBodies code cursor pending = .ok (bodies, behind)) :
    List.Forall₂ (ReadBelow code) (pending.map (·.2.line)) bodies := by
  induction pending generalizing cursor bodies with
  | nil =>
    obtain ⟨rfl, -⟩ := Prod.mk.inj (Except.ok.inj h)
    exact .nil
  | cons opened more ih =>
    obtain ⟨here, others⟩ := List.forall_mem_cons.1 early
    obtain ⟨lines, rest, body, bodies, -, hbody, hmore, rfl⟩ := readBodies_cons_iff.1 h
    have moved := (movedOn_moveTo cursor rest).line_le
    exact .cons (fun _ => ⟨_, _, ⟨cursor.pos.line, 1⟩, _, here, hbody⟩)
      (ih (fun opened mem => Nat.le_trans (others opened mem) moved) hmore)

/-- The bodies of heredocs lie below their openers, which wait for them in order. -/
theorem Scans.hollow_below (h : Scans code state tokens bodies)
    (early : ∀ opened ∈ state.pending, opened.2.line ≤ state.cursor.pos.line) :
    List.Forall₂ (ReadBelow code) (state.pending.map (·.2.line) ++ (tokens.filter isHollow).map (·.pos.line))
      bodies := by
  induction h with
  | done _ idle =>
    rw [idle]
    exact .nil
  | @next state found tokens bodies hstep _ ih =>
    have moved := hstep.movedOn.line_le
    have still : ∀ opened ∈ state.pending, opened.2.line ≤ found.state.cursor.pos.line :=
      fun opened mem => Nat.le_trans (early opened mem) moved
    cases hstep with
    | blockComment | blank | continuation | comment => exact ih still
    | newline front atCode h =>
      obtain ⟨⟨cursor, hbodies⟩, idle, solid⟩ := newline_found h
      rw [List.filter_append, solid, List.nil_append]
      have later := ih (by rw [idle]; nofun)
      rw [idle] at later
      have next : MovedOn state.cursor state.cursor.next := ⟨1, rfl⟩
      exact List.rel_append (readBelow_readBodies (fun opened mem => Nat.le_trans (early opened mem) next.line_le) hbodies)
        later
    | token front atCode solid single hash line h =>
      obtain ⟨opener, after, -, -, rfl⟩ | ⟨-, lexeme, after, hplain, rfl⟩ := token_cases h
      · have later := ih (List.forall_mem_append.2 ⟨still, List.forall_mem_singleton.2 moved⟩)
        rw [List.singleton_append, List.filter_cons_of_pos rfl]
        simpa using later
      · have filled : lexeme ≠ .string [] := by
          obtain bare | ⟨some, -⟩ := plainToken_bare_or_filled front hplain
          · exact bare.ne_hollow
          · rintro rfl
            exact some rfl
        rw [List.singleton_append, List.filter_cons_of_neg (by simp [isHollow_eq_false, filled])]
        exact ih still

theorem Step.solid_below (h : Step code state found) :
    ∀ token ∈ found.tokens, isHollow token = false → ReadBelow code token.pos.line token.lexeme.segments := by
  cases h with
  | blockComment | blank | continuation | comment => nofun
  | newline front atCode h =>
    obtain ⟨bodies, cursor, -, rfl⟩ := newline_cases h
    split
    · nofun
    · exact List.forall_mem_singleton.2 fun _ => readBelow_nil _
  | token front atCode solid single hash line h =>
    obtain ⟨opener, after, -, -, rfl⟩ | ⟨-, lexeme, after, hplain, rfl⟩ := token_cases h
    · exact List.forall_mem_singleton.2 nofun
    · refine List.forall_mem_singleton.2 fun _ some => ?_
      obtain bare | ⟨-, sign, marks, body, -, -, hfound⟩ := plainToken_bare_or_filled front hplain
      · exact (some bare.segments_eq).elim
      · refine ⟨_, _, _, _, ?_, hfound⟩
        rw [Position.line_past]
        exact Nat.le_add_right _ _

theorem Scans.solid_below (h : Scans code state tokens bodies) :
    ∀ token ∈ tokens, isHollow token = false → ReadBelow code token.pos.line token.lexeme.segments := by
  induction h with
  | done _ _ => exact List.forall_mem_singleton.2 fun _ => readBelow_nil _
  | next hstep _ ih => exact List.forall_mem_append.2 ⟨hstep.solid_below, ih⟩

/-- Every body lies below the token that it is the body of. -/
theorem readBelow_tokensWithin {depth : Nat} {text : List Char} {start : Position}
    (read : tokensWithin (depth + 1) text start = .ok tokens) :
    ∀ token ∈ tokens, ReadBelow (tokensWithin depth) token.pos.line token.lexeme.segments := by
  obtain ⟨found, bodies, scans, rfl⟩ := tokensWithin_eq_ok_iff.1 read
  have paired := scans.hollow_below nofun
  intro token member
  obtain ⟨among, solid⟩ | ⟨hollow, segments, below, rfl⟩ :=
    mem_plug_of_paired (List.forall₂_map_left_iff.1 paired) member
  · exact scans.solid_below token among solid
  · exact below

theorem ascending_tokensWithin {depth : Nat} {text : List Char} {start : Position}
    (read : tokensWithin depth text start = .ok tokens) : Ascending start.line tokens := by
  have positioned := positioned_tokensWithin read
  refine ⟨fun token member => ?_, List.pairwise_map.2 ?_⟩
  · obtain ⟨before, -, -, -, here, -⟩ := positioned.placed token member
    rw [← here, Position.line_past]
    exact Nat.le_add_right _ _
  · exact (List.pairwise_map.1 positioned.ordered).imp Position.Before.line_le

theorem stacked_tokensWithin {depth : Nat} {text : List Char} {start : Position}
    (read : tokensWithin depth text start = .ok tokens) : ∀ token ∈ tokens, token.Stacked := by
  induction depth generalizing text start tokens with
  | zero => contradiction
  | succ depth ih =>
    intro token member
    have coded (inner : List Token) (pos : Position) (within : .code inner pos ∈ token.lexeme.segments) :
        token.pos.line ≤ pos.line ∧ ∃ code, tokensWithin depth code (pos.right 2) = .ok inner := by
      obtain ⟨embeds, closer, place, body, below, hfound⟩ :=
        readBelow_tokensWithin read token member (List.ne_nil_of_mem within)
      have part : (inner, pos) ∈ Literal.parts token.lexeme.segments := List.mem_filterMap.2 ⟨_, within, rfl⟩
      obtain ⟨inset, here, hread⟩ : ∃ inset, Literal.ReadFrom (tokensWithin depth) place (inner, pos) inset := by
        obtain ⟨i, bound, here⟩ := List.mem_iff_getElem.1 part
        have paired := Literal.parts_of_segments hfound
        have related := paired.get bound (paired.length_eq ▸ bound)
        rw [List.get_eq_getElem, here] at related
        exact ⟨_, related⟩
      have noted := (Literal.foldl_noted_notes (Position.notes_self place true) inset.before).1
      rw [← here, Position.line_past] at noted
      exact ⟨Nat.le_trans below (noted ▸ Nat.le_add_right _ _), inset.code, hread⟩
    refine .intro (fun inner pos within => ?_) fun inner pos within => ?_
    · obtain ⟨below, code, hread⟩ := coded inner pos within
      exact ⟨below, (ascending_tokensWithin hread : Ascending (pos.right 2).line inner)⟩
    · obtain ⟨-, code, hread⟩ := coded inner pos within
      exact ih hread

end Scan

end Formulary

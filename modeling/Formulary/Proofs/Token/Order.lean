import Formulary.Proofs.Token.Run

/-! The tokens of a scan stand in the order of the text, the end of the text last. -/

namespace Formulary

namespace Position

/-- The order of the text. -/
def Before (pos other : Position) : Prop :=
  pos.line < other.line ∨ pos.line = other.line ∧ pos.column < other.column

instance (pos other : Position) : Decidable (pos.Before other) :=
  inferInstanceAs (Decidable (_ ∨ _))

variable {pos other third : Position}

theorem Before.trans (h : pos.Before other) (h' : other.Before third) : pos.Before third := by
  unfold Before at *
  omega

theorem Before.not_before (h : pos.Before other) : ¬other.Before pos := by
  unfold Before at *
  omega

theorem before_after (pos : Position) (c : Char) : pos.Before (pos.after c) := by
  unfold after Before
  split <;> simp

end Position

namespace Cursor

theorem pos_skip (n : Nat) (cursor : Cursor) :
    (cursor.skip n).pos = cursor.pos ∨ cursor.pos.Before (cursor.skip n).pos := by
  induction n generalizing cursor with
  | zero => exact .inl rfl
  | succ n ih =>
    obtain ⟨rest, pos, fresh⟩ := cursor
    cases rest with
    | nil => exact ih _
    | cons c rest =>
      obtain same | before := ih (Cursor.next ⟨c :: rest, pos, fresh⟩)
      · exact .inr (by rw [skip, same]; exact Position.before_after pos c)
      · exact .inr ((Position.before_after pos c).trans before)

/-- A cursor that moved over text stands behind where it stood. -/
theorem before_skip {n : Nat} {cursor : Cursor} (h : (cursor.skip n).rest.length < cursor.rest.length) :
    cursor.pos.Before (cursor.skip n).pos := by
  cases n with
  | zero => exact (Nat.lt_irrefl _ h).elim
  | succ n =>
    obtain ⟨rest, pos, fresh⟩ := cursor
    cases rest with
    | nil => exact (Nat.not_lt_zero _ h).elim
    | cons c rest =>
      obtain same | before := pos_skip n (Cursor.next ⟨c :: rest, pos, fresh⟩)
      · rw [skip, same]
        exact Position.before_after pos c
      · exact (Position.before_after pos c).trans before

end Cursor

namespace Scan

open Body Result

/-- A cursor that came from another one by moving on. -/
def MovedOn (cursor behind : Cursor) : Prop :=
  ∃ n, behind = cursor.skip n

theorem skip_add (n m : Nat) (cursor : Cursor) : cursor.skip (n + m) = (cursor.skip n).skip m := by
  induction n generalizing cursor with
  | zero => rw [Nat.zero_add]; rfl
  | succ n ih => rw [Nat.add_right_comm, Cursor.skip, ih]; rfl

theorem MovedOn.trans {cursor mid behind : Cursor} (h : MovedOn cursor mid) (h' : MovedOn mid behind) :
    MovedOn cursor behind := by
  obtain ⟨n, rfl⟩ := h
  obtain ⟨m, rfl⟩ := h'
  exact ⟨n + m, (skip_add n m cursor).symm⟩

theorem movedOn_moveTo (cursor : Cursor) (rest : List Char) : MovedOn cursor (cursor.moveTo rest) :=
  ⟨_, rfl⟩

variable {code : Reader} {state : State} {found : Found}

theorem readBodies_movedOn {pending : List (Heredoc.Opener × Position)} {cursor behind : Cursor}
    {bodies : List Segments} (h : readBodies code cursor pending = .ok (bodies, behind)) : MovedOn cursor behind := by
  induction pending generalizing cursor bodies with
  | nil => exact ⟨0, (Prod.mk.inj (Except.ok.inj h)).2.symm⟩
  | cons opened more ih =>
    obtain ⟨lines, rest, body, bodies', -, -, hmore, -⟩ := readBodies_cons_iff.1 h
    exact (movedOn_moveTo cursor rest).trans (ih hmore)

theorem Step.movedOn (h : Step code state found) : MovedOn state.cursor found.state.cursor := by
  cases h with
  | blockComment some begins behind => exact movedOn_moveTo _ _
  | blank front => exact ⟨1, rfl⟩
  | continuation front => exact ⟨2, rfl⟩
  | comment front => exact movedOn_moveTo _ _
  | newline front atCode h =>
    obtain ⟨bodies, cursor, hbodies, rfl⟩ := newline_cases h
    have behind : MovedOn state.cursor cursor := MovedOn.trans ⟨1, rfl⟩ (readBodies_movedOn hbodies)
    split <;> exact behind
  | token front atCode solid single hash line h =>
    obtain ⟨opener, after, -, opens, rfl⟩ | ⟨-, lexeme, after, hplain, rfl⟩ := token_cases h
    · exact movedOn_moveTo _ _
    · exact movedOn_moveTo _ _

theorem Step.before (h : Step code state found) : state.cursor.pos.Before found.state.cursor.pos := by
  obtain ⟨n, moved⟩ := h.movedOn
  have less := h.suffix.2
  rw [moved] at less ⊢
  exact Cursor.before_skip less

/-- A step finds at most one token, which stands where the step began. -/
theorem Step.tokens (h : Step code state found) :
    found.tokens = [] ∨ ∃ token, found.tokens = [token] ∧ token.pos = state.cursor.pos := by
  cases h with
  | blockComment | blank | continuation | comment => exact .inl rfl
  | newline front atCode h =>
    obtain ⟨bodies, cursor, -, rfl⟩ := newline_cases h
    split
    · exact .inl rfl
    · exact .inr ⟨_, rfl, rfl⟩
  | token front atCode solid single hash line h =>
    obtain ⟨opener, after, -, -, rfl⟩ | ⟨-, lexeme, after, -, rfl⟩ := token_cases h
    · exact .inr ⟨_, rfl, rfl⟩
    · exact .inr ⟨_, rfl, rfl⟩

theorem Scans.ordered {tokens : List Token} {bodies : List Segments} (h : Scans code state tokens bodies) :
    (tokens.map (·.pos)).Pairwise Position.Before ∧
      ∀ token ∈ tokens, token.pos = state.cursor.pos ∨ state.cursor.pos.Before token.pos := by
  induction h with
  | done _ _ => exact ⟨List.pairwise_singleton _ _, by simp⟩
  | @next state found tokens bodies hstep h ih =>
    have later : ∀ token ∈ tokens, state.cursor.pos.Before token.pos := by
      intro token member
      obtain same | before := ih.2 token member
      · exact same ▸ hstep.before
      · exact hstep.before.trans before
    obtain none | ⟨token, one, here⟩ := hstep.tokens
    · rw [none, List.nil_append]
      exact ⟨ih.1, fun token member => .inr (later token member)⟩
    · rw [one, List.singleton_append]
      refine ⟨?_, ?_⟩
      · rw [List.map_cons, List.pairwise_cons]
        refine ⟨?_, ih.1⟩
        simpa [here] using later
      · intro other member
        obtain rfl | member := List.mem_cons.1 member
        · exact .inl here
        · exact .inr (later other member)

theorem Scans.ends {tokens : List Token} {bodies : List Segments} (h : Scans code state tokens bodies) :
    ∃ front pos, tokens = front ++ [⟨.endOfText, pos, true⟩] := by
  induction h with
  | done _ _ => exact ⟨[], _, rfl⟩
  | @next _ found _ _ _ _ ih =>
    obtain ⟨front, pos, rfl⟩ := ih
    exact ⟨found.tokens ++ front, pos, (List.append_assoc ..).symm⟩

theorem pos_plug (tokens : List Token) (bodies : List Segments) :
    (plug tokens bodies).map (·.pos) = tokens.map (·.pos) := by
  induction tokens generalizing bodies with
  | nil => rfl
  | cons token more ih =>
    by_cases hollow : token.lexeme = .string []
    · obtain ⟨lexeme, pos, spaced⟩ := token
      subst hollow
      cases bodies with
      | nil => exact congrArg (pos :: ·) (ih [])
      | cons found others => exact congrArg (pos :: ·) (ih others)
    · rw [plug_cons_of_ne hollow, List.map_cons, List.map_cons, ih]

/-- Every token was found by the scan, but for the segments that a body gave it. -/
theorem mem_plug {token : Token} {tokens : List Token} {bodies : List Segments} (h : token ∈ plug tokens bodies) :
    ∃ found ∈ tokens, token.pos = found.pos ∧
      (token = found ∨ ∃ segments ∈ bodies, found.lexeme = .string [] ∧ token.lexeme = .string segments) := by
  induction tokens generalizing bodies with
  | nil => contradiction
  | cons first more ih =>
    have later {bodies' : List Segments} (fewer : bodies' ⊆ bodies) (h : token ∈ plug more bodies') :
        ∃ found ∈ first :: more, token.pos = found.pos ∧
          (token = found ∨ ∃ segments ∈ bodies, found.lexeme = .string [] ∧ token.lexeme = .string segments) := by
      obtain ⟨found, member, here, same⟩ := ih h
      refine ⟨found, List.mem_cons_of_mem _ member, here, same.imp_right ?_⟩
      rintro ⟨segments, among, hollow⟩
      exact ⟨segments, fewer among, hollow⟩
    by_cases hollow : first.lexeme = .string []
    · obtain ⟨lexeme, pos, spaced⟩ := first
      subst hollow
      cases bodies with
      | nil =>
        obtain rfl | h := List.mem_cons.1 h
        · exact ⟨_, List.mem_cons_self, rfl, .inl rfl⟩
        · exact later (List.Subset.refl _) h
      | cons segments others =>
        obtain rfl | h := List.mem_cons.1 h
        · exact ⟨_, List.mem_cons_self, rfl, .inr ⟨segments, List.mem_cons_self, rfl, rfl⟩⟩
        · exact later (List.subset_cons_self _ _) h
    · rw [plug_cons_of_ne hollow] at h
      obtain rfl | h := List.mem_cons.1 h
      · exact ⟨_, List.mem_cons_self, rfl, .inl rfl⟩
      · exact later (List.Subset.refl _) h

theorem plug_append_end (front : List Token) (pos : Position) (bodies : List Segments) :
    plug (front ++ [⟨.endOfText, pos, true⟩]) bodies = plug front bodies ++ [⟨.endOfText, pos, true⟩] := by
  induction front generalizing bodies with
  | nil => rfl
  | cons token more ih =>
    by_cases hollow : token.lexeme = .string []
    · obtain ⟨lexeme, place, spaced⟩ := token
      subst hollow
      cases bodies with
      | nil => exact congrArg (_ :: ·) (ih [])
      | cons found others => exact congrArg (_ :: ·) (ih others)
    · rw [List.cons_append, plug_cons_of_ne hollow, plug_cons_of_ne hollow, ih, List.cons_append]

end Scan

end Formulary

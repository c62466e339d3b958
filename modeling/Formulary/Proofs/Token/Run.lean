import Formulary.Proofs.Token.Simulation

/-!
Whole scans. What they find hangs neither on fuel nor on how deep code may be nested, and a text scanned
elsewhere gives the same tokens but for positions.
-/

namespace Formulary.Scan

open Body Gap Result

/-- What a scan finds from a state on to the end. -/
inductive Scans (code : Reader) : State → List Token → List Segments → Prop
  | done {state : State} : step code state = .ok none → state.pending = [] →
      Scans code state [⟨.endOfText, state.cursor.pos, true⟩] []
  | next {state : State} {found : Found} {tokens : List Token} {bodies : List Segments} : Step code state found →
      Scans code found.state tokens bodies → Scans code state (found.tokens ++ tokens) (found.bodies ++ bodies)

/-- What a scan finds on its way from one state to another. -/
inductive Reaches (code : Reader) : State → List Token → List Segments → State → Prop
  | refl (state : State) : Reaches code state [] [] state
  | next {state last : State} {found : Found} {tokens : List Token} {bodies : List Segments} :
      Step code state found → Reaches code found.state tokens bodies last →
      Reaches code state (found.tokens ++ tokens) (found.bodies ++ bodies) last

variable {code code' : Reader} {bound : Nat} {rest rest' text : List Char} {state state' mid last : State}
  {found found' : Found} {tokens tokens' : List Token} {bodies bodies' : List Segments}

theorem Step.deterministic (h : Step code state found) (h' : Step code state found') : found' = found := by
  have both := (step_eq_some_iff.2 h').symm.trans (step_eq_some_iff.2 h)
  exact Option.some.inj (Except.ok.inj both)

theorem run_eq_ok_iff {fuel : Nat} (enough : state.cursor.rest.length < fuel) :
    run code fuel state = .ok (tokens, bodies) ↔ Scans code state tokens bodies := by
  induction fuel generalizing state tokens bodies with
  | zero => exact (Nat.not_lt_zero _ enough).elim
  | succ fuel ih =>
    constructor
    · intro h
      obtain ⟨taken, hstep, h⟩ := bind_eq_ok_iff.1 h
      cases taken with
      | none =>
        dsimp only at h
        split at h
        · contradiction
        · rename_i idle
          obtain ⟨rfl, rfl⟩ := Prod.mk.inj (pure_eq_ok_iff.1 h)
          exact .done hstep idle
      | some found =>
        obtain ⟨⟨tokens, bodies⟩, hrun, h⟩ := bind_eq_ok_iff.1 h
        obtain ⟨rfl, rfl⟩ := Prod.mk.inj (pure_eq_ok_iff.1 h)
        have hstep := step_eq_some_iff.1 hstep
        exact .next hstep ((ih (Nat.lt_of_lt_of_le hstep.suffix.2 (Nat.le_of_lt_succ enough))).1 hrun)
    · intro h
      cases h with
      | done hstep idle => exact bind_eq_ok_iff.2 ⟨none, hstep, by rw [idle]; rfl⟩
      | next hstep h =>
        have hrun := (ih (Nat.lt_of_lt_of_le hstep.suffix.2 (Nat.le_of_lt_succ enough))).2 h
        exact bind_eq_ok_iff.2 ⟨_, step_eq_some_iff.2 hstep, bind_eq_ok_iff.2 ⟨_, hrun, rfl⟩⟩

namespace Reaches

theorem step (h : Step code state found) : Reaches code state found.tokens found.bodies found.state := by
  simpa using Reaches.next h (.refl found.state)

theorem trans (h : Reaches code state tokens bodies mid) (h' : Reaches code mid tokens' bodies' last) :
    Reaches code state (tokens ++ tokens') (bodies ++ bodies') last := by
  induction h with
  | refl => exact h'
  | next hstep _ ih =>
    rw [List.append_assoc, List.append_assoc]
    exact .next hstep (ih h')

theorem suffix (h : Reaches code state tokens bodies last) : last.cursor.rest <:+ state.cursor.rest := by
  induction h with
  | refl => exact List.suffix_refl _
  | next hstep _ ih => exact ih.trans hstep.suffix.1

theorem length_le (h : Reaches code state tokens bodies last) :
    last.cursor.rest.length ≤ state.cursor.rest.length :=
  h.suffix.length_le

/-- The states a scan comes to are on one way. -/
theorem onward (h : Reaches code state tokens bodies mid) (h' : Reaches code state tokens' bodies' last)
    (further : last.cursor.rest.length ≤ mid.cursor.rest.length) :
    ∃ tokens bodies, Reaches code mid tokens bodies last := by
  induction h generalizing tokens' bodies' with
  | refl => exact ⟨_, _, h'⟩
  | next hstep h ih =>
    cases h' with
    | refl =>
      have := h.length_le
      have := hstep.suffix.2
      omega
    | next hstep' h' =>
      obtain rfl := hstep.deterministic hstep'
      exact ih h' further

/-- A step taken before a state that the scan comes to does not lead past it. -/
theorem length_le_of_step (h : Reaches code state tokens bodies mid) (h' : Reaches code state tokens' bodies' last)
    (hstep : Step code mid found) (before : last.cursor.rest.length < mid.cursor.rest.length) :
    last.cursor.rest.length ≤ found.state.cursor.rest.length := by
  obtain ⟨_, _, onward⟩ := h.onward h' (Nat.le_of_lt before)
  cases onward with
  | refl => exact (Nat.lt_irrefl _ before).elim
  | next hstep' further =>
    obtain rfl := hstep.deterministic hstep'
    exact further.length_le

theorem eq_of_length_eq (h : Reaches code state tokens bodies last)
    (same : last.cursor.rest.length = state.cursor.rest.length) : tokens = [] ∧ bodies = [] ∧ last = state := by
  cases h with
  | refl => exact ⟨rfl, rfl, rfl⟩
  | next hstep h =>
    have := h.length_le
    have := hstep.suffix.2
    omega

/-- A scan that has come to a state goes on as a scan from there. -/
theorem scans_iff (h : Reaches code state tokens bodies mid) {all : List Token} {filled : List Segments} :
    Scans code state all filled ↔ ∃ tokens' bodies', Scans code mid tokens' bodies' ∧
      all = tokens ++ tokens' ∧ filled = bodies ++ bodies' := by
  induction h generalizing all filled with
  | refl => simp
  | @next state last found tokens bodies hstep _ ih =>
    constructor
    · intro h
      cases h with
      | done none =>
        rw [step_eq_some_iff.2 hstep] at none
        cases Except.ok.inj none
      | next hstep' h =>
        obtain rfl := hstep.deterministic hstep'
        obtain ⟨tokens', bodies', behind, rfl, rfl⟩ := ih.1 h
        exact ⟨tokens', bodies', behind, (List.append_assoc ..).symm, (List.append_assoc ..).symm⟩
    · rintro ⟨tokens', bodies', h, rfl, rfl⟩
      rw [List.append_assoc, List.append_assoc]
      exact .next hstep (ih.2 ⟨tokens', bodies', h, rfl, rfl⟩)

end Reaches

/-! Twins -/

theorem Twin.atData_eq (twin : Twin [] [] text state state') : atData state' = atData state := by
  have same : state'.cursor.rest = state.cursor.rest := by rw [twin.front, twin.front']
  unfold atData
  rw [same]
  obtain fresh | ⟨-, unmarked⟩ := twin.fresh
  · rw [fresh]
  · rw [unmarked, Bool.and_false, Bool.and_false]

theorem Twin.symm (twin : Twin [] [] text state state') : Twin [] [] text state' state where
  front := twin.front'
  front' := twin.front
  fresh := by
    rw [show state'.cursor.rest = state.cursor.rest by rw [twin.front, twin.front']]
    exact twin.fresh.imp_left Eq.symm
  spaced := twin.spaced.symm
  last := twin.last.symm
  pending := twin.pending.symm

/-- Twins over the same text find the same to the end. -/
theorem Scans.twin (h : Scans code state tokens bodies) (refines : Refines bound code code')
    (twin : Twin [] [] text state state') (short : text.length ≤ bound) :
    ∃ tokens' bodies', Scans code' state' tokens' bodies' ∧ unplaced tokens' = unplaced tokens ∧
      bodies'.map unplacedSegments = bodies.map unplacedSegments := by
  induction h generalizing text state' with
  | @done state none idle =>
    refine ⟨_, _, .done (step_eq_none_iff.2 ?_) ?_, rfl, rfl⟩
    · rw [twin.atData_eq, twin.atBlockComment_eq exchange_nil.toParting, twin.front', ← twin.front]
      exact step_eq_none_iff.1 none
    · simpa [idle] using twin.pending
  | @next state found tokens bodies hstep _ ih =>
    obtain ⟨found', after, behind, hstep', alike, less, twin', rest'⟩ :=
      step_twin refines exchange_nil twin short nofun hstep (Nat.zero_le _)
    obtain rfl : behind = [] := by
      obtain rfl | ⟨-, rfl⟩ := rest' <;> rfl
    obtain ⟨tokens', bodies', h', sameTokens, sameBodies⟩ := ih twin' (Nat.le_trans (Nat.le_of_lt less) short)
    refine ⟨_, _, .next hstep' h', ?_, ?_⟩
    · rw [unplaced_append, unplaced_append, alike.tokens, sameTokens]
    · rw [List.map_append, List.map_append, alike.bodies, sameBodies]

/-- A scan and its twin come to the point where their texts part with the same behind them. A comment may have
taken the twin on to the end of its line. -/
theorem Reaches.twin (h : Reaches code state tokens bodies mid) (refines : Refines bound code code')
    (exchange : Exchange rest rest') (twin : Twin rest rest' text state state') (short : text.length ≤ bound)
    {front : List Char} (point : mid.cursor.rest = front ++ rest)
    (safe : rest'.head? = some '\r' → ∀ earlier front', (∃ tokens bodies, Reaches code state tokens bodies earlier) →
      earlier.cursor.rest = front' ++ rest → front.length < front'.length → ¬Exposed earlier front') :
    ∃ tokens' bodies' mid' behind, Reaches code' state' tokens' bodies' mid' ∧
      unplaced tokens' = unplaced tokens ∧ bodies'.map unplacedSegments = bodies.map unplacedSegments ∧
      Twin rest behind front mid mid' ∧ (behind = rest' ∨ front = [] ∧ behind = rest'.dropWhile (· ≠ '\n')) := by
  induction h generalizing text state' with
  | refl state =>
    obtain rfl := List.append_cancel_right (twin.front.symm.trans point)
    exact ⟨[], [], state', rest', .refl state', rfl, rfl, twin, .inl rfl⟩
  | @next state mid found tokens bodies hstep h ih =>
    have ahead := h.length_le
    have less := hstep.suffix.2
    rw [point, List.length_append] at ahead
    rw [twin.front, List.length_append] at less
    have unexposed (back : rest'.head? = some '\r') : ¬Exposed state text :=
      safe back state text ⟨[], [], .refl state⟩ twin.front (by omega)
    obtain ⟨found', after, behind, hstep', alike, shorter, twin', parted⟩ :=
      step_twin refines exchange twin short unexposed hstep (by omega)
    obtain rfl | ⟨rfl, rfl⟩ := parted
    · obtain ⟨tokens', bodies', mid', last, h', sameTokens, sameBodies, twin'', parted⟩ :=
        ih twin' (by omega) point fun back earlier front' ⟨tokens, bodies, between⟩ =>
          safe back earlier front' ⟨_, _, .next hstep between⟩
      refine ⟨_, _, mid', last, .next hstep' h', ?_, ?_, twin'', parted⟩
      · rw [unplaced_append, unplaced_append, alike.tokens, sameTokens]
      · rw [List.map_append, List.map_append, alike.bodies, sameBodies]
    · rw [twin'.front, List.nil_append] at ahead
      obtain rfl : front = [] := List.eq_nil_of_length_eq_zero (by omega)
      obtain ⟨rfl, rfl, rfl⟩ := h.eq_of_length_eq (by rw [point, twin'.front])
      refine ⟨_, _, _, _, .step hstep', ?_, ?_, twin', .inr ⟨rfl, rfl⟩⟩
      · rw [List.append_nil, alike.tokens]
      · rw [List.append_nil, alike.bodies]

/-! Texts -/

theorem plug_cons_of_ne {token : Token} (filled : token.lexeme ≠ .string []) (tokens : List Token)
    (bodies : List Segments) : plug (token :: tokens) bodies = token :: plug tokens bodies := by
  obtain ⟨lexeme, pos, spaced⟩ := token
  cases lexeme with
  | string segments =>
    cases segments with
    | nil => exact (filled rfl).elim
    | cons segment more => rfl
  | _ => rfl

theorem plug_nil (tokens : List Token) : plug tokens [] = tokens := by
  induction tokens with
  | nil => rfl
  | cons token more ih =>
    obtain ⟨lexeme, pos, spaced⟩ := token
    cases lexeme with
    | string segments => cases segments <;> exact congrArg _ ih
    | _ => exact congrArg _ ih

theorem place_eq_hollow_iff {f : Position → Position} {lexeme : Lexeme Token} :
    lexeme.place f = .string [] ↔ lexeme = .string [] := by
  cases lexeme <;> simp [Lexeme.place]

theorem plug_place (f : Position → Position) (tokens : List Token) (bodies : List Segments) :
    (plug tokens bodies).map (Token.place f) =
      plug (tokens.map (Token.place f)) (bodies.map (List.map (placeSegment f))) := by
  induction tokens generalizing bodies with
  | nil => rfl
  | cons token more ih =>
    by_cases hollow : token.lexeme = .string []
    · obtain ⟨lexeme, pos, spaced⟩ := token
      subst hollow
      cases bodies with
      | nil => exact congrArg _ (ih [])
      | cons found others =>
        simp only [plug, List.map_cons, ih others, Token.place_eq, Lexeme.place, List.map_nil]
    · have filled : (token.place f).lexeme ≠ .string [] := by
        rw [Token.lexeme_place]
        exact fun eq => hollow (place_eq_hollow_iff.1 eq)
      rw [plug_cons_of_ne hollow, List.map_cons, List.map_cons, plug_cons_of_ne filled, ih]

theorem plug_unplaced (tokens : List Token) (bodies : List Segments) :
    unplaced (plug tokens bodies) = plug (unplaced tokens) (bodies.map unplacedSegments) :=
  plug_place nowhere tokens bodies

abbrev State.ofText (text : List Char) (pos : Position) : State :=
  ⟨Cursor.ofText text pos, true, none, []⟩

theorem tokensWithin_eq_ok_iff {depth : Nat} {pos : Position} :
    tokensWithin (depth + 1) text pos = .ok tokens ↔
      ∃ found bodies, Scans (tokensWithin depth) (.ofText text pos) found bodies ∧ tokens = plug found bodies := by
  rw [tokensWithin, bind_eq_ok_iff]
  constructor
  · rintro ⟨⟨found, bodies⟩, hrun, eq⟩
    exact ⟨found, bodies, (run_eq_ok_iff (Nat.lt_succ_self _)).1 hrun, (pure_eq_ok_iff.1 eq).symm⟩
  · rintro ⟨found, bodies, scans, rfl⟩
    exact ⟨(found, bodies), (run_eq_ok_iff (Nat.lt_succ_self _)).2 scans, rfl⟩

/-- Code is read alike wherever it stands and however deep code may be nested, if it may be nested as deep as
it is long. -/
theorem refines_tokensWithin (bound depth depth' : Nat) (deep : bound ≤ depth') :
    Refines bound (tokensWithin depth) (tokensWithin depth') := by
  induction bound using Nat.strongRecOn generalizing depth depth' with
  | ind bound ih =>
    intro text pos pos' tokens short h
    cases depth with
    | zero => contradiction
    | succ depth =>
      obtain ⟨depth', rfl⟩ := Nat.exists_eq_succ_of_ne_zero (Nat.ne_zero_of_lt (Nat.lt_of_lt_of_le short deep))
      obtain ⟨found, bodies, scans, rfl⟩ := tokensWithin_eq_ok_iff.1 h
      have refines := ih text.length short depth depth' (by omega)
      have twin : Twin [] [] text (.ofText text pos) (.ofText text pos') :=
        ⟨(List.append_nil text).symm, (List.append_nil text).symm, .inl rfl, rfl, .refl none, rfl⟩
      obtain ⟨found', bodies', scans', sameTokens, sameBodies⟩ := scans.twin refines twin (Nat.le_refl _)
      refine ⟨_, tokensWithin_eq_ok_iff.2 ⟨found', bodies', scans', rfl⟩, ?_⟩
      rw [plug_unplaced, plug_unplaced, sameTokens, sameBodies]

/-- Two texts whose scans come to the same text with the same behind them. -/
theorem tokensWithin_of_twin {source source' : List Char} {pos : Position} (pos' : Position) {depth depth' : Nat}
    {all : List Token} (h : Reaches (tokensWithin depth) (.ofText source pos) tokens bodies mid)
    (h' : Reaches (tokensWithin depth') (.ofText source' pos') tokens' bodies' last)
    (sameTokens : unplaced tokens' = unplaced tokens)
    (sameBodies : bodies'.map unplacedSegments = bodies.map unplacedSegments) (twin : Twin [] [] text mid last)
    (deep : text.length ≤ depth') (read : tokensWithin (depth + 1) source pos = .ok all) :
    ∃ all', tokensWithin (depth' + 1) source' pos' = .ok all' ∧ unplaced all' = unplaced all := by
  obtain ⟨found, filled, scans, rfl⟩ := tokensWithin_eq_ok_iff.1 read
  obtain ⟨more, others, behind, rfl, rfl⟩ := h.scans_iff.1 scans
  obtain ⟨more', others', behind', moreTokens, moreBodies⟩ :=
    behind.twin (refines_tokensWithin text.length depth depth' deep) twin (Nat.le_refl _)
  refine ⟨_, tokensWithin_eq_ok_iff.2 ⟨_, _, h'.scans_iff.2 ⟨more', others', behind', rfl, rfl⟩, rfl⟩, ?_⟩
  rw [plug_unplaced, plug_unplaced, unplaced_append, unplaced_append, List.map_append, List.map_append, sameTokens,
    sameBodies, moreTokens, moreBodies]

/-! Places of a text -/

/-- The scan of a text comes to a state. -/
def Visits (source : List Char) (state : State) : Prop :=
  ∃ tokens bodies, Reaches (tokensWithin source.length) (.ofText source .origin) tokens bodies state

/-- The scan of a text comes to a place between tokens while no heredoc is open. -/
def Idles (source rest : List Char) : Prop :=
  ∃ state, Visits source state ∧ state.cursor.rest = rest ∧ state.pending = []

/-- Right before a place stands a sign that a carriage return put in there turns into the opening of a literal. -/
def ExposedAt (source rest : List Char) : Prop :=
  ∃ state text, Visits source state ∧ state.cursor.rest = text ++ rest ∧ Exposed state text

/-- The state behind a number of steps. -/
def advance (code : Reader) : Nat → State → Option State
  | 0, state => some state
  | n + 1, state =>
    match step code state with
    | .ok (some found) => advance code n found.state
    | _ => none

theorem reaches_of_advance {n : Nat} (h : advance code n state = some last) :
    ∃ tokens bodies, Reaches code state tokens bodies last := by
  induction n generalizing state with
  | zero => exact Option.some.inj h ▸ ⟨_, _, .refl state⟩
  | succ n ih =>
    unfold advance at h
    split at h
    · rename_i found hstep
      obtain ⟨tokens, bodies, reached⟩ := ih h
      exact ⟨_, _, .next (step_eq_some_iff.1 hstep) reached⟩
    · contradiction

/-- The states that a scan comes to, the first ones if there are more. -/
def trail (code : Reader) : Nat → State → List State
  | 0, _ => []
  | n + 1, state =>
    state :: match step code state with
      | .ok (some found) => trail code n found.state
      | _ => []

theorem mem_trail {n : Nat} (h : Reaches code state tokens bodies last) (enough : state.cursor.rest.length < n) :
    last ∈ trail code n state := by
  induction n generalizing state tokens bodies with
  | zero => exact (Nat.not_lt_zero _ enough).elim
  | succ n ih =>
    rw [trail]
    cases h with
    | refl => exact List.mem_cons_self
    | next hstep h =>
      have := hstep.suffix.2
      rw [step_eq_some_iff.2 hstep]
      exact List.mem_cons_of_mem _ (ih h (by omega))

/-- What holds along its trail holds wherever the scan of a text comes to. -/
theorem of_trail {source : List Char} {p : State → Bool}
    (h : (trail (tokensWithin source.length) (source.length + 1) (.ofText source .origin)).all p = true)
    (state : State) (visits : Visits source state) : p state = true := by
  obtain ⟨tokens, bodies, reached⟩ := visits
  exact List.all_eq_true.1 h state (mem_trail reached (Nat.lt_succ_self _))

theorem idles_of_advance {source : List Char} (n : Nat)
    (h : (advance (tokensWithin source.length) n (.ofText source .origin)).any
      (fun state => state.cursor.rest = rest && state.pending.isEmpty) = true) : Idles source rest := by
  obtain ⟨state, arrives, here⟩ := (Option.any_eq_true ..).1 h
  obtain ⟨front, idle⟩ : state.cursor.rest = rest ∧ state.pending = [] := by simpa using here
  exact ⟨state, reaches_of_advance arrives, front, idle⟩

end Formulary.Scan

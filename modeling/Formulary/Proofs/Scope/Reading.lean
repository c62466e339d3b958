import Formulary.Proofs.Grammar.Run
import Formulary.Proofs.Scope.Follow

/-!
What a parser does in terms of a walk: the walk over what was read follows the scopes of the parser, and what was read
stands where tokens were read.
-/

namespace Formulary

/-- Where a node stands. Pairs that make up a last argument stand at no single place. -/
def Node.place? : Node → Option Position
  | hash _ _ false => none
  | node => some node.pos

theorem Node.pos_of_place? {node : Node} {pos : Position} (h : node.place? = some pos) : node.pos = pos := by
  unfold place? at h
  split at h
  · contradiction
  · exact Option.some.inj h

namespace Grammar

def State.Sound (state : State) : Prop :=
  Scanned (state.ahead ++ [state.final])

/-- A run in which tokens were read, at these places among others, and names declared as in a walk. -/
structure Reads (walk : Walk) (places : List (Option Position)) (state after : State) : Prop where
  sound : state.Sound
  used : ∃ used, state.ahead = used ++ after.ahead ∧ places.Sublist (used.map (some ·.pos))
  final : after.final = state.final
  follows : walk.Follows state.scopes after.scopes

namespace Reads

variable {walk other : Walk} {places others : List (Option Position)} {state mid after : State}

theorem refl (h : state.Sound) : Reads .nothing [] state state :=
  ⟨h, ⟨[], rfl, .slnil⟩, rfl, .nothing _⟩

theorem trans (h : Reads walk places state mid) (h' : Reads other others mid after) :
    Reads (walk.andThen other) (places ++ others) state after := by
  obtain ⟨used, first, before⟩ := h.used
  obtain ⟨more, second, behind⟩ := h'.used
  refine ⟨h.sound, ⟨used ++ more, ?_, ?_⟩, h'.final.trans h.final, h.follows.andThen h'.follows⟩
  · rw [first, second, List.append_assoc]
  · rw [List.map_append]
    exact before.append behind

theorem of_mention {name : String} {asVariable : Bool}
    (h : Reads (walk.andThen (.mention name asVariable)) places state after) : Reads walk places state after :=
  ⟨h.sound, h.used, h.final, h.follows.of_mention⟩

theorem sound_after (h : Reads walk places state after) : after.Sound := by
  obtain ⟨used, all, -⟩ := h.used
  have sound := h.sound
  rw [State.Sound, all, ← h.final] at sound
  exact sound.behind

theorem mono (h : Reads walk places state after) (same : walk = other) (fewer : others.Sublist places) :
    Reads other others state after := by
  obtain ⟨used, all, within⟩ := h.used
  exact ⟨h.sound, ⟨used, all, fewer.trans within⟩, h.final, same ▸ h.follows⟩

theorem on (h : Reads walk places state after) {tokens : List Token} (rest : tokens <:+ after.ahead) :
    Reads walk places state (after.on tokens) := by
  obtain ⟨used, all, within⟩ := h.used
  obtain ⟨skipped, same⟩ := rest
  refine ⟨h.sound, ⟨used ++ skipped, ?_, ?_⟩, h.final, h.follows⟩
  · rw [all, ← same, List.append_assoc, State.ahead_on]
  · rw [List.map_append]
    exact within.trans (List.sublist_append_left _ _)

theorem read (h : Reads walk places state after) {token : Token} {tokens : List Token}
    (front : after.ahead = token :: tokens) : Reads walk (places ++ [some token.pos]) state (after.on tokens) := by
  obtain ⟨used, all, within⟩ := h.used
  refine ⟨h.sound, ⟨used ++ [token], ?_, ?_⟩, h.final, h.follows⟩
  · rw [all, front, List.append_assoc, State.ahead_on, List.singleton_append]
  · rw [List.map_append]
    exact within.append (.refl _)

theorem follow (h : Reads walk places state after) {scopes : List Scope} (h' : other.Follows after.scopes scopes) :
    Reads (walk.andThen other) places state { after with scopes } :=
  ⟨h.sound, h.used, h.final, h.follows.andThen h'⟩

theorem bar (h : Reads walk places state after) (barred : Nat) : Reads walk places state (after.bar barred) :=
  ⟨h.sound, h.used, h.final, h.follows⟩

/-- What was read stands in the order of the text. -/
theorem ordered {place : Option Position} (h : Reads walk (places ++ place :: others) state after) :
    ∃ pos, place = some pos ∧ ∀ other ∈ others, ∃ pos', other = some pos' ∧ pos.Before pos' := by
  obtain ⟨used, all, within⟩ := h.used
  have ordered := h.sound.ordered
  rw [all, List.append_assoc, List.map_append] at ordered
  have same : used.map (some ·.pos) = (used.map (·.pos)).map some := by rw [List.map_map]; rfl
  rw [same] at within
  -- The places are those of some of the tokens that were read, which stand in order.
  obtain ⟨positions, sublist, found⟩ := List.sublist_map_iff.1 within
  obtain ⟨front, back, rfl, -, rest⟩ := List.append_eq_map_iff.1 found
  obtain ⟨pos, back, rfl, rfl, rfl⟩ := List.map_eq_cons_iff.1 rest
  have sorted := (List.pairwise_append.1 ordered).1.sublist sublist
  have later : ∀ pos' ∈ back, pos.Before pos' := (List.pairwise_cons.1 (List.pairwise_append.1 sorted).2.1).1
  refine ⟨pos, rfl, fun other member => ?_⟩
  obtain ⟨pos', among, rfl⟩ := List.mem_map.1 member
  exact ⟨pos', rfl, later pos' among⟩

/-- A node that was read stands at a place. -/
theorem based {node : Node} (h : Reads walk (places ++ [node.place?]) state after) :
    Reads walk (places ++ [some node.pos]) state after := by
  obtain ⟨pos, same, -⟩ := h.ordered
  rw [same] at h
  rwa [Node.pos_of_place? same]

end Reads

variable {α β : Type}

/-- What holds after a parser that began well and did not fail. -/
def Triple (before : State → Prop) (p : Parser α) (after : α → State → Prop) : Prop :=
  ∀ ⦃state value next⦄, before state → p.run state = .ok (value, next) → after value next

/-- A state at a token, with what else holds there. -/
def At (token : Token) (before : State → Prop) (state : State) : Prop :=
  before state ∧ state.next = token

namespace Triple

variable {before before' : State → Prop} {p q : Parser α} {after after' : α → State → Prop}

theorem mono (h : Triple before p after) (weaker : ∀ state, before' state → before state)
    (stronger : ∀ value state, after value state → after' value state) : Triple before' p after' :=
  fun state value next start run => stronger value next (h (weaker state start) run)

theorem weaken (h : Triple before p after) (weaker : ∀ state, before' state → before state) : Triple before' p after :=
  h.mono weaker fun _ _ => id

theorem away (h : Triple before p after) (token : Token) : Triple (At token before) p after :=
  h.weaken fun _ => And.left

theorem pure {value : α} (h : ∀ state, before state → after value state) : Triple before (Pure.pure value) after := by
  intro state value next start run
  obtain ⟨rfl, rfl⟩ := Prod.mk.inj (Except.ok.inj run)
  exact h state start

theorem throw {fault : ReadError} : Triple before (MonadExcept.throw fault) after :=
  nofun

theorem modify {f : State → State} {after : PUnit → State → Prop} (h : ∀ state, before state → after ⟨⟩ (f state)) :
    Triple before (modify f) after := by
  intro state value next start run
  obtain ⟨-, rfl⟩ := Prod.mk.inj (Except.ok.inj run)
  exact h state start

theorem bind {next : α → Parser β} {final : β → State → Prop} (h : Triple before p after)
    (hnext : ∀ value, Triple (after value) (next value) final) : Triple before (p >>= next) final := by
  intro state value last start run
  obtain ⟨first, mid, hfirst, hsecond⟩ := run_bind_eq_ok_iff.1 run
  exact hnext first (h start hfirst) hsecond

theorem map {f : α → β} {final : β → State → Prop} (h : Triple before p after)
    (hf : ∀ value state, after value state → final (f value) state) : Triple before (f <$> p) final := by
  rw [map_eq_pure_bind]
  exact h.bind fun value => .pure (hf value)

/-- What holds after a parser may be told for each state before it apart. -/
theorem pointwise (h : ∀ state, before state → Triple (· = state) p after) : Triple before p after :=
  fun state _ _ start run => h state start rfl run

/-- What holds before a parser may be used as a fact. -/
theorem knowing {fact : Prop} (known : ∀ state, before state → fact) (h : fact → Triple before p after) :
    Triple before p after :=
  fun state _ _ start run => h (known state start) start run

theorem ite {test : Prop} {_ : Decidable test} (h : test → Triple before p after) (h' : ¬test → Triple before q after) :
    Triple before (if test then p else q) after := by
  split
  · exact h ‹_›
  · exact h' ‹_›

end Triple

/-! Tokens -/

section Tokens

variable {before : State → Prop} {walk : Walk} {places : List (Option Position)} {start state : State}
  {token : Token}

theorem Triple.of_run {p : Parser α} {f : State → α} (h : ∀ state, p.run state = .ok (f state, state)) :
    Triple before p fun value state => before state ∧ value = f state := by
  intro state value after start run
  obtain ⟨rfl, rfl⟩ := Prod.mk.inj (Except.ok.inj ((h state).symm.trans run))
  exact ⟨start, rfl⟩

theorem triple_peek : Triple before peek fun token => At token before :=
  (Triple.of_run run_peek).mono (fun _ => id) fun _ _ h => ⟨h.1, h.2.symm⟩

theorem triple_glance : Triple before peek fun _ => before :=
  triple_peek.mono (fun _ => id) fun _ _ => And.left

theorem triple_test (test : Lexeme Token → Bool) :
    Triple before (check test) fun found state => before state ∧ found = test state.next.lexeme :=
  .of_run (run_check · test)

theorem triple_check {test : Lexeme Token → Bool} : Triple before (check test) fun _ => before :=
  (triple_test test).mono (fun _ => id) fun _ _ => And.left

theorem triple_atStop {stop : Stop} : Triple before (atStop stop) fun _ => before :=
  triple_check

theorem triple_atArgument : Triple before atArgument fun _ => before :=
  (Triple.of_run run_atArgument).mono (fun _ => id) fun _ _ => And.left

theorem triple_atCallParen : Triple before atCallParen fun _ => before :=
  (Triple.of_run run_atCallParen).mono (fun _ => id) fun _ _ => And.left

theorem triple_getState : Triple before get fun _ => before :=
  (Triple.of_run run_get).mono (fun _ => id) fun _ _ => And.left

theorem triple_complainAt {complaint : Complaint} {after : α → State → Prop} :
    Triple before (complainAt complaint token) after :=
  .throw

theorem triple_complain {complaint : Complaint} {after : α → State → Prop} :
    Triple before (complain complaint) after :=
  triple_peek.bind fun _ => triple_complainAt

/-- Where a token stands that is not the end, it is the first one ahead. -/
theorem State.Sound.front (h : state.Sound) (inner : state.next.lexeme ≠ .endOfText) :
    ∃ tokens, state.ahead = state.next :: tokens :=
  state.front h.final inner

/-- What is known of a token that is looked at. -/
theorem At.marked {found : Token} (h : At found (Reads walk places start) state) : found.lexeme.Marked := by
  obtain ⟨reads, rfl⟩ := h
  exact reads.sound_after.marked state.next_mem

theorem At.inner {found : Token} (h : At found (Reads walk places start) state) (code : List Token) (pos : Position)
    (within : .code code pos ∈ found.lexeme.segments) : Scanned code := by
  obtain ⟨reads, rfl⟩ := h
  exact reads.sound_after.inner state.next_mem within

theorem Reads.ahead_ne_nil (h : Reads walk places start state) (inner : state.next.lexeme ≠ .endOfText) :
    state.ahead ≠ [] := by
  obtain ⟨tokens, front⟩ := h.sound_after.front inner
  simp [front]

/-- A token that is read where there is one, and what is read from there on stands at its place. -/
theorem triple_first : Triple (fun state => Reads walk places start state ∧ state.ahead ≠ []) advance
    fun found => Reads walk (places ++ [some found.pos]) start := by
  rintro state value after ⟨reads, more⟩ run
  obtain ⟨rfl, rfl⟩ := Prod.mk.inj (Except.ok.inj run)
  obtain ⟨token, tokens, front⟩ := List.exists_cons_of_ne_nil more
  simp only [front, List.headD_cons, List.tail_cons]
  exact reads.read front

theorem triple_begin (inner : token.lexeme ≠ .endOfText) : Triple (At token (Reads walk places start)) advance
    fun found => Reads walk (places ++ [some found.pos]) start :=
  triple_first.weaken fun _ ⟨reads, same⟩ => ⟨reads, reads.ahead_ne_nil (same ▸ inner)⟩

theorem triple_read (inner : token.lexeme ≠ .endOfText) : Triple (At token (Reads walk places start)) (discard advance)
    fun _ => Reads walk (places ++ [some token.pos]) start := by
  rintro state value after ⟨reads, rfl⟩ run
  obtain ⟨tokens, front⟩ := reads.sound_after.front inner
  obtain ⟨-, rfl⟩ := Prod.mk.inj (Except.ok.inj run)
  simp only [front, List.tail_cons]
  exact reads.read front

/-- What holds wherever tokens are skipped. -/
def Steady (before : State → Prop) : Prop :=
  ∀ ⦃state tokens⦄, tokens <:+ state.ahead → before state → before (state.on tokens)

theorem steady_reads : Steady (Reads walk places start) :=
  fun _ _ rest reads => reads.on rest

theorem Steady.advance (steady : Steady before) : Triple before advance fun _ => before :=
  triple_glance.bind fun _ => (Triple.modify fun _ => steady (List.tail_suffix _)).bind fun _ => .pure fun _ => id

theorem Steady.consume (steady : Steady before) {test : Lexeme Token → Bool} {complaint : Complaint} :
    Triple before (consume test complaint) fun _ => before :=
  triple_check.bind fun _ => .ite (fun _ => steady.advance.map fun _ _ => id) fun _ => triple_complain

theorem triple_advance : Triple (Reads walk places start) advance fun _ => Reads walk places start :=
  steady_reads.advance

theorem triple_skip : Triple (Reads walk places start) (discard advance) fun _ => Reads walk places start :=
  triple_advance.map fun _ _ => id

theorem triple_consume {test : Lexeme Token → Bool} {complaint : Complaint} :
    Triple (Reads walk places start) (consume test complaint) fun _ => Reads walk places start :=
  steady_reads.consume

theorem triple_consumeWord {word : String} :
    Triple (Reads walk places start) (consumeWord word) fun _ => Reads walk places start :=
  triple_consume

theorem triple_skipWord {word : String} :
    Triple (Reads walk places start) (skipWord word) fun _ => Reads walk places start :=
  triple_check.bind fun _ => .ite (fun _ => triple_skip) fun _ => .pure fun _ => id

theorem triple_consumeIdentifier {complaint : Complaint} :
    Triple (Reads walk places start) (consumeIdentifier complaint) fun _ => Reads walk places start := by
  refine triple_glance.bind fun token => ?_
  split
  · exact triple_skip.bind fun _ => .pure fun _ => id
  · exact triple_complain

theorem triple_consumeConstant {complaint : Complaint} :
    Triple (Reads walk places start) (consumeConstant complaint) fun _ => Reads walk places start := by
  refine triple_glance.bind fun token => ?_
  split
  · exact triple_skip.bind fun _ => .pure fun _ => id
  · exact triple_complain

theorem triple_skipWhile {test : Lexeme Token → Bool} :
    Triple (Reads walk places start) (skipWhile test) fun _ => Reads walk places start :=
  .modify fun _ reads => reads.on (List.dropWhile_suffix _)

theorem triple_skipNewlines : Triple (Reads walk places start) skipNewlines fun _ => Reads walk places start :=
  triple_skipWhile

theorem triple_skipSeparators : Triple (Reads walk places start) skipSeparators fun _ => Reads walk places start :=
  triple_skipWhile

end Tokens

/-! Scopes and the place of `do` -/

section Scopes

open Walk (inTurn)

variable {walk : Walk} {places : List (Option Position)} {start : State}

theorem triple_declare (name : String) : Triple (Reads walk places start) (declare name)
    fun _ => Reads (walk.andThen (.declare name)) places start :=
  .modify fun _ reads => reads.follow (.declare name _)

theorem triple_forM_declare (names : List String) : Triple (Reads walk places start) (names.forM declare)
    fun _ => Reads (walk.andThen (inTurn (names.map .declare))) places start := by
  induction names generalizing walk with
  | nil => exact .pure fun _ h => h.mono (Walk.andThen_nothing walk).symm (.refl _)
  | cons name more ih =>
    exact (triple_declare name).bind fun _ => ih.mono (fun _ => id) fun _ _ h =>
      h.mono (Walk.andThen_assoc ..) (.refl _)

/-- In a scope of its own a parser follows what the walk does in one. -/
theorem Triple.inScope {p : Parser α} {hard : Bool} (after : α → Walk → Prop)
    (h : ∀ start, Triple (Reads .nothing [] start) p fun value state =>
      ∃ inner, after value inner ∧ Reads inner [] start state) :
    Triple (Reads walk places start) (inScope hard p) fun value state =>
      ∃ inner, after value inner ∧ Reads (walk.andThen (inner.inScope hard)) places start state := by
  refine .pointwise fun state reads => ?_
  have sound : State.Sound { state with scopes := ⟨hard, []⟩ :: state.scopes } := reads.sound_after
  refine (Triple.modify fun _ same => ?opened).bind fun _ =>
    (h { state with scopes := ⟨hard, []⟩ :: state.scopes }).bind fun value => ?_
  case opened =>
    rw [same]
    exact .refl sound
  refine (Triple.modify fun mid ⟨inner, good, inside⟩ => ⟨inner, good, ?_⟩).bind fun _ => .pure fun _ => id
  have within : Reads (inner.inScope hard) [] state { mid with scopes := mid.scopes.tail } :=
    ⟨reads.sound_after, inside.used, inside.final, inside.follows.inScope⟩
  exact (reads.trans within).mono rfl (by simp)

section Barring

variable {before : State → Prop} {after : α → State → Prop} {p : Parser α}
  (stable : ∀ state barred, before state → before (state.bar barred))
  (stable' : ∀ value state barred, after value state → after value (state.bar barred))
include stable stable'

theorem Triple.enclosed (h : Triple before p after) : Triple before (enclosed p) after :=
  triple_getState.bind fun _ => (Triple.modify fun state => stable state _).bind fun _ => h.bind fun value =>
    (Triple.modify fun state => stable' value state _).bind fun _ => .pure fun _ => id

theorem Triple.leavingDo (h : Triple before p after) : Triple before (leavingDo p) after :=
  (Triple.modify fun state => stable state _).bind fun _ => h.bind fun value =>
    (Triple.modify fun state => stable' value state _).bind fun _ => .pure fun _ => id

end Barring

/-- A node whose text is in a scope of its own. -/
theorem Triple.scoped {p : Parser Node} {hard : Bool} (pos : Position)
    (h : ∀ start, Triple (Reads .nothing [] start) p fun node state =>
      ∃ inner, node.walk = inner.inScope hard ∧ node.place? = some pos ∧ Reads inner [] start state) :
    Triple (Reads walk places start) (Grammar.inScope hard (Grammar.enclosed p)) fun node state =>
      node.place? = some pos ∧ Reads (walk.andThen node.walk) places start state := by
  refine (Triple.inScope (fun node inner => node.walk = inner.inScope hard ∧ node.place? = some pos) fun start => ?_).mono
    (fun _ => id) fun _ _ ⟨_, ⟨same, here⟩, reads⟩ => ⟨here, reads.mono (by rw [same]) (.refl _)⟩
  refine .enclosed (fun _ _ reads => reads.bar _) (fun _ _ _ ⟨inner, same, reads⟩ => ⟨inner, same, reads.bar _⟩) ?_
  exact (h start).mono (fun _ => id) fun _ _ ⟨inner, same, here, reads⟩ => ⟨inner, ⟨same, here⟩, reads⟩

end Scopes

/-! Constructs -/

/-- A parser that goes over the text as the walks over what it reads do. -/
def Traces (p : Parser α) (walk : α → Walk) (placesOf : α → List (Option Position)) : Prop :=
  ∀ before places start, Triple (Reads before places start) p fun value =>
    Reads (before.andThen (walk value)) (places ++ placesOf value) start

namespace Traces

variable {p : Parser α} {walk : α → Walk} {placesOf : α → List (Option Position)} {before : Walk}
  {places : List (Option Position)} {start : State}

theorem read (h : Traces p walk placesOf) : Triple (Reads before places start) p fun value =>
    Reads (before.andThen (walk value)) (places ++ placesOf value) start :=
  h before places start

/-- Where what was read stands does not matter. -/
theorem pass (h : Traces p walk placesOf) : Triple (Reads before places start) p fun value =>
    Reads (before.andThen (walk value)) places start :=
  h.read.mono (fun _ => id) fun _ _ reads => reads.mono rfl (List.sublist_append_left _ _)

theorem enclosed (h : Traces p walk placesOf) : Traces (enclosed p) walk placesOf :=
  fun _ _ _ => h.read.enclosed (fun _ _ reads => reads.bar _) fun _ _ _ reads => reads.bar _

theorem leavingDo (h : Traces p walk placesOf) : Traces (leavingDo p) walk placesOf :=
  fun _ _ _ => h.read.leavingDo (fun _ _ reads => reads.bar _) fun _ _ _ reads => reads.bar _

end Traces

/-- After a run in which a node was read last. -/
abbrev ReadsNode (before : Walk) (places : List (Option Position)) (start : State) (node : Node) : State → Prop :=
  Reads (before.andThen node.walk) (places ++ [node.place?]) start

abbrev TracesNode (p : Parser Node) : Prop :=
  Traces p Node.walk fun node => [node.place?]

abbrev TracesAll (p : Parser (List Node)) : Prop :=
  Traces p walkAll fun _ => []

/-- A parser that goes on behind a node and makes it part of a larger one. -/
def Extends (left : Node) (p : Parser Node) : Prop :=
  ∀ (before : Walk) places start, Triple (ReadsNode before places start left) p (ReadsNode before places start)

/-- The parts of an argument list: arguments and pairs, each with its place. -/
def argumentParts (found : List Node × List (Node × Node)) : List (Position × Walk) :=
  argumentWalks found.1 ++ pairWalks found.2

/-- Parsers of all rules that go over the text as the walks over what they read do. -/
structure TracedRules (parse : Rules) : Prop where
  statements (stop : Stop) : Traces (parse (.statements stop)) walkAll (List.map Node.place?)
  statement : TracesNode (parse .statement)
  modifiers (node : Node) : Extends node (parse (.modifiers node))
  connective : TracesNode (parse .connective)
  connectiveRest (left : Node) : Extends left (parse (.connectiveRest left))
  negation : TracesNode (parse .negation)
  expression : TracesNode (parse .expression)
  choice : TracesNode (parse .choice)
  binary (least : Nat) : TracesNode (parse (.binary least))
  binaryRest (least : Nat) (left : Node) : Extends left (parse (.binaryRest least left))
  unary : TracesNode (parse .unary)
  operand : TracesNode (parse .operand)
  trailers (base : Node) : Extends base (parse (.trailers base))
  arguments (closer : Option Bracket) (named : Bool) : Traces (parse (.arguments closer named))
    (fun found => .byPosition (argumentParts found)) fun found => (Walk.inOrder (argumentParts found)).map (some ·.1)
  adjacent : Traces (parse .adjacent) walkPieces fun _ => []
  code {tokens : List Token} (scanned : Scanned tokens) (pos : Position) :
    Traces (parse (.code tokens pos)) (fun piece => walkPieces [piece]) fun _ => []
  pairs : Traces (parse .pairs) (fun found => .inTurn ((pairWalks found).map (·.2))) fun _ => []
  blockNames : Traces (parse .blockNames) (fun _ => .nothing) fun _ => []
  params (parenthesized : Bool) :
    Traces (parse (.params parenthesized)) (fun names => .inTurn (names.map .declare)) fun _ => []
  branch (before : Walk) (places : List (Option Position)) (start : State) :
    Triple (fun state => Reads before places start state ∧ state.ahead ≠ []) (parse .branch)
      (ReadsNode before places start)
  whens : TracesAll (parse .whens)
  rescues : TracesAll (parse .rescues)
  exceptions : TracesAll (parse .exceptions)
  targets : Traces (parse .targets) (fun _ => .nothing) fun _ => []
  constantNames : Traces (parse .constantNames) (fun _ => .nothing) fun _ => []

end Grammar

end Formulary

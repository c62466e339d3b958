import Formulary.Grammar
import Formulary.Proofs.Grammar.Run

/-!
Parsers that only look at tokens or read them. What such a parser complains of is a token. A parser that is restoring
also leaves as many scopes as it found, and as many who wait for a `do`; a parser in brackets does so too, since what is
changed before it is undone behind it.
-/

namespace Formulary.Grammar

variable {α β : Type}

/-- A complaint of a token, and not of a number or of the depth of the text. -/
inductive Plaint : ReadError → Prop
  | intro (complaint : Complaint) (found : Lexeme Token) (pos : Position) :
      Plaint (.malformed ⟨.token complaint found, pos⟩)

/-- A parser that leaves the tokens behind those it reads, and complains of nothing but a token. -/
class Quiet (p : Parser α) : Prop where
  keeps {state after : State} {value : α} (run : p.run state = .ok (value, after)) :
    after.ahead <:+ state.ahead ∧ after.final = state.final
  complains {state : State} {fault : ReadError} (run : p.run state = .error fault) : Plaint fault

/-- A quiet parser that leaves the number of scopes and the count of those who wait for a `do` as they are. -/
class Restoring (p : Parser α) : Prop extends Quiet p where
  restores {state after : State} {value : α} (run : p.run state = .ok (value, after)) :
    after.barred = state.barred ∧ after.scopes.length = state.scopes.length

namespace Quiet

variable {p : Parser α}

instance bind {next : α → Parser β} [first : Quiet p] [second : ∀ value, Quiet (next value)] : Quiet (p >>= next) where
  keeps run := by
    obtain ⟨value, mid, here, there⟩ := run_bind_eq_ok_iff.1 run
    obtain ⟨fewer, same⟩ := first.keeps here
    obtain ⟨fewer', same'⟩ := (second value).keeps there
    exact ⟨fewer'.trans fewer, same'.trans same⟩
  complains {state fault} run := by
    rw [StateT.run_bind] at run
    cases here : p.run state with
    | error error =>
      rw [here] at run
      obtain rfl := Except.error.inj run
      exact first.complains here
    | ok found =>
      rw [here] at run
      exact (second found.1).complains run

/-- What is modified are neither the tokens ahead, but for some that are left out, nor the last one. -/
theorem modify {f : State → State} (fewer : ∀ state, (f state).ahead <:+ state.ahead)
    (same : ∀ state, (f state).final = state.final) : Quiet (modify f : Parser Unit) where
  keeps {state _ _} run := by
    obtain ⟨-, rfl⟩ := Prod.mk.inj (Except.ok.inj run)
    exact ⟨fewer state, same state⟩
  complains := nofun

end Quiet

namespace Restoring

variable {p q : Parser α}

instance pure (value : α) : Restoring (Pure.pure value) where
  keeps run := by
    obtain ⟨rfl, rfl⟩ := Prod.mk.inj (Except.ok.inj run)
    exact ⟨List.suffix_refl _, rfl⟩
  complains := nofun
  restores run := by
    obtain ⟨rfl, rfl⟩ := Prod.mk.inj (Except.ok.inj run)
    exact ⟨rfl, rfl⟩

instance bind {next : α → Parser β} [first : Restoring p] [second : ∀ value, Restoring (next value)] :
    Restoring (p >>= next) where
  restores run := by
    obtain ⟨value, mid, here, there⟩ := run_bind_eq_ok_iff.1 run
    obtain ⟨barred, depth⟩ := first.restores here
    obtain ⟨barred', depth'⟩ := (second value).restores there
    exact ⟨barred'.trans barred, depth'.trans depth⟩

theorem andThen (p : Parser α) [Restoring p] {next : α → Parser β} (h : ∀ value, Restoring (next value)) :
    Restoring (p >>= next) :=
  bind

instance map {f : α → β} [Restoring p] : Restoring (f <$> p) := by
  rw [map_eq_pure_bind]
  infer_instance

instance discard [Restoring p] : Restoring (Functor.discard p) :=
  map

instance ite {test : Prop} [Decidable test] [Restoring p] [Restoring q] : Restoring (if test then p else q) := by
  split <;> infer_instance

/-- Tokens ahead are left out. -/
theorem modify {f : State → State} (fewer : ∀ state, (f state).ahead <:+ state.ahead)
    (same : ∀ state, (f state).final = state.final) (barred : ∀ state, (f state).barred = state.barred)
    (depth : ∀ state, (f state).scopes.length = state.scopes.length) : Restoring (modify f : Parser Unit) where
  toQuiet := .modify fewer same
  restores {state _ _} run := by
    obtain ⟨-, rfl⟩ := Prod.mk.inj (Except.ok.inj run)
    exact ⟨barred state, depth state⟩

instance get : Restoring (get : Parser State) where
  keeps run := by
    obtain ⟨-, rfl⟩ := Prod.mk.inj (Except.ok.inj run)
    exact ⟨List.suffix_refl _, rfl⟩
  complains := nofun
  restores run := by
    obtain ⟨-, rfl⟩ := Prod.mk.inj (Except.ok.inj run)
    exact ⟨rfl, rfl⟩

instance peek : Restoring peek := by
  unfold Grammar.peek
  infer_instance

instance peekSecond : Restoring peekSecond := by
  unfold Grammar.peekSecond
  infer_instance

instance advance : Restoring advance :=
  have := modify (f := fun state => { state with ahead := state.ahead.tail }) (fun _ => List.tail_suffix _)
    (fun _ => rfl) (fun _ => rfl) fun _ => rfl
  inferInstanceAs (Restoring (Grammar.peek >>= _))

instance complainAt (complaint : Complaint) (token : Token) : Restoring (complainAt complaint token : Parser α) where
  keeps := nofun
  complains run := Except.error.inj run ▸ .intro complaint token.lexeme token.pos
  restores := nofun

instance complain (complaint : Complaint) : Restoring (complain complaint : Parser α) := by
  unfold Grammar.complain
  infer_instance

instance check (test : Lexeme Token → Bool) : Restoring (check test) := by
  unfold Grammar.check
  infer_instance

instance checkWord (word : String) : Restoring (checkWord word) :=
  check _

instance consume (test : Lexeme Token → Bool) (complaint : Complaint) : Restoring (consume test complaint) := by
  unfold Grammar.consume
  infer_instance

instance consumeWord (word : String) : Restoring (consumeWord word) :=
  consume _ _

instance skipWord (word : String) : Restoring (skipWord word) := by
  unfold Grammar.skipWord
  infer_instance

instance consumeIdentifier (complaint : Complaint) : Restoring (consumeIdentifier complaint) := by
  refine andThen Grammar.peek fun token => ?_
  split <;> infer_instance

instance consumeConstant (complaint : Complaint) : Restoring (consumeConstant complaint) := by
  refine andThen Grammar.peek fun token => ?_
  split <;> infer_instance

instance skipWhile (test : Lexeme Token → Bool) : Restoring (skipWhile test) :=
  modify (fun _ => List.dropWhile_suffix _) (fun _ => rfl) (fun _ => rfl) fun _ => rfl

instance skipNewlines : Restoring skipNewlines :=
  skipWhile _

instance skipSeparators : Restoring skipSeparators :=
  skipWhile _

instance atStop (stop : Stop) : Restoring (atStop stop) :=
  check _

instance isLocal (name : String) : Restoring (isLocal name) := by
  unfold Grammar.isLocal
  infer_instance

instance declare (name : String) : Restoring (declare name) :=
  modify (fun _ => List.suffix_refl _) (fun _ => rfl) (fun _ => rfl) fun state => by cases state.scopes <;> rfl

instance forM_declare (names : List String) : Restoring (names.forM Grammar.declare) := by
  induction names with
  | nil => exact pure _
  | cons name rest ih =>
    exact andThen (Grammar.declare name) fun _ => ih

instance atArgument : Restoring atArgument := by
  unfold Grammar.atArgument
  infer_instance

instance atCallParen : Restoring atCallParen := by
  unfold Grammar.atCallParen
  infer_instance

instance atCloser (closer : Option Bracket) : Restoring (atCloser closer) := by
  cases closer with
  | none => exact pure false
  | some bracket => exact check _

instance assignable (node : Node) (token : Token) : Restoring (assignable node token) := by
  unfold Grammar.assignable
  split <;> infer_instance

instance methodHead : Restoring methodHead := by
  have named (token : Token) (singleton : Bool) : Restoring (do
      match definedName? token.lexeme with
      | none => Grammar.complainAt .expectedMethodName token
      | some name =>
        let next ← Grammar.peek
        if next.lexeme.isOperator "=" && !next.spaced then
          Functor.discard Grammar.advance
          return (name ++ "=", singleton)
        else return (name, singleton)) := by
    split <;> infer_instance
  refine andThen Grammar.advance fun first => andThen (Grammar.check _) fun dotted => ?_
  dsimp only
  split
  · exact andThen (Functor.discard Grammar.advance) fun _ => andThen Grammar.advance fun token => named token _
  · exact named first _

end Restoring

/-! What is undone -/

/-- What is changed before a parser and undone behind it are not the tokens. Behind a parser that leaves the number of
scopes and the count of those who wait for a `do` as they are, both are as before. -/
structure Brackets (enter : State → State) (leave : State → State → State) : Prop where
  enters (state : State) : (enter state).ahead = state.ahead ∧ (enter state).final = state.final
  leaves (outer inner : State) : (leave outer inner).ahead = inner.ahead ∧ (leave outer inner).final = inner.final
  barred {outer inner : State} : inner.barred = (enter outer).barred → (leave outer inner).barred = outer.barred
  depth {outer inner : State} : inner.scopes.length = (enter outer).scopes.length →
    (leave outer inner).scopes.length = outer.scopes.length

namespace Brackets

theorem inScope (hard : Bool) : Brackets (fun state => { state with scopes := ⟨hard, []⟩ :: state.scopes })
    fun _ inner => { inner with scopes := inner.scopes.tail } :=
  ⟨fun _ => ⟨rfl, rfl⟩, fun _ _ => ⟨rfl, rfl⟩, id, fun depth => by simp [depth]⟩

theorem enclosed : Brackets (fun state => { state with barred := 0 })
    fun outer inner => { inner with barred := outer.barred } :=
  ⟨fun _ => ⟨rfl, rfl⟩, fun _ _ => ⟨rfl, rfl⟩, fun _ => rfl, id⟩

theorem leavingDo : Brackets (fun state => { state with barred := state.barred + 1 })
    fun _ inner => { inner with barred := inner.barred - 1 } :=
  ⟨fun _ => ⟨rfl, rfl⟩, fun _ _ => ⟨rfl, rfl⟩, fun barred => by simp [barred], id⟩

variable {enter : State → State} {leave : State → State → State}

theorem quiet_enter (h : Brackets enter leave) : Quiet (modify enter : Parser Unit) :=
  .modify (fun state => (h.enters state).1.symm ▸ List.suffix_refl _) fun state => (h.enters state).2

theorem quiet_leave (h : Brackets enter leave) (outer : State) : Quiet (modify (leave outer) : Parser Unit) :=
  .modify (fun inner => (h.leaves outer inner).1.symm ▸ List.suffix_refl _) fun inner => (h.leaves outer inner).2

end Brackets

/-- A parser between two changes of the state. -/
def around (enter : State → State) (leave : State → State → State) (p : Parser α) : Parser α := do
  let outer ← get
  modify enter
  let result ← p
  modify (leave outer)
  return result

end Formulary.Grammar

import Formulary.Proofs.Directive.ClassBody
import Formulary.Proofs.Entries

/-!
What becomes of the names that dependency directives give. A name stands alone, which makes it a runtime dependency, or
is a key with tags. Of keys of one name in a hash the first is kept as it is written, with the tags of the last, and is
recorded under each kind among these tags: under none if there is none.
-/

namespace Formulary

/-- A name as a dependency directive gives it, with its tags if it is a key. -/
structure Mention where
  name : Scalar
  tags : Option (List Value)

namespace Mention

/-- The kind that a tag stands for. -/
def kind? (tag : Value) : Option DependencyKind :=
  tag.symbol?.bind DependencyKind.ofName?

def kinds (mention : Mention) : List DependencyKind :=
  mention.tags.elim [.runtime] (List.filterMap kind?)

/-- The formula that is named. A system requirement is none. -/
def formula? (mention : Mention) : Option String :=
  if Directive.isRequirement mention.name then none else mention.name.text?

/-- What a mention declares if it counts. -/
def declared (mention : Mention) : List (DependencyKind × String) :=
  mention.formula?.toList.flatMap fun name => mention.kinds.map (·, name)

def ofPair (pair : Scalar × Value) : Mention :=
  ⟨pair.1, some (Directive.tags pair.2)⟩

/-- The mentions in an argument. -/
def inValue : Value → List Mention
  | .scalar name => [⟨name, none⟩]
  | .hash pairs => pairs.map ofPair
  | .list _ => []

end Mention

namespace Static

/-- The value of an argument with all pairs of a hash as they are written. -/
def written? : Node → Option Value
  | .paren _ [inner] => written? inner
  | .hash _ pairs _ => (entries pairs).toOption.map .hash
  | node => (value node).toOption

end Static

/-- The value with the pairs of a hash settled. -/
def Value.settled : Value → Value
  | .hash pairs => .hash (Entries.settled pairs)
  | value => value

namespace DependsOn

open Result Directive

instance : EquivBEq Scalar where
  rfl := by simp [BEq.beq]
  symm := by simp only [BEq.beq, decide_eq_true_eq]; exact Eq.symm
  trans := by simp only [BEq.beq, decide_eq_true_eq]; exact Eq.trans

theorem exists_settled {node : Node} {value : Value} (h : Static.value node = .ok value) :
    ∃ written, Static.written? node = some written ∧ value = written.settled := by
  fun_induction Static.written? node with
  | case1 _ inner ih =>
    rw [Static.value] at h
    exact ih h
  | case2 _ pairs =>
    rw [Static.value, bind_eq_ok_iff] at h
    obtain ⟨written, hwritten, h⟩ := h
    obtain rfl := pure_eq_ok_iff.1 h
    exact ⟨.hash written, by simp [hwritten, Except.toOption],
      congrArg Value.hash (Entries.ofList_eq_settled written)⟩
  | case3 node noParen noHash =>
    refine ⟨value, by simp [h, Except.toOption], ?_⟩
    unfold Static.value at h
    split at h
    case h_1 =>
      split at h <;> cases h
      rfl
    case h_2 | h_3 =>
      cases h
      rfl
    case h_4 =>
      obtain ⟨items, -, h⟩ := bind_eq_ok_iff.1 h
      obtain rfl := pure_eq_ok_iff.1 h
      rfl
    case h_5 => exact absurd rfl (noHash _ _ _)
    case h_6 =>
      split at h <;> cases h
      rfl
    case h_7 => exact absurd rfl (noParen _ _)
    case h_8 => cases h

/-! What a directive declares -/

variable {directive : Directive} {declared : List (DependencyKind × String)}

theorem toList_of_dependencyKind {tag : Value} {kind : Option DependencyKind}
    (h : directive.dependencyKind tag = .ok kind) : kind = Mention.kind? tag := by
  unfold dependencyKind at h
  split at h
  · obtain rfl := pure_eq_ok_iff.1 h
    rfl
  · rename_i name
    cases found : DependencyKind.ofName? name with
    | none => simp [found, refuse] at h
    | some known =>
      rw [found] at h
      obtain rfl := pure_eq_ok_iff.1 h
      exact found.symm
  · cases h

theorem eq_filterMap_of_dependencyKinds : ∀ {tags : List Value} {kinds : List DependencyKind},
    directive.dependencyKinds tags = .ok kinds → kinds = tags.filterMap Mention.kind?
  | [], _, h => (pure_eq_ok_iff.1 h).symm
  | tag :: rest, kinds, h => by
    simp only [dependencyKinds, bind_eq_ok_iff, pure_eq_ok_iff] at h
    obtain ⟨kind, hkind, more, hmore, rfl⟩ := h
    obtain rfl := toList_of_dependencyKind hkind
    rw [List.filterMap_cons, eq_filterMap_of_dependencyKinds hmore]
    cases Mention.kind? tag <;> rfl

theorem eq_declared_of_taggedDependency {pair : Scalar × Value}
    (h : directive.taggedDependency pair.1 pair.2 = .ok declared) : declared = (Mention.ofPair pair).declared := by
  unfold taggedDependency at h
  split at h
  · cases h
  · rename_i name hname
    unfold Mention.declared Mention.formula? Mention.ofPair
    split at h
    · rename_i requirement
      simp [requirement, ← pure_eq_ok_iff.1 h]
    · rename_i formula
      obtain ⟨kinds, hkinds, h⟩ := bind_eq_ok_iff.1 h
      obtain rfl := eq_filterMap_of_dependencyKinds hkinds
      simp [formula, hname, Mention.kinds, ← pure_eq_ok_iff.1 h]

theorem eq_declared_of_taggedDependencies : ∀ {pairs : List (Scalar × Value)}
    {declared : List (DependencyKind × String)}, directive.taggedDependencies pairs = .ok declared →
    declared = pairs.flatMap fun pair => (Mention.ofPair pair).declared
  | [], _, h => (pure_eq_ok_iff.1 h).symm
  | pair :: rest, _, h => by
    simp only [taggedDependencies, bind_eq_ok_iff, pure_eq_ok_iff] at h
    obtain ⟨first, hfirst, more, hmore, rfl⟩ := h
    rw [List.flatMap_cons, eq_declared_of_taggedDependency hfirst, eq_declared_of_taggedDependencies hmore]

theorem eq_declared_of_declaredBy {value : Value} (h : directive.declaredBy value = .ok declared) :
    declared = (Mention.inValue value).flatMap Mention.declared := by
  cases value with
  | list items => cases h
  | hash pairs =>
    rw [Mention.inValue, List.flatMap_map]
    exact eq_declared_of_taggedDependencies h
  | scalar name =>
    cases hname : name.text? with
    | none => simp [declaredBy, hname, refuse] at h
    | some text =>
      simp only [declaredBy, hname, pure_eq_ok_iff] at h
      subst h
      by_cases requirement : isRequirement name <;>
        simp [Mention.inValue, Mention.declared, Mention.formula?, Mention.kinds, requirement, hname]

theorem eq_declared_of_declaredByAll : ∀ {values : List Value} {declared : List (DependencyKind × String)},
    directive.declaredByAll values = .ok declared →
    declared = values.flatMap fun value => (Mention.inValue value).flatMap Mention.declared
  | [], _, h => (pure_eq_ok_iff.1 h).symm
  | value :: rest, _, h => by
    simp only [declaredByAll, bind_eq_ok_iff, pure_eq_ok_iff] at h
    obtain ⟨first, hfirst, more, hmore, rfl⟩ := h
    rw [List.flatMap_cons, eq_declared_of_declaredBy hfirst, eq_declared_of_declaredByAll hmore]

end DependsOn

namespace Mention

/-- The mentions in an argument as they are written. -/
def writtenIn (arg : Node) : List Mention :=
  (Static.written? arg).elim [] inValue

/-- The mentions in an argument of which each name is the first of its kind in a hash, with the tags of the last. -/
def settledIn (arg : Node) : List Mention :=
  (Static.written? arg).elim [] fun value => inValue value.settled

end Mention

namespace DependsOn

open Result Directive

variable {α : Type}

theorem values_written {f : Value → List α} : ∀ {args : List Node} {values : List Value},
    Static.values args = .ok values → (∀ arg ∈ args, ∃ written, Static.written? arg = some written) ∧
      values.flatMap f = args.flatMap fun arg => (Static.written? arg).elim [] fun written => f written.settled
  | [], _, h => by
    obtain rfl := pure_eq_ok_iff.1 h
    exact ⟨nofun, rfl⟩
  | arg :: rest, _, h => by
    simp only [Static.values, bind_eq_ok_iff, pure_eq_ok_iff] at h
    obtain ⟨value, hvalue, more, hmore, rfl⟩ := h
    obtain ⟨written, hwritten, rfl⟩ := exists_settled hvalue
    obtain ⟨readable, same⟩ := values_written hmore
    refine ⟨List.forall_mem_cons.2 ⟨⟨written, hwritten⟩, readable⟩, ?_⟩
    rw [List.flatMap_cons, List.flatMap_cons, same, hwritten, Option.elim_some]

end DependsOn

/-! What a body declares -/

/-- The arguments of the dependency directives among the statements of a body. -/
def dependencyArguments (body : List Node) : List Node :=
  ((body.filterMap Directive.ofNode?).filter (·.name = "depends_on")).flatMap (·.args)

/-- The dependencies that a declaration adds to those of a draft. -/
def Declaration.added : Declaration → List (DependencyKind × String)
  | .dependencies declared => declared
  | _ => []

/-- The dependencies that a line adds to those of a source. -/
def SourceLine.added : SourceLine → List (DependencyKind × String)
  | .dependencies declared => declared
  | _ => []

namespace DependsOn

open Result Directive

theorem addAll_append (dependencies : Dependencies) (first second : List (DependencyKind × String)) :
    dependencies.addAll (first ++ second) = (dependencies.addAll first).addAll second :=
  List.foldl_append

theorem dependencies_foldl (declared : List Declaration) (draft : Draft) :
    (declared.foldl Draft.apply draft).dependencies =
      draft.dependencies.addAll (declared.flatMap Declaration.added) := by
  induction declared generalizing draft with
  | nil => rfl
  | cons first rest ih =>
    rw [List.foldl_cons, ih, List.flatMap_cons, addAll_append]
    cases first <;> rfl

theorem source_dependencies_foldl (lines : List SourceLine) (draft : SourceDraft) :
    (lines.foldl SourceDraft.apply draft).dependencies =
      draft.dependencies.addAll (lines.flatMap SourceLine.added) := by
  induction lines generalizing draft with
  | nil => rfl
  | cons first rest ih =>
    rw [List.foldl_cons, ih, List.flatMap_cons, addAll_append]
    cases first <;> rfl

/-- A kind has the names that are added under it, behind those that it had. -/
theorem namesOf_addAll (kind : DependencyKind) (added : List (DependencyKind × String)) (dependencies : Dependencies) :
    (dependencies.addAll added).namesOf kind =
      dependencies.namesOf kind ++ (added.filter (·.1 = kind)).map (·.2) := by
  induction added generalizing dependencies with
  | nil => exact (List.append_nil _).symm
  | cons pair rest ih =>
    have step : (dependencies.addAll (pair :: rest)) = (dependencies.add pair.1 pair.2).addAll rest := rfl
    rw [step, ih, Dependencies.add, Dependencies.namesOf, Entries.get?_put]
    by_cases same : pair.1 = kind
    · subst same
      simp [Dependencies.namesOf]
    · simp [same, Dependencies.namesOf]

/-- The arguments of the dependency directives of a body can be read, and what is added are the declarations of the
mentions in them. -/
structure Adds (body : List Node) (added : List (DependencyKind × String)) : Prop where
  readable : ∀ arg ∈ dependencyArguments body, ∃ written, Static.written? arg = some written
  added_eq : added = ((dependencyArguments body).flatMap Mention.settledIn).flatMap Mention.declared

theorem adds_nil : Adds [] [] :=
  ⟨nofun, rfl⟩

theorem dependencyArguments_cons (statement : Node) (rest : List Node) :
    dependencyArguments (statement :: rest) = dependencyArguments [statement] ++ dependencyArguments rest := by
  cases h : ofNode? statement with
  | none => simp [dependencyArguments, h]
  | some directive => by_cases named : directive.name = "depends_on" <;> simp [dependencyArguments, h, named]

theorem Adds.cons {statement : Node} {rest : List Node} {first more : List (DependencyKind × String)}
    (h : Adds [statement] first) (h' : Adds rest more) : Adds (statement :: rest) (first ++ more) := by
  constructor
  · rw [dependencyArguments_cons]
    exact List.forall_mem_append.2 ⟨h.readable, h'.readable⟩
  · rw [dependencyArguments_cons, List.flatMap_append, List.flatMap_append, ← h.added_eq, ← h'.added_eq]

theorem Adds.of_not_calls {statement : Node} (h : statement.callsDirective "depends_on" = false) :
    Adds [statement] [] := by
  have none : dependencyArguments [statement] = [] := by
    cases hs : ofNode? statement with
    | none => simp [dependencyArguments, hs]
    | some directive =>
      have other : directive.name ≠ "depends_on" := by simpa [Node.callsDirective, hs] using h
      simp [dependencyArguments, hs, other]
  exact ⟨by simp [none], by simp [none]⟩

/-- A directive declares what its mentions declare, in their order. -/
theorem Adds.of_directive {statement : Node} {directive : Directive} {declared : List (DependencyKind × String)}
    (hs : ofNode? statement = some directive) (named : directive.name = "depends_on")
    (h : directive.dependencies = .ok declared) : Adds [statement] declared := by
  have arguments : dependencyArguments [statement] = directive.args := by simp [dependencyArguments, hs, named]
  obtain ⟨values, hvalues, h⟩ := bind_eq_ok_iff.1 h
  have all : directive.declaredByAll values = .ok declared := by
    cases values with
    | nil => cases h
    | cons => exact h
  obtain ⟨readable, same⟩ := values_written (mapError_eq_ok_iff.1 hvalues)
  refine ⟨arguments ▸ readable, ?_⟩
  rw [arguments, eq_declared_of_declaredByAll all, same, List.flatMap_assoc]
  refine congrArg (directive.args.flatMap ·) (funext fun arg => ?_)
  rw [Mention.settledIn]
  cases Static.written? arg <;> rfl

theorem adds_declarationOf {statement : Node} {declaration : Declaration}
    (h : declarationOf statement = .ok declaration) : Adds [statement] declaration.added := by
  cases calls : statement.callsDirective "depends_on" with
  | false =>
    have other := ClassBody.directive?_ne_of_not_calls h calls
    cases declaration with
    | dependencies declared => exact absurd rfl other
    | _ => exact .of_not_calls calls
  | true =>
    obtain ⟨directive, hs, hname⟩ := (Option.any_eq_true _ _).1 calls
    have named : directive.name = "depends_on" := of_decide_eq_true hname
    have read : declarationOf statement = directive.declaration := by
      cases statement <;> first | contradiction | simp [declarationOf, ofStatement, hs]
    rw [read, Directive.declaration, named] at h
    obtain ⟨declared, hdeclared, h⟩ := bind_eq_ok_iff.1 h
    obtain rfl := pure_eq_ok_iff.1 h
    exact .of_directive hs named hdeclared

theorem added_of_sourceLine {directive : Directive} {line : SourceLine} (h : directive.sourceLine = .ok line)
    (other : directive.name ≠ "depends_on") : line.added = [] := by
  unfold sourceLine at h
  split at h
  case h_3 => contradiction
  case h_7 => cases h
  case h_4 | h_5 | h_6 =>
    obtain rfl := pure_eq_ok_iff.1 h
    rfl
  all_goals
    obtain ⟨_, -, h⟩ := bind_eq_ok_iff.1 h
    obtain rfl := pure_eq_ok_iff.1 h
    rfl

theorem adds_sourceLine {statement : Node} {line : SourceLine} (h : ofStatement sourceLine statement = .ok line) :
    Adds [statement] line.added := by
  unfold ofStatement at h
  cases hs : ofNode? statement with
  | none => simp [hs] at h
  | some directive =>
    simp only [hs] at h
    by_cases named : directive.name = "depends_on"
    · rw [sourceLine, named] at h
      obtain ⟨declared, hdeclared, h⟩ := bind_eq_ok_iff.1 h
      obtain rfl := pure_eq_ok_iff.1 h
      exact .of_directive hs named hdeclared
    · rw [added_of_sourceLine h named]
      exact .of_not_calls (by simp [Node.callsDirective, hs, named])

theorem adds_declarations : ∀ {body : List Node} {declared : List Declaration}, declarations body = .ok declared →
    Adds body (declared.flatMap Declaration.added)
  | [], _, h => by
    obtain rfl := pure_eq_ok_iff.1 h
    exact adds_nil
  | statement :: rest, _, h => by
    simp only [ClassBody.declarations_cons, bind_eq_ok_iff, pure_eq_ok_iff] at h
    obtain ⟨first, hfirst, more, hmore, rfl⟩ := h
    exact (adds_declarationOf hfirst).cons (adds_declarations hmore)

theorem adds_sourceLines : ∀ {body : List Node} {lines : List SourceLine}, ofBody sourceLine body = .ok lines →
    Adds body (lines.flatMap SourceLine.added)
  | [], _, h => by
    obtain rfl := pure_eq_ok_iff.1 h
    exact adds_nil
  | statement :: rest, _, h => by
    simp only [ofBody, bind_eq_ok_iff, pure_eq_ok_iff] at h
    obtain ⟨first, hfirst, more, hmore, rfl⟩ := h
    exact (adds_sourceLine hfirst).cons (adds_sourceLines hmore)

/-! Names that are written once and names that are written again -/

theorem beq_eq_of_text {key : Scalar} {name : String} (h : key.text? = some name) (other : Scalar) :
    (other == key) = decide (other.text? = some name) := by
  cases key <;> simp only [Scalar.text?, reduceCtorEq, Option.some.injEq] at h
  all_goals
    subst h
    cases other <;> simp [BEq.beq, Scalar.key, Scalar.text?]

end DependsOn

namespace Mention

/-- Whether a mention gives a name, be it as a formula or as a system requirement. -/
def gives (name : String) (mention : Mention) : Bool :=
  mention.name.text? = some name

theorem gives_of_formula? {mention : Mention} {name : String} (h : mention.formula? = some name) :
    mention.gives name = true := by
  unfold formula? at h
  split at h
  · cases h
  · simpa [gives] using h

end Mention

namespace DependsOn

open Result Directive

theorem find?_gives {first : Scalar × Value} {name : String} (h : (Mention.ofPair first).gives name = true)
    (pairs : List (Scalar × Value)) :
    pairs.find? ((·.gives name) ∘ Mention.ofPair) = pairs.find? (·.1 == first.1) := by
  have text : first.1.text? = some name := of_decide_eq_true h
  exact congrArg (pairs.find? ·) (funext fun pair => (beq_eq_of_text text pair.1).symm)

/-- In a hash a name counts as it is written first, with the tags of its last key. -/
theorem exists_settled_iff {arg : Node} {name : String} {kind : DependencyKind} :
    (∃ mention ∈ Mention.settledIn arg, mention.formula? = some name ∧ kind ∈ mention.kinds) ↔
      ∃ first last, (Mention.writtenIn arg).find? (·.gives name) = some first ∧
        (Mention.writtenIn arg).reverse.find? (·.gives name) = some last ∧
        first.formula? = some name ∧ kind ∈ last.kinds := by
  unfold Mention.settledIn Mention.writtenIn
  cases Static.written? arg with
  | none => simp
  | some written =>
    cases written with
    | list items => simp [Mention.inValue, Value.settled]
    | scalar scalar =>
      simp only [Mention.inValue, Value.settled, Option.elim_some, List.reverse_singleton, List.mem_singleton]
      constructor
      · rintro ⟨_, rfl, hname, hkind⟩
        have given := Mention.gives_of_formula? hname
        exact ⟨_, _, by simp [given], by simp [given], hname, hkind⟩
      · rintro ⟨first, last, hfirst, hlast, hname, hkind⟩
        obtain rfl := List.mem_singleton.1 (List.mem_of_find?_eq_some hfirst)
        obtain rfl := List.mem_singleton.1 (List.mem_of_find?_eq_some hlast)
        exact ⟨_, rfl, hname, hkind⟩
    | hash pairs =>
      simp only [Mention.inValue, Value.settled, Option.elim_some, Entries.settled, ← List.map_reverse, List.find?_map,
        Option.map_eq_some_iff, List.mem_map]
      constructor
      · rintro ⟨_, ⟨_, ⟨first, mem, rfl⟩, rfl⟩, hname, hkind⟩
        have same := find?_gives (Mention.gives_of_formula? hname)
        obtain ⟨last, hlast⟩ : ∃ last, pairs.reverse.find? (·.1 == first.1) = some last :=
          Option.isSome_iff_exists.1
            (List.find?_isSome.2 ⟨first, by simpa using Entries.firsts_subset pairs mem, BEq.rfl⟩)
        have value : Entries.lastValue first.1 pairs = some last.2 := by simp [Entries.lastValue, Entries.get?, hlast]
        rw [value] at hkind
        exact ⟨_, _, ⟨first, (same _).trans ((Entries.mem_firsts_iff first pairs).1 mem), rfl⟩,
          ⟨last, (same _).trans hlast, rfl⟩, hname, hkind⟩
      · rintro ⟨_, _, ⟨first, hfirst, rfl⟩, ⟨last, hlast, rfl⟩, hname, hkind⟩
        have same := find?_gives (Mention.gives_of_formula? hname)
        have value : Entries.lastValue first.1 pairs = some last.2 := by
          rw [Entries.lastValue, Entries.get?, ← same, hlast]
          rfl
        have among := (Entries.mem_firsts_iff first pairs).2 ((same _).symm.trans hfirst)
        refine ⟨_, ⟨_, ⟨first, among, rfl⟩, rfl⟩, hname, ?_⟩
        rw [value]
        exact hkind

theorem mem_declared_iff {mention : Mention} {name : String} {kind : DependencyKind} :
    (kind, name) ∈ mention.declared ↔ mention.formula? = some name ∧ kind ∈ mention.kinds := by
  simp [Mention.declared, and_comm, eq_comm]

/-- What the dependencies keep of the names that the dependency directives of a body give. -/
structure Keeps (body : List Node) (dependencies : Dependencies) : Prop where
  readable (arg : Node) (mem : arg ∈ dependencyArguments body) : ∃ written, Static.written? arg = some written
  /-- Names stand in the order in which they are declared. -/
  ordered (kind : DependencyKind) : dependencies.namesOf kind =
    ((((dependencyArguments body).flatMap Mention.settledIn).flatMap Mention.declared).filter (·.1 = kind)).map (·.2)
  /-- Where a name stands, as it is written first and with its last tags. -/
  recorded (name : String) (kind : DependencyKind) : name ∈ dependencies.namesOf kind ↔
    ∃ arg ∈ dependencyArguments body, ∃ first last, (Mention.writtenIn arg).find? (·.gives name) = some first ∧
      (Mention.writtenIn arg).reverse.find? (·.gives name) = some last ∧
      first.formula? = some name ∧ kind ∈ last.kinds
  /-- A name without tags is needed at run time. -/
  alone (arg : Node) (mem : arg ∈ dependencyArguments body) (mention : Mention) (within : mention ∈ Mention.writtenIn arg)
    (name : String) (formula : mention.formula? = some name) (bare : mention.tags = none) :
    name ∈ dependencies.namesOf .runtime
  /-- No name is lost, unless a hash gives it as a system requirement first or with no kind last. -/
  kept (arg : Node) (mem : arg ∈ dependencyArguments body) (mention : Mention) (within : mention ∈ Mention.writtenIn arg)
    (name : String) (formula : mention.formula? = some name) :
    (∃ kind, name ∈ dependencies.namesOf kind) ∨
      (∃ first, (Mention.writtenIn arg).find? (·.gives name) = some first ∧ first.formula? = none) ∨
      ∃ last, (Mention.writtenIn arg).reverse.find? (·.gives name) = some last ∧ last.kinds = []

theorem eq_singleton_of_bare {arg : Node} {mention : Mention} (within : mention ∈ Mention.writtenIn arg)
    (bare : mention.tags = none) : Mention.writtenIn arg = [mention] := by
  unfold Mention.writtenIn at within ⊢
  cases h : Static.written? arg with
  | none => simp [h] at within
  | some written =>
    cases written with
    | list items => simp [h, Mention.inValue] at within
    | scalar name =>
      rw [h] at within
      exact congrArg ([·]) (List.mem_singleton.1 within).symm
    | hash pairs =>
      rw [h] at within
      obtain ⟨pair, -, rfl⟩ := List.mem_map.1 within
      cases bare

theorem formula?_eq_of_gives {mention : Mention} {name : String} (h : mention.gives name = true) :
    mention.formula? = none ∨ mention.formula? = some name := by
  have text : mention.name.text? = some name := of_decide_eq_true h
  unfold Mention.formula?
  split
  · exact .inl rfl
  · exact .inr text

theorem Adds.keeps {body : List Node} {added : List (DependencyKind × String)} (h : Adds body added) :
    Keeps body (Dependencies.addAll [] added) := by
  have ordered (kind : DependencyKind) : (Dependencies.addAll [] added).namesOf kind =
      ((((dependencyArguments body).flatMap Mention.settledIn).flatMap Mention.declared).filter (·.1 = kind)).map
        (·.2) := by
    rw [namesOf_addAll, ← h.added_eq]
    exact List.nil_append _
  have recorded (name : String) (kind : DependencyKind) : name ∈ (Dependencies.addAll [] added).namesOf kind ↔
      ∃ arg ∈ dependencyArguments body, ∃ first last, (Mention.writtenIn arg).find? (·.gives name) = some first ∧
        (Mention.writtenIn arg).reverse.find? (·.gives name) = some last ∧
        first.formula? = some name ∧ kind ∈ last.kinds := by
    simp only [← exists_settled_iff, ordered, List.mem_map, List.mem_filter, List.mem_flatMap, decide_eq_true_eq,
      ← mem_declared_iff]
    constructor
    · rintro ⟨⟨_, _⟩, ⟨⟨mention, ⟨arg, mem, within⟩, declares⟩, rfl⟩, rfl⟩
      exact ⟨arg, mem, mention, within, declares⟩
    · rintro ⟨arg, mem, mention, within, declares⟩
      exact ⟨(kind, name), ⟨⟨mention, ⟨arg, mem, within⟩, declares⟩, rfl⟩, rfl⟩
  refine ⟨h.readable, ordered, recorded, ?alone, ?kept⟩
  case alone =>
    intro arg mem mention within name formula bare
    have only := eq_singleton_of_bare within bare
    have given := Mention.gives_of_formula? formula
    refine (recorded name .runtime).2 ⟨arg, mem, mention, mention, ?_, ?_, formula, ?_⟩
    · simp [only, given]
    · simp [only, given]
    · simp [Mention.kinds, bare]
  case kept =>
    intro arg mem mention within name formula
    have given := Mention.gives_of_formula? formula
    obtain ⟨first, hfirst⟩ := Option.isSome_iff_exists.1 (List.find?_isSome.2 ⟨mention, within, given⟩)
    obtain ⟨last, hlast⟩ := Option.isSome_iff_exists.1
      (List.find?_isSome.2 ⟨mention, List.mem_reverse.2 within, given⟩)
    obtain none | named := formula?_eq_of_gives (List.find?_some hfirst)
    · exact .inr (.inl ⟨first, hfirst, none⟩)
    · cases hkinds : last.kinds with
      | nil => exact .inr (.inr ⟨last, hlast, hkinds⟩)
      | cons kind more =>
        exact .inl ⟨kind, (recorded name kind).2 ⟨arg, mem, first, last, hfirst, hlast, named, by simp [hkinds]⟩⟩

/-- The dependencies of a recipe, and those of a head or stable source, keep the names that their directives give. -/
theorem dependencies_keep (body : List Node) :
    (∀ name draft, Draft.ofBody name body = .ok draft → Keeps body draft.dependencies) ∧
    (∀ draft, Directive.sourceBlock body = .ok draft → Keeps body draft.dependencies) := by
  constructor
  · intro name draft h
    obtain ⟨declared, hdeclared, rfl⟩ := ClassBody.ofBody_eq_ok_iff.1 h
    rw [dependencies_foldl]
    exact (adds_declarations hdeclared).keeps
  · intro draft h
    obtain ⟨lines, hlines, h⟩ := bind_eq_ok_iff.1 h
    obtain rfl := pure_eq_ok_iff.1 h
    rw [source_dependencies_foldl]
    exact (adds_sourceLines hlines).keeps

theorem dependencies_keep_tagged :
    let text (line : Nat) (value : String) : Node := .string ⟨line, 14⟩ [.text value]
    let needs (line : Nat) (arg : Node) : Node := .call ⟨line, 3⟩ "depends_on" none [arg] none false
    let pairs (line : Nat) (given : List (Node × Node)) : Node := .hash ⟨line, 14⟩ given false
    let body : List Node := [needs 2 (text 2 "zlib"),
      needs 3 (pairs 3 [(text 3 "python", .array ⟨3, 26⟩ [text 3 "3.11", .symbol ⟨3, 35⟩ "build"]),
        (.symbol ⟨3, 43⟩ "xcode", .symbol ⟨3, 53⟩ "build"), (text 3 "cmake", .symbol ⟨3, 69⟩ "build")]),
      needs 4 (pairs 4 [(text 4 "python", .symbol ⟨4, 26⟩ "test")])]
    let dependencies : Dependencies := [(.runtime, ["zlib"]), (.build, ["python", "cmake"]), (.test, ["python"])]
    Draft.ofBody "tool" body = .ok { name := "tool", dependencies } ∧
      Directive.sourceBlock body = .ok { dependencies } ∧ Keeps body dependencies := by
  intro text needs pairs body dependencies
  have whole : Draft.ofBody "tool" body = .ok { name := "tool", dependencies } := by rfl
  have source : Directive.sourceBlock body = .ok { dependencies } := by rfl
  exact ⟨whole, source, (dependencies_keep body).1 "tool" _ whole⟩

/-- A name whose tags are versions only is lost. -/
theorem exists_name_lost :
    let body : List Node := [.call ⟨2, 3⟩ "depends_on" none
      [.hash ⟨2, 14⟩ [(.string ⟨2, 14⟩ [.text "x"], .string ⟨2, 21⟩ [.text "1.0"])] false] none false]
    Draft.ofBody "tool" body = .ok { name := "tool" } ∧
      (∃ arg ∈ dependencyArguments body, ∃ mention ∈ Mention.writtenIn arg, mention.formula? = some "x") ∧
      ∀ kind, "x" ∉ ({ name := "tool" } : Draft).dependencies.namesOf kind := by
  intro body
  refine ⟨rfl, ⟨_, List.mem_singleton.2 rfl, _, List.mem_singleton.2 rfl, rfl⟩, ?_⟩
  intro kind
  simp [Dependencies.namesOf, Entries.get?]

end DependsOn

end Formulary

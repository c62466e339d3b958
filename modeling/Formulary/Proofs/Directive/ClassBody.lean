import Formulary.Proofs.Directive.Placement

/-!
A record as a function of its directives. A class body is accepted statement by statement, and what becomes of a
field of the draft hangs on the statements of one directive alone, in their order: two bodies with the same
statements for each directive of the record have the same draft, however they are interleaved and wherever they
stand.
-/

namespace Formulary

/-- Whether a statement calls a directive. -/
def Node.callsDirective (name : String) (node : Node) : Bool :=
  (Directive.ofNode? node).any (·.name = name)

namespace Directive

/-- The directives that have a place in the record. -/
def ofRecord : List String :=
  ["desc", "homepage", "url", "sha256", "version", "revision", "depends_on", "bottle", "head", "stable"]

end Directive

namespace ClassBody

open Result Directive

/-! Acceptance -/

theorem declarations_cons (statement : Node) (rest : List Node) :
    declarations (statement :: rest) = (do
      let first ← declarationOf statement
      let more ← declarations rest
      return first :: more) := rfl

theorem ofBody_eq_ok_iff {name : String} {body : List Node} {draft : Draft} :
    Draft.ofBody name body = .ok draft ↔
      ∃ declared, declarations body = .ok declared ∧ declared.foldl Draft.apply { name } = draft := by
  simp only [Draft.ofBody, bind_eq_ok_iff, pure_eq_ok_iff]

theorem ofBody_of_error {name : String} {body : List Node} {error : DirectiveError}
    (h : declarations body = .error error) : Draft.ofBody name body = .error error := by
  rw [Draft.ofBody, h]
  rfl

theorem declarations_of_error {bad : Node} {error : DirectiveError} (h : declarationOf bad = .error error)
    (after : List Node) : declarations (bad :: after) = .error error := by
  rw [declarations_cons, h]
  rfl

theorem exists_declarations_iff {body : List Node} :
    (∃ declared, declarations body = .ok declared) ↔
      ∀ statement ∈ body, ∃ declaration, declarationOf statement = .ok declaration := by
  induction body with
  | nil => exact ⟨nofun, fun _ => ⟨[], rfl⟩⟩
  | cons statement rest ih =>
    simp only [declarations_cons, bind_eq_ok_iff, pure_eq_ok_iff, List.forall_mem_cons, ← ih]
    constructor
    · rintro ⟨_, first, hfirst, more, hmore, -⟩
      exact ⟨⟨first, hfirst⟩, ⟨more, hmore⟩⟩
    · rintro ⟨⟨first, hfirst⟩, ⟨more, hmore⟩⟩
      exact ⟨_, first, hfirst, more, hmore, rfl⟩

theorem exists_ofBody_iff {name : String} {body : List Node} :
    (∃ draft, Draft.ofBody name body = .ok draft) ↔
      ∀ statement ∈ body, ∃ declaration, declarationOf statement = .ok declaration := by
  simp only [ofBody_eq_ok_iff, ← exists_declarations_iff]
  exact ⟨fun ⟨_, declared, h, _⟩ => ⟨declared, h⟩, fun ⟨declared, h⟩ => ⟨_, declared, h, rfl⟩⟩

theorem declarations_append_of_error {before rest : List Node} {error : DirectiveError}
    (hbefore : ∀ statement ∈ before, ∃ declaration, declarationOf statement = .ok declaration)
    (h : declarations rest = .error error) : declarations (before ++ rest) = .error error := by
  induction before with
  | nil => exact h
  | cons statement before ih =>
    obtain ⟨⟨declaration, hd⟩, hbefore⟩ := List.forall_mem_cons.1 hbefore
    rw [List.cons_append, declarations_cons, hd, ih hbefore]
    rfl

end ClassBody

/-! What becomes of a field -/

/-- The directive that a declaration comes from, if it says anything. -/
def Declaration.directive? : Declaration → Option String
  | .desc _ => some "desc"
  | .homepage _ => some "homepage"
  | .url _ => some "url"
  | .sha256 _ => some "sha256"
  | .version _ => some "version"
  | .revision _ => some "revision"
  | .dependencies _ => some "depends_on"
  | .bottle _ => some "bottle"
  | .head _ => some "head"
  | .stable _ => some "stable"
  | .nothing => none

namespace ClassBody

open Result Directive

theorem directive?_of_declaration {directive : Directive} {declared : Declaration}
    (h : directive.declaration = .ok declared) :
    declared.directive? = none ∨ declared.directive? = some directive.name := by
  unfold declaration at h
  split at h
  case h_8 called =>
    obtain ⟨found, -, h⟩ := bind_eq_ok_iff.1 h
    obtain rfl := pure_eq_ok_iff.1 h
    cases found with
    | none => exact .inl rfl
    | some bottle => exact .inr (congrArg some called.symm)
  case h_11 =>
    split at h
    · obtain rfl := pure_eq_ok_iff.1 h
      exact .inl rfl
    · cases h
  all_goals
    rename_i called
    obtain ⟨_, -, h⟩ := bind_eq_ok_iff.1 h
    obtain rfl := pure_eq_ok_iff.1 h
    exact .inr (congrArg some called.symm)

theorem directive?_ne_of_not_calls {name : String} {statement : Node} {declared : Declaration}
    (h : declarationOf statement = .ok declared) (other : statement.callsDirective name = false) :
    declared.directive? ≠ some name := by
  cases hs : ofNode? statement with
  | none =>
    cases statement with
    | methodDef =>
      cases h
      exact nofun
    | _ => simp [declarationOf, ofStatement, hs] at h
  | some directive =>
    have read : declarationOf statement = directive.declaration := by
      cases statement <;> first | contradiction | simp [declarationOf, ofStatement, hs]
    have different : directive.name ≠ name := by simpa [Node.callsDirective, hs] using other
    obtain none | same := directive?_of_declaration (read ▸ h)
    · simp [none]
    · simpa [same] using different

/-- What the statements that call a directive say. -/
def said (name : String) (body : List Node) : List Declaration :=
  (body.filter (·.callsDirective name)).filterMap fun statement => (declarationOf statement).toOption

theorem filter_directive?_eq {name : String} : ∀ {body : List Node} {declared : List Declaration},
    declarations body = .ok declared →
    declared.filter (·.directive? = some name) = (said name body).filter (·.directive? = some name)
  | [], _, h => by
    cases h
    rfl
  | statement :: rest, _, h => by
    simp only [declarations_cons, bind_eq_ok_iff, pure_eq_ok_iff] at h
    obtain ⟨first, hfirst, more, hmore, rfl⟩ := h
    have ih : more.filter (·.directive? = some name) = (said name rest).filter (·.directive? = some name) :=
      filter_directive?_eq hmore
    cases hc : statement.callsDirective name with
    | true =>
      have cons : said name (statement :: rest) = first :: said name rest := by
        simp [said, hc, hfirst, Except.toOption]
      rw [cons, List.filter_cons, List.filter_cons, ih]
    | false =>
      have same : said name (statement :: rest) = said name rest := by simp [said, hc]
      rw [same, List.filter_cons_of_neg (by simpa using directive?_ne_of_not_calls hfirst hc), ih]

theorem said_eq {name : String} {first second : List Node} {f : Position → Position}
    (h : (first.filter (·.callsDirective name)).map (Node.place f) =
      (second.filter (·.callsDirective name)).map (Node.place f)) : said name first = said name second := by
  have placed (statements : List Node) :
      (statements.map (Node.place f)).filterMap (fun statement => (declarationOf statement).toOption) =
        statements.filterMap fun statement => (declarationOf statement).toOption := by
    rw [List.filterMap_map]
    exact congrArg (statements.filterMap ·) (funext alike_declarationOf)
  rw [said, said, ← placed, h, placed]

/-- A part of a draft that one directive alone changes, without regard to the other parts. -/
structure Owns {α : Type} (name : String) (view : Draft → α) : Prop where
  other : ∀ draft declared, Declaration.directive? declared ≠ some name → view (draft.apply declared) = view draft
  own : ∀ draft draft' declared, view draft = view draft' → view (draft.apply declared) = view (draft'.apply declared)

theorem Owns.foldl_eq {α : Type} {name : String} {view : Draft → α} (owns : Owns name view)
    (declared : List Declaration) {draft draft' : Draft} (h : view draft = view draft') :
    view (declared.foldl Draft.apply draft) =
      view ((declared.filter (·.directive? = some name)).foldl Draft.apply draft') := by
  induction declared generalizing draft draft' with
  | nil => exact h
  | cons first rest ih =>
    by_cases hd : first.directive? = some name
    · rw [List.filter_cons_of_pos (by simpa using hd), List.foldl_cons, List.foldl_cons]
      exact ih (owns.own _ _ _ h)
    · rw [List.filter_cons_of_neg (by simpa using hd), List.foldl_cons]
      exact ih ((owns.other _ _ hd).trans h)

theorem owns_fields :
    Owns "desc" Draft.desc ∧ Owns "homepage" Draft.homepage ∧ Owns "url" Draft.url ∧ Owns "sha256" Draft.sha256 ∧
    Owns "version" Draft.version ∧ Owns "revision" Draft.revision ∧ Owns "depends_on" Draft.dependencies ∧
    Owns "bottle" Draft.bottle ∧ Owns "head" Draft.head ∧ Owns "stable" Draft.stable := by
  refine ⟨?_, ?_, ?_, ?_, ?_, ?_, ?_, ?_, ?_, ?_⟩
  all_goals
    constructor
    · intro draft declared h
      cases declared <;> first | rfl | exact (h rfl).elim
    · intro draft draft' declared h
      cases declared with
      | dependencies names => first | exact congrArg (·.addAll names) h | exact h
      | _ => first | rfl | exact h

theorem name_foldl (declared : List Declaration) (draft : Draft) :
    (declared.foldl Draft.apply draft).name = draft.name := by
  induction declared generalizing draft with
  | nil => rfl
  | cons first rest ih =>
    rw [List.foldl_cons, ih]
    cases first <;> rfl

/-- The draft is settled by what each directive of the record says, in order. -/
theorem ofBody_eq_of_statements_eq {name : String} {first second : List Node} {draft draft' : Draft}
    (hfirst : Draft.ofBody name first = .ok draft) (hsecond : Draft.ofBody name second = .ok draft')
    (same : ∀ directive ∈ ofRecord, (first.filter (·.callsDirective directive)).map (Node.place nowhere) =
      (second.filter (·.callsDirective directive)).map (Node.place nowhere)) : draft = draft' := by
  obtain ⟨declared, hd, rfl⟩ := ofBody_eq_ok_iff.1 hfirst
  obtain ⟨declared', hd', rfl⟩ := ofBody_eq_ok_iff.1 hsecond
  have field {α : Type} {directive : String} {view : Draft → α} (owns : Owns directive view)
      (mem : directive ∈ ofRecord) :
      view (declared.foldl Draft.apply { name }) = view (declared'.foldl Draft.apply { name }) := by
    rw [owns.foldl_eq declared rfl, owns.foldl_eq declared' rfl, filter_directive?_eq hd, filter_directive?_eq hd',
      said_eq (same directive mem)]
  obtain ⟨desc, homepage, url, sha256, version, revision, dependencies, bottle, head, stable⟩ := owns_fields
  have names := (name_foldl declared { name }).trans (name_foldl declared' { name }).symm
  generalize declared.foldl Draft.apply { name } = draft at *
  generalize declared'.foldl Draft.apply { name } = draft' at *
  cases draft
  cases draft'
  simp only [Draft.mk.injEq]
  exact ⟨names, field desc (by decide), field homepage (by decide), field url (by decide), field sha256 (by decide),
    field version (by decide), field revision (by decide), field dependencies (by decide),
    field bottle (by decide), field head (by decide), field stable (by decide)⟩

theorem exists_ofBody_singleton_iff {name : String} {statement : Node} :
    (∃ draft, Draft.ofBody name [statement] = .ok draft) ↔
      ∃ declaration, declarationOf statement = .ok declaration := by
  simp [exists_ofBody_iff]

theorem ofBody_singleton_of_error {name : String} {statement : Node} {error : DirectiveError}
    (h : Draft.ofBody name [statement] = .error error) : declarationOf statement = .error error := by
  cases hs : declarationOf statement with
  | error other =>
    have alone : Draft.ofBody name [statement] = .error other := ofBody_of_error (declarations_of_error hs [])
    exact congrArg _ (Except.error.inj (alone.symm.trans h))
  | ok declaration =>
    obtain ⟨draft, hd⟩ : ∃ draft, Draft.ofBody name [statement] = .ok draft :=
      exists_ofBody_singleton_iff.2 ⟨declaration, hs⟩
    rw [hd] at h
    cases h

/-- A class body is accepted exactly if each of its statements is by itself, and fails as the first that is not.
Bodies that agree in the statements of each directive of the record, wherever these stand, give equal records. -/
theorem ofBody_by_directives (name : String) (body other : List Node) :
    ((∃ draft, Draft.ofBody name body = .ok draft) ↔
      ∀ statement ∈ body, ∃ draft, Draft.ofBody name [statement] = .ok draft) ∧
    (∀ before bad after error, body = before ++ bad :: after →
      (∀ statement ∈ before, ∃ draft, Draft.ofBody name [statement] = .ok draft) →
      Draft.ofBody name [bad] = .error error → Draft.ofBody name body = .error error) ∧
    (∀ draft draft', Draft.ofBody name body = .ok draft → Draft.ofBody name other = .ok draft' →
      (∀ directive ∈ ofRecord, (body.filter (·.callsDirective directive)).map (Node.place nowhere) =
        (other.filter (·.callsDirective directive)).map (Node.place nowhere)) →
      ∀ rule install, draft.record rule install = draft'.record rule install) := by
  simp only [exists_ofBody_singleton_iff]
  refine ⟨exists_ofBody_iff, ?first, ?records⟩
  case first =>
    rintro before bad after error rfl hbefore hbad
    have alone := declarations_of_error (ofBody_singleton_of_error hbad) after
    exact ofBody_of_error (declarations_append_of_error hbefore alone)
  case records =>
    rintro draft draft' hbody hother same rule install
    rw [ofBody_eq_of_statements_eq hbody hother same]

theorem ofBody_by_directives_interleaved :
    let say (line : Nat) (directive text : String) : Node :=
      .call ⟨line, 3⟩ directive none [.string ⟨line, 12⟩ [.text text]] none false
    let install (line : Nat) : Node := .methodDef ⟨line, 3⟩ "install" [] [] false
    let body : List Node := [say 2 "desc" "a", say 3 "depends_on" "x", install 4, say 5 "desc" "b",
      say 6 "depends_on" "y"]
    let other : List Node := [say 2 "depends_on" "x", say 3 "license" "MIT", say 4 "depends_on" "y",
      say 5 "desc" "a", say 6 "desc" "b"]
    let draft : Draft := { name := "tool", desc := some "b", dependencies := [(.runtime, ["x", "y"])] }
    let bad : Node := say 7 "source" "z"
    (Draft.ofBody "tool" body = .ok draft ∧ Draft.ofBody "tool" other = .ok draft) ∧
      (∀ directive ∈ ofRecord, (body.filter (·.callsDirective directive)).map (Node.place nowhere) =
        (other.filter (·.callsDirective directive)).map (Node.place nowhere)) ∧
      draft.record .declaredOnly none = draft.record .declaredOnly none ∧
      Draft.ofBody "tool" [bad] = .error (.unknown "source" 7) ∧
      Draft.ofBody "tool" (body ++ bad :: other) = .error (.unknown "source" 7) := by
  intro say install body other draft bad
  have hbody : Draft.ofBody "tool" body = .ok draft := by rfl
  have hother : Draft.ofBody "tool" other = .ok draft := by rfl
  have same : ∀ directive ∈ ofRecord, (body.filter (·.callsDirective directive)).map (Node.place nowhere) =
      (other.filter (·.callsDirective directive)).map (Node.place nowhere) := by
    simp only [ofRecord, List.forall_mem_cons]
    exact ⟨rfl, rfl, rfl, rfl, rfl, rfl, rfl, rfl, rfl, rfl, nofun⟩
  have accepted := (ofBody_by_directives "tool" body other).1.1 ⟨draft, hbody⟩
  have hbad : Draft.ofBody "tool" [bad] = .error (.unknown "source" 7) := by rfl
  exact ⟨⟨hbody, hother⟩, same,
    (ofBody_by_directives "tool" body other).2.2 draft draft hbody hother same .declaredOnly none, hbad,
    (ofBody_by_directives "tool" (body ++ bad :: other) []).2.1 body bad other _ rfl accepted hbad⟩

end ClassBody

end Formulary

import Formulary.Proofs.Closure.Stops
import Formulary.Proofs.Grammar.Depth
import Formulary.Proofs.Grammar.Numerals
import Formulary.Service

/-!
How requests fail. A defect of a recipe is refused with a status; what is not refused are numbers that are none, and
URLs that a version is sought in but that cannot be read.
-/

namespace Formulary

open FileTree Result

/-- A defect of the recipe itself. That a text is nested too deep to be read would be none. -/
def Defect.Genuine : Defect → Prop
  | malformed error => error.cause ≠ .tooDeep
  | _ => True

/-- An error that tells of a defect of a recipe. -/
inductive LoadError.Genuine : LoadError → Prop
  | recipe {failure : Failure} : failure.defect.Genuine → Genuine (.recipe failure)

/-- What in the bytes of a recipe leads to an error that is no defect of the recipe. -/
inductive Blemish (rule : VersionRule) (bytes : List UInt8) : LoadError → Prop
  | number {text : List Char} {tokens : List Token} {fault : Text.NumberFault} : decodeRecipe bytes = .ok text →
      tokenize text .origin = .ok tokens → Misspelt tokens fault → Blemish rule bytes (.number fault)
  | url {text : List Char} {program : Node} {formula : FormulaClass} {draft : Draft} {url : String} {fault : UrlFault} :
      decodeRecipe bytes = .ok text → parseRecipe text = .ok program →
      Recipe.findFormulaClass program = some formula →
      Draft.ofBody (Recipe.formulaName formula.name) formula.body = .ok draft →
      draft.version = none → draft.releaseUrl = some url → rule url = .error fault → Blemish rule bytes (.url fault)

section Loading

variable {rule : VersionRule} {tree : FileTree} {path : Path} {name : Option String} {bytes : List UInt8}
  {error : LoadError}

theorem exists_url_of_record {draft : Draft} {install : Option (List Instruction)} {fault : UrlFault}
    (h : draft.record rule install = .error fault) :
    draft.version = none ∧ ∃ url, draft.releaseUrl = some url ∧ rule url = .error fault := by
  obtain h | ⟨_, -, h⟩ := bind_eq_error_iff.1 h
  · unfold Draft.versionBy at h
    cases hversion : draft.version with
    | some version => simp [hversion] at h
    | none =>
      cases hurl : draft.releaseUrl with
      | none =>
        simp only [hversion, hurl, Option.elim_none] at h
        split at h <;> cases h
      | some url =>
        refine ⟨rfl, url, rfl, ?_⟩
        simpa [hversion, hurl, Draft.headOnly] using h
  · cases h

theorem defect_or_blemish_of_text {text : List Char} (decoded : decodeRecipe bytes = .ok text)
    (h : recordOfText rule name text = .error error) :
    error.Genuine ∨ Blemish rule bytes error := by
  unfold recordOfText at h
  obtain unread | ⟨program, read, h⟩ := bind_eq_error_iff.1 h
  · obtain ⟨fault, wrong, rfl⟩ := mapError_eq_error_iff.1 unread
    cases fault with
    | malformed error => exact .inl (.recipe fun deep => parseRecipe_not_deep wrong (.intro deep))
    | number fault =>
      obtain ⟨tokens, scanned, misspelt⟩ := misspelt_of_parseRecipe wrong
      exact .inr (.number decoded scanned misspelt)
  · cases found : Recipe.findFormulaClass program with
    | none =>
      simp only [found] at h
      exact .inl (Except.error.inj h ▸ .recipe trivial)
    | some formula =>
      simp only [found] at h
      obtain refused | ⟨draft, drafted, h⟩ := bind_eq_error_iff.1 h
      · obtain ⟨_, -, rfl⟩ := mapError_eq_error_iff.1 refused
        exact .inl (.recipe trivial)
      · obtain refused | ⟨install, -, h⟩ := bind_eq_error_iff.1 h
        · obtain ⟨_, -, rfl⟩ := mapError_eq_error_iff.1 refused
          exact .inl (.recipe trivial)
        · obtain ⟨fault, wrong, rfl⟩ := mapError_eq_error_iff.1 h
          obtain ⟨undeclared, url, stands, wrong⟩ := exists_url_of_record wrong
          exact .inr (.url decoded (mapError_eq_ok_iff.1 read) found (mapError_eq_ok_iff.1 drafted) undeclared stands
            wrong)

/-- What is wrong with a recipe is a defect of it, or a blemish. -/
theorem defect_or_blemish (h : recordOfBytes rule name bytes = .error error) :
    error.Genuine ∨ Blemish rule bytes error := by
  obtain refused | ⟨text, decoded, h⟩ := bind_eq_error_iff.1 h
  · obtain ⟨_, undecoded, rfl⟩ := mapError_eq_error_iff.1 refused
    obtain ⟨offset, -, rfl⟩ := mapError_eq_error_iff.1 undecoded
    exact .inl (.recipe nofun)
  · exact defect_or_blemish_of_text (mapError_eq_ok_iff.1 decoded) h

/-- A file that can be read has a record, or a defect or a blemish that keeps it from having one. -/
theorem load_of_readable (there : tree.read path = .ok bytes) : (∃ record, load rule tree path = .ok record) ∨
    ∃ error, load rule tree path = .error error ∧ (error.Genuine ∨ Blemish rule bytes error) := by
  cases hload : load rule tree path with
  | ok record => exact .inl ⟨record, rfl⟩
  | error error =>
    rw [Resolver.load_of_read there] at hload
    exact .inr ⟨error, rfl, defect_or_blemish hload⟩

end Loading

namespace Resolver

open DepthFirst

variable {resolver : Resolver} {tree : FileTree} {root : Path} {error : LoadError} {wanted : Wanted}

theorem exists_read_of_not_missing (there : missing? tree wanted = none) (dependency : wanted.dependency ≠ none) :
    ∃ bytes, tree.read wanted.path = .ok bytes := by
  obtain ⟨path, _ | ⟨name, declaring⟩⟩ := wanted
  · exact absurd rfl dependency
  · refine exists_read_of_isFile ?_
    simp only [missing?] at there
    split at there
    · assumption
    · cases there

theorem place_reachable {order : List Place} {met : List Wanted} {before : Records} {result : Resolution}
    {stop : Wanted} (h : Stops resolver tree root before result error order met stop)
    (new : stop.path.place ∉ order) :
    Relation.ReflTransGen (Edge (resolver.dependenciesAt tree)) root.place stop.path.place := by
  obtain ⟨after, traversal, -, next⟩ := h.preorder
  refine (traversal.mem_iff_reachable _).1 (List.mem_append_right _ ?_)
  exact List.mem_of_mem_head? (next new)

/-- What is asked for is the root, or a dependency. -/
theorem eq_root_or_dependency {order : List Place} {met : List Wanted} {before : Records} {result : Resolution}
    {stop : Wanted} (h : Stops resolver tree root before result error order met stop) :
    stop = ⟨root, none⟩ ∨ stop.dependency ≠ none := by
  obtain ⟨rest, run, -⟩ := h.requests
  obtain first | ⟨asking, needed⟩ := run.mem_todo_or_needs stop (by simp)
  · exact .inl (List.mem_singleton.1 first)
  · unfold needsAt at needed
    split at needed
    · obtain ⟨name, -, rfl⟩ := List.mem_map.1 needed
      exact .inr (Option.some_ne_none _)
    · cases needed

/-- What fails to resolve has a defect, or there is a blemish in a file of the closure. -/
theorem defect_or_blemish_of_resolve (sound : tree.Sound) (records : Records)
    (file : ∃ bytes, tree.read root = .ok bytes) (failed : (resolver.resolve tree root records).error = some error) :
    error.Genuine ∨ ∃ place bytes,
      Relation.ReflTransGen (Edge (resolver.dependenciesAt tree)) root.place place ∧
        tree.read (fileAt place) = .ok bytes ∧ Blemish resolver.rule bytes error := by
  obtain ⟨order, loaded, met, stop, rest, traversal, h⟩ :=
    follow_halts sound [] records [⟨root, none⟩] nofun (by simp) failed
  have stops := h.stops traversal
  cases stops.fails with
  | missing gone => exact .inl (.recipe trivial)
  | load there new hload =>
    obtain ⟨bytes, hread⟩ : ∃ bytes, tree.read stop.path = .ok bytes := by
      obtain rfl | dependency := eq_root_or_dependency stops
      · exact file
      · exact exists_read_of_not_missing there dependency
    rw [load_of_read hread] at hload
    exact (defect_or_blemish hload).imp_right fun blemish =>
      ⟨_, bytes, place_reachable stops new, read_fileAt hread, blemish⟩

end Resolver

namespace Service

variable {α : Type} {tree : FileTree} {root path : Path} {name : String} {error : LoadError}

/-- An answer, or a refusal that says what is wrong: there is no such formula, or a dependency is missing, or a recipe
has some other defect. -/
inductive Documented (tree : FileTree) (root : Path) (name : String) : Response α → Prop
  | answer (body : α) : Documented tree root name (.answer body)
  | unknown : findRecipe tree root name = none →
      Documented tree root name (.refusal 404 s!"Formula not found: {name}")
  | missing {failure : Failure} {needed expectedPath : String} :
      failure.defect = .missingDependency needed expectedPath → Documented tree root name (.refusal 404 failure.message)
  | defective {failure : Failure} : failure.defect.Genuine →
      (∀ needed expectedPath, failure.defect ≠ .missingDependency needed expectedPath) →
      Documented tree root name (.refusal 422 failure.message)

/-- An error that no status covers, because of a blemish in one of some files. -/
def Escapes (tree : FileTree) (files : Set Place) (response : Response α) : Prop :=
  ∃ place ∈ files, ∃ bytes error, tree.read (fileAt place) = .ok bytes ∧ Blemish Version.ofUrl bytes error ∧
    response = .failure error

/-- The files that a formula with its closure is made of. -/
def filesOf (tree : FileTree) (root : Path) (name : String) : Set Place :=
  {place | Relation.ReflTransGen (DepthFirst.Edge (Resolver.dependenciesAt {} tree)) (recipePath root name).place place}

theorem documented_of_genuine (h : error.Genuine) : Documented tree root name (ofError error : Response α) := by
  cases h with
  | @recipe failure genuine =>
    unfold ofError
    dsimp only
    split
    · rename_i missing
      exact .missing missing
    · rename_i other
      exact .defective genuine other

theorem ofError_of_blemish {rule : VersionRule} {bytes : List UInt8} (h : Blemish rule bytes error) :
    (ofError error : Response α) = .failure error := by
  cases h <;> rfl

theorem findRecipe_eq_some (h : findRecipe tree root name = some path) :
    path = recipePath root name ∧ ∃ bytes, tree.read path = .ok bytes := by
  unfold findRecipe at h
  split at h
  · rename_i found
    obtain rfl := Option.some.inj h
    exact ⟨rfl, exists_read_of_isFile (Bool.and_eq_true_iff.1 found).2⟩
  · cases h

theorem install_of_load {record : Record} (found : findRecipe tree root name = some path)
    (h : load Version.ofUrl tree path = .ok record) :
    install tree root name = .answer ⟨record.name, record.install, record.installText⟩ := by
  simp only [install, found, h]

theorem install_of_error (found : findRecipe tree root name = some path)
    (h : load Version.ofUrl tree path = .error error) : install tree root name = ofError error := by
  simp only [install, found, h]

theorem formula_of_done (found : findRecipe tree root name = some path)
    (h : (Resolver.resolve {} tree path []).error = none) :
    formula tree root name = .answer ⟨name, (Resolver.resolve {} tree path []).records⟩ := by
  simp only [formula, found]
  split
  · rename_i records done
    rw [done]
  · rename_i failed
    rw [failed] at h
    cases h

theorem formula_of_error (found : findRecipe tree root name = some path)
    (h : (Resolver.resolve {} tree path []).error = some error) : formula tree root name = ofError error := by
  simp only [formula, found]
  split
  · rename_i done
    rw [done] at h
    cases h
  · rename_i failed
    rw [failed] at h
    rw [Option.some.inj h]

theorem documented_or_escapes_of_install (tree : FileTree) (root : Path) (name : String) :
    Documented tree root name (install tree root name) ∨
      Escapes tree {(recipePath root name).place} (install tree root name) := by
  cases found : findRecipe tree root name with
  | none =>
    refine .inl ?_
    simp only [install, found]
    exact .unknown found
  | some path =>
    obtain ⟨rfl, bytes, there⟩ := findRecipe_eq_some found
    obtain ⟨record, hload⟩ | ⟨error, hload, genuine | blemish⟩ := load_of_readable there
    · rw [install_of_load found hload]
      exact .inl (.answer _)
    · rw [install_of_error found hload]
      exact .inl (documented_of_genuine genuine)
    · exact .inr ⟨_, rfl, bytes, error, read_fileAt there, blemish,
        (install_of_error found hload).trans (ofError_of_blemish blemish)⟩

theorem documented_or_escapes_of_formula (sound : tree.Sound) (root : Path) (name : String) :
    Documented tree root name (formula tree root name) ∨
      Escapes tree (filesOf tree root name) (formula tree root name) := by
  cases found : findRecipe tree root name with
  | none =>
    refine .inl ?_
    simp only [formula, found]
    exact .unknown found
  | some path =>
    obtain ⟨rfl, there⟩ := findRecipe_eq_some found
    cases outcome : (Resolver.resolve {} tree (recipePath root name) []).error with
    | none =>
      rw [formula_of_done found outcome]
      exact .inl (.answer _)
    | some error =>
      obtain genuine | ⟨place, bytes, reachable, file, blemish⟩ :=
        Resolver.defect_or_blemish_of_resolve sound [] there outcome
      · rw [formula_of_error found outcome]
        exact .inl (documented_of_genuine genuine)
      · exact .inr ⟨place, reachable, bytes, error, file, blemish,
          (formula_of_error found outcome).trans (ofError_of_blemish blemish)⟩

/-- Recipes of which one has a number that is none, one has a URL that cannot be read, and one needs the first. -/
def sloppy : FileTree where
  files := [
    (["Formula", "tool.rb"], "class Tool < Formula\n  revision 09\nend\n".toUTF8.toList),
    (["Formula", "site.rb"], "class Site < Formula\n  url 'http://['\nend\n".toUTF8.toList),
    (["Formula", "user.rb"], "class User < Formula\n  depends_on 'tool'\nend\n".toUTF8.toList)]
  directories := [["Formula"]]

/-- What is no defect and keeps the recipe that a path leads to from being loaded. -/
def faultAt (tree : FileTree) (path : Path) : Option (Text.NumberFault ⊕ UrlFault) :=
  match load Version.ofUrl tree path with
  | .error (.number fault) => some (.inl fault)
  | .error (.url fault) => some (.inr fault)
  | _ => none

theorem load_of_numberFault {fault : Text.NumberFault} (h : faultAt tree path = some (.inl fault)) :
    load Version.ofUrl tree path = .error (.number fault) := by
  unfold faultAt at h
  split at h
  · rename_i hload
    rw [hload, Sum.inl.inj (Option.some.inj h)]
  · cases h
  · cases h

theorem load_of_urlFault {fault : UrlFault} (h : faultAt tree path = some (.inr fault)) :
    load Version.ofUrl tree path = .error (.url fault) := by
  unfold faultAt at h
  split at h
  · cases h
  · rename_i hload
    rw [hload, Sum.inr.inj (Option.some.inj h)]
  · cases h

theorem load_sloppy :
    load Version.ofUrl sloppy ⟨"", ["Formula", "tool.rb"]⟩ = .error (.number (.integer 8 "09")) :=
  load_of_numberFault (by decide +kernel)

theorem formula_sloppy : formula sloppy ⟨"", ["Formula"]⟩ "user" = .failure (.number (.integer 8 "09")) := by
  have found : findRecipe sloppy ⟨"", ["Formula"]⟩ "user" = some ⟨"", ["Formula", "user.rb"]⟩ := by decide +kernel
  obtain ⟨user, hload, -, needs⟩ := Resolver.exists_load_of_summaryOf
    (by decide +kernel : Resolver.summaryOf sloppy ⟨"", ["Formula", "user.rb"]⟩ = some ("user", ["tool"]))
  have failed : (Resolver.resolve {} sloppy ⟨"", ["Formula", "user.rb"]⟩ []).error =
      some (.number (.integer 8 "09")) := by
    rw [Resolver.resolve, Resolver.follow_of_load [] (by rfl) (by decide) hload, Resolver.wantedBy, needs]
    exact congrArg Resolution.error (Resolver.follow_of_error [] (by rfl) (by decide) load_sloppy)
  rw [formula_of_error found failed]
  rfl

end Service

end Formulary

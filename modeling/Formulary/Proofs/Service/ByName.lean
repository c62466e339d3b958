import Formulary.Proofs.Closure.Shared
import Formulary.Proofs.Service.Reach

/-!
How the answer to a request for a formula can be followed from record to record. Records stand under the names of their
formulas, but a formula is asked for, and needed, by the name of its file.
-/

namespace Formulary.Service

open FileTree Resolver

variable {tree : FileTree} {root : Path} {name : String} {answer : ClosureAnswer} {place : Place}

/-- The records of a closure, each under the name of its formula, with those of all files that they need. -/
structure Followed (tree : FileTree) (root : Path) (name : String) (formulas : Records) : Prop where
  distinct : formulas.keys.Nodup
  /-- The names are those of the files of the closure. -/
  names (key : String) : key ∈ formulas.keys ↔ ∃ place ∈ filesOf tree root name, nameAt {} tree place = some key
  /-- The requested file has an entry under the name of its formula. -/
  start : ∃ key ∈ formulas.keys, nameAt {} tree (recipePath root name).place = some key
  /-- A record is that of a file, and what it needs leads to files with an entry under the names of their formulas. -/
  onward (key : String) (record : Record) (mem : (key, record) ∈ formulas) : key = record.name ∧
    ∃ place ∈ filesOf tree root name, load Version.ofUrl tree (fileAt place) = .ok record ∧
      ∀ needed ∈ record.dependencies.namesOf .runtime, ∃ key ∈ formulas.keys,
        (dependencyPath {} (fileAt place) needed).place ∈ filesOf tree root name ∧
          nameAt {} tree (dependencyPath {} (fileAt place) needed).place = some key

/-- The files of a closure are named after their formulas, and needed by these names. -/
structure Conventional (tree : FileTree) (root : Path) (name : String) : Prop where
  file : ∀ place ∈ filesOf tree root name, ∀ called, nameAt {} tree place = some called →
    place.getLast? = some (called ++ ".rb")
  whole : ∀ place ∈ filesOf tree root name, ∀ record, load Version.ofUrl tree (fileAt place) = .ok record →
    ∀ needed ∈ record.dependencies.namesOf .runtime, '/' ∉ needed.toList

theorem ofError_ne_answer {α : Type} (error : LoadError) (body : α) : ofError error ≠ .answer body := by
  cases error with
  | recipe failure =>
    unfold ofError
    dsimp only
    split <;> exact nofun
  | number | url | file => exact nofun

theorem resolve_of_answer (h : formula tree root name = .answer answer) :
    isFormulaName name = true ∧ (resolve {} tree (recipePath root name) []).error = none ∧
      answer = ⟨name, (resolve {} tree (recipePath root name) []).records⟩ := by
  cases found : findRecipe tree root name with
  | none =>
    simp only [formula, found, refuseName] at h
    cases h
  | some path =>
    have named := isFormulaName_of_findRecipe found
    obtain ⟨rfl, -⟩ := findRecipe_eq_some found
    cases outcome : (resolve {} tree (recipePath root name) []).error with
    | none => exact ⟨named, rfl, Response.answer.inj (h.symm.trans (formula_of_done found outcome))⟩
    | some error => exact absurd ((formula_of_error found outcome).symm.trans h) (ofError_ne_answer error answer)

theorem plain_of_mem_filesOf (mem : place ∈ filesOf tree root name) : Plain place := by
  obtain rfl | ⟨_, -, edge⟩ := Relation.ReflTransGen.cases_tail mem
  · exact plain_place _
  · unfold DepthFirst.Edge dependenciesAt at edge
    split at edge
    · obtain ⟨needed, -, rfl⟩ := List.mem_map.1 edge
      exact plain_place _
    · cases edge

theorem followed_of_resolve (sound : tree.Sound)
    (fine : (resolve {} tree (recipePath root name) []).error = none) :
    Followed tree root name (resolve {} tree (recipePath root name) []).records := by
  obtain ⟨order, -, reachable, keeps⟩ := resolve_keepsLast sound (recipePath root name) [] fine
  have entered (place : Place) (mem : place ∈ filesOf tree root name) :
      ∃ key ∈ (resolve {} tree (recipePath root name) []).records.keys, nameAt {} tree place = some key := by
    obtain ⟨record, -, -, -, -, hload, -⟩ := keeps.kept place ((reachable place).2 mem)
    have named := nameAt_of_load hload
    exact ⟨record.name, (keeps.names _).2 (.inr ⟨place, (reachable place).2 mem, named⟩), named⟩
  have distinct : (resolve {} tree (recipePath root name) []).records.keys.Nodup := by
    obtain ⟨loaded, error, h⟩ := resolve_eq_putAll {} tree (recipePath root name)
    rw [h]
    exact Entries.nodup_keys_putAll _ .nil
  refine ⟨distinct, fun key => ?names, entered _ .refl, fun key record mem => ?onward⟩
  case names =>
    rw [keeps.names]
    simp [reachable, filesOf, Entries.keys]
  case onward =>
    obtain ⟨place, within, hload, rfl⟩ := exists_place_of_get? sound fine ((Entries.get?_eq_some_iff distinct).2 mem)
    refine ⟨rfl, place, within, hload, fun needed there => ?_⟩
    have edge : DepthFirst.Edge (dependenciesAt {} tree) place (dependencyPath {} (fileAt place) needed).place := by
      simp only [DepthFirst.Edge, dependenciesAt, hload]
      exact List.mem_map_of_mem there
    have within' : (dependencyPath {} (fileAt place) needed).place ∈ filesOf tree root name := within.tail edge
    obtain ⟨key, entry, named⟩ := entered _ within'
    exact ⟨key, entry, within', named⟩

theorem getLast?_recipePath (named : isFormulaName name = true) :
    (recipePath root name).place.getLast? = some (name ++ ".rb") := by
  have file := filename_append_extension (slash_not_mem named)
  simp [recipePath, place_join, file.ofString_eq, Place.enter, file.down]

/-- Where file names agree with the names of formulas, the names in an answer lead from record to record. -/
theorem Followed.by_name {formulas : Records} (h : Followed tree root name formulas)
    (named : isFormulaName name = true) (conventional : Conventional tree root name) :
    name ∈ formulas.keys ∧ ∀ key record, (key, record) ∈ formulas →
      ∀ needed ∈ record.dependencies.namesOf .runtime, needed ∈ formulas.keys := by
  constructor
  · obtain ⟨key, entry, called⟩ := h.start
    have last := conventional.file _ .refl key called
    rw [getLast?_recipePath named, Option.some.injEq] at last
    rwa [String.append_left_inj _ |>.1 last]
  · intro key record mem needed there
    obtain ⟨-, place, within, hload, onward⟩ := h.onward key record mem
    obtain ⟨key, entry, within', called⟩ := onward needed there
    have file := filename_append_extension (conventional.whole place within record hload needed there)
    have last := conventional.file _ within' key called
    rw [place_dependencyPath {} (plain_of_mem_filesOf within) file, List.getLast?_concat, Option.some.injEq] at last
    rwa [String.append_left_inj _ |>.1 last]

/-- An answer can be followed along the files that names lead to. It can be followed by the names alone if the files of
the closure are named after their formulas. -/
theorem formula_followed (sound : tree.Sound) (answered : formula tree root name = .answer answer) :
    answer.root = name ∧ Followed tree root name answer.formulas ∧ (Conventional tree root name →
      answer.root ∈ answer.formulas.keys ∧ ∀ key record, (key, record) ∈ answer.formulas →
        ∀ needed ∈ record.dependencies.namesOf .runtime, needed ∈ answer.formulas.keys) := by
  obtain ⟨named, fine, rfl⟩ := resolve_of_answer answered
  have followed := followed_of_resolve sound fine
  exact ⟨rfl, followed, followed.by_name named⟩

theorem formula_followed_fork : fork.Sound ∧ ∃ answer, formula fork ⟨"", ["core"]⟩ "a" = .answer answer ∧
    answer.root ∈ answer.formulas.keys ∧ Followed fork ⟨"", ["core"]⟩ "a" answer.formulas := by
  have sound : fork.Sound := by decide
  have found : findRecipe fork ⟨"", ["core"]⟩ "a" = some ⟨"", ["core", "a.rb"]⟩ := by decide +kernel
  have fine : (resolve {} fork ⟨"", ["core", "a.rb"]⟩ []).error = none := by
    refine follow_succeeds_of_needs (by rfl) (by decide) (by decide +kernel : _ = some ["c"]) fun _ => ?_
    refine follow_succeeds_of_needs (by rfl) (by decide) (by decide +kernel : _ = some []) fun _ => ?_
    rw [follow.eq_def]
    rfl
  have within (place : Place) (mem : place ∈ filesOf fork ⟨"", ["core"]⟩ "a") : place ∈ fork.files.keys :=
    mem_files_fork (by decide +kernel) mem
  have conventional : Conventional fork ⟨"", ["core"]⟩ "a" := by
    have file : ∀ place ∈ fork.files.keys, ∀ called ∈ nameAt {} fork place,
        place.getLast? = some (called ++ ".rb") := by decide +kernel
    have whole : ∀ place ∈ fork.files.keys, ∀ names ∈ needsOf {} fork (fileAt place), ∀ needed ∈ names,
        '/' ∉ needed.toList := by decide +kernel
    refine ⟨fun place mem => file place (within place mem), fun place mem record hload => ?_⟩
    exact whole place (within place mem) _ (by rw [needsOf, hload]; rfl)
  have answered := formula_of_done found fine
  obtain ⟨-, followed, named⟩ := @formula_followed fork ⟨"", ["core"]⟩ "a" _ sound answered
  exact ⟨sound, _, answered, (named conventional).1, followed⟩

/-- Two recipes whose files are named with hyphens, which the names of their classes do not have. -/
def hyphens : FileTree where
  files := [
    (["Formula", "my-app.rb"], "class MyApp < Formula\n  depends_on 'foo-bar'\nend\n".toUTF8.toList),
    (["Formula", "foo-bar.rb"], "class FooBar < Formula\nend\n".toUTF8.toList)]
  directories := [["Formula"]]

/-- An answer can be without an entry for its root, and for what one of its records needs. -/
theorem exists_name_without_entry : hyphens.Sound ∧ ∃ answer,
    formula hyphens ⟨"", ["Formula"]⟩ "my-app" = .answer answer ∧ answer.root ∉ answer.formulas.keys ∧
      ∃ key record needed, (key, record) ∈ answer.formulas ∧ needed ∈ record.dependencies.namesOf .runtime ∧
        needed ∉ answer.formulas.keys := by
  have found : findRecipe hyphens ⟨"", ["Formula"]⟩ "my-app" = some ⟨"", ["Formula", "my-app.rb"]⟩ := by
    decide +kernel
  obtain ⟨app, happ, appName, needs⟩ := exists_load_of_summaryOf
    (by decide +kernel : summaryOf hyphens ⟨"", ["Formula", "my-app.rb"]⟩ = some ("myapp", ["foo-bar"]))
  obtain ⟨bar, hbar, barName, nothing⟩ := exists_load_of_summaryOf
    (by decide +kernel : summaryOf hyphens ⟨"", ["Formula", "foo-bar.rb"]⟩ = some ("foobar", []))
  have result : resolve {} hyphens ⟨"", ["Formula", "my-app.rb"]⟩ [] =
      { records := [("myapp", app), ("foobar", bar)] } := by
    rw [resolve, follow_of_load [] (by rfl) (by decide) happ, wantedBy, needs]
    refine (follow_of_load _ (by rfl) (by decide) hbar).trans ?_
    rw [wantedBy, nothing, follow.eq_def, appName, barName]
    rfl
  refine ⟨by decide, ⟨"my-app", [("myapp", app), ("foobar", bar)]⟩, ?_, by simp [Entries.keys],
    "myapp", app, "foo-bar", .head _, ?_, by simp [Entries.keys]⟩
  · rw [formula_of_done found (by rw [result]), result]
  · rw [needs]
    exact .head _

end Formulary.Service

import Formulary.Proofs.Service

/-!
Which files a request looks at. The name of a formula leads nowhere but to a file of the directory, but a dependency
may have a name that leads out of it.
-/

namespace Formulary

open FileTree

/-- A path to a recipe that lies in a directory itself, and not further down. -/
def InDirectory (directory path : Path) : Prop :=
  ∃ name : String, '/' ∉ name.toList ∧ path = { directory with segments := directory.segments ++ [name ++ ".rb"] }

section Paths

variable {directory path : Path} {name : String}

theorem filename_append_extension (whole : '/' ∉ name.toList) : Filename (name ++ ".rb") := by
  have last {other : String} (h : name ++ ".rb" = other) : other.toList.getLast? = some 'b' := by
    simp [← h]
  refine ⟨by simpa using whole, fun h => ?_, fun h => ?_, fun h => ?_⟩ <;> simpa using last h

theorem inDirectory_join (whole : '/' ∉ name.toList) : InDirectory directory (directory.join (name ++ ".rb")) := by
  refine ⟨name, whole, ?_⟩
  simp [Path.join, (filename_append_extension whole).ofString_eq]

/-- A dependency whose name is a file name lies where the file lies that needs it. -/
theorem InDirectory.dependencyPath (h : InDirectory directory path) (whole : '/' ∉ name.toList) :
    InDirectory directory (Resolver.dependencyPath {} path name) := by
  obtain ⟨other, -, rfl⟩ := h
  have parent_eq : Path.parent { directory with segments := directory.segments ++ [other ++ ".rb"] } = directory := by
    simp [Path.parent]
  rw [Resolver.dependencyPath, parent_eq]
  exact inDirectory_join whole

end Paths

namespace Resolver

variable (resolver : Resolver) (tree : FileTree)

/-- The paths that a traversal looks at. -/
inductive Asks : List Place → List Wanted → Path → Prop
  | here {visited : List Place} {wanted : Wanted} {rest : List Wanted} : Asks visited (wanted :: rest) wanted.path
  | again {visited : List Place} {wanted : Wanted} {rest : List Wanted} {path : Path} :
      missing? tree wanted = none → wanted.path.place ∈ visited → Asks visited rest path →
      Asks visited (wanted :: rest) path
  | onward {visited : List Place} {wanted : Wanted} {rest : List Wanted} {record : Record} {path : Path} :
      missing? tree wanted = none → wanted.path.place ∉ visited → load resolver.rule tree wanted.path = .ok record →
      Asks (wanted.path.place :: visited) (resolver.wantedBy wanted.path record ++ rest) path →
      Asks visited (wanted :: rest) path

variable {resolver tree} {other : FileTree} {directory path : Path} {visited : List Place} {records : Records}
  {wanted : Wanted} {todo : List Wanted}

/-- What holds of the paths to start with, and goes on from recipes to what they need, holds of all paths. -/
theorem Asks.closed {P : Path → Prop} (h : Asks resolver tree visited todo path)
    (first : ∀ wanted ∈ todo, Asks resolver tree visited todo wanted.path → P wanted.path)
    (onto : ∀ declaring record needed, Asks resolver tree visited todo declaring → P declaring →
      load resolver.rule tree declaring = .ok record → needed ∈ record.dependencies.namesOf .runtime →
      Asks resolver tree visited todo (resolver.dependencyPath declaring needed) →
        P (resolver.dependencyPath declaring needed)) : P path := by
  induction h with
  | here => exact first _ (.head _) .here
  | again there seen _ ih =>
    refine ih (fun wanted mem asked => first wanted (.tail _ mem) (.again there seen asked)) ?_
    intro declaring record needed asked
    exact fun here hload mem after =>
      onto declaring record needed (.again there seen asked) here hload mem (.again there seen after)
  | @onward visited wanted rest record path there new hload _ ih =>
    have here : P wanted.path := first wanted (.head _) .here
    refine ih (fun request mem asked => ?_) ?_
    · have asked := Asks.onward there new hload asked
      obtain mem | mem := List.mem_append.1 mem
      · obtain ⟨needed, named, rfl⟩ := List.mem_map.1 mem
        exact onto wanted.path record needed .here here hload named asked
      · exact first request (.tail _ mem) asked
    · intro declaring record' needed asked
      exact fun here hload' mem after => onto declaring record' needed (.onward there new hload asked) here hload' mem
        (.onward there new hload after)

theorem isFile_congr (same : other.read path = tree.read path) : other.isFile path = tree.isFile path := by
  rw [isFile, isFile, same]

theorem missing?_congr (same : other.read wanted.path = tree.read wanted.path) :
    missing? other wanted = missing? tree wanted := by
  simp only [missing?, isFile_congr same]

theorem load_congr {rule : VersionRule} (same : other.read path = tree.read path) :
    load rule other path = load rule tree path := by
  simp only [load, same]

/-- What a traversal does not look at makes no difference to it. -/
theorem follow_congr (same : ∀ path, Asks resolver tree visited todo path → other.read path = tree.read path) :
    resolver.follow other visited records todo = resolver.follow tree visited records todo := by
  induction visited, records, todo using follow_induction resolver tree with
  | done => rw [follow, follow]
  | missing gone => simp only [follow_cons, missing?_congr (same _ .here), gone]
  | again there seen ih =>
    rw [follow_of_visited _ there seen, follow_of_visited _ ((missing?_congr (same _ .here)).trans there) seen]
    exact ih fun path asked => same path (.again there seen asked)
  | fails there new hload =>
    rw [follow_of_error _ there new hload, follow_of_error _ ((missing?_congr (same _ .here)).trans there) new
      ((load_congr (same _ .here)).trans hload)]
  | onward there new hload ih =>
    rw [follow_of_load _ there new hload, follow_of_load _ ((missing?_congr (same _ .here)).trans there) new
      ((load_congr (same _ .here)).trans hload)]
    exact ih fun path asked => same path (.onward there new hload asked)

end Resolver

namespace Service

open Resolver

variable {tree : FileTree} {root path : Path} {name : String}

/-- The paths that a request for the install method of a formula looks at. -/
def InstallReads (root : Path) (name : String) (path : Path) : Prop :=
  isFormulaName name = true ∧ path = recipePath root name

/-- The paths that a request for a formula with its closure looks at. -/
def FormulaReads (tree : FileTree) (root : Path) (name : String) (path : Path) : Prop :=
  isFormulaName name = true ∧ Asks {} tree [] [⟨recipePath root name, none⟩] path

/-- A recipe of the directory needs a file by a name with a slash that leads out of the directory, and both files are
looked at. -/
structure Strays (tree : FileTree) (root : Path) (name : String) (declaring : Path) (needed : String) : Prop where
  reads : FormulaReads tree root name declaring
  inside : InDirectory root declaring
  needs : ∃ record, load Version.ofUrl tree declaring = .ok record ∧ needed ∈ record.dependencies.namesOf .runtime
  slash : '/' ∈ needed.toList
  follows : FormulaReads tree root name (dependencyPath {} declaring needed)
  outside : ¬ InDirectory root (dependencyPath {} declaring needed)

theorem slash_not_mem (h : isFormulaName name = true) : '/' ∉ name.toList := by
  obtain ⟨⟨-, whole⟩, -⟩ := by simpa [isFormulaName] using h
  exact whole

theorem isFormulaName_of_findRecipe (h : findRecipe tree root name = some path) : isFormulaName name = true := by
  unfold findRecipe at h
  split at h
  · rename_i found
    exact (Bool.and_eq_true_iff.1 found).1
  · cases h

theorem inDirectory_recipePath (h : isFormulaName name = true) : InDirectory root (recipePath root name) :=
  inDirectory_join (slash_not_mem h)

theorem inDirectory_of_formulaReads (stays : ∀ declaring needed, ¬ Strays tree root name declaring needed)
    (h : FormulaReads tree root name path) : InDirectory root path := by
  obtain ⟨named, asked⟩ := h
  refine asked.closed (fun wanted mem _ => ?_) fun declaring record needed asked inside hload mem after => ?_
  · obtain rfl := List.mem_singleton.1 mem
    exact inDirectory_recipePath named
  · by_contra outside
    have slash : '/' ∈ needed.toList := by
      by_contra whole
      exact outside (inside.dependencyPath whole)
    exact stays declaring needed ⟨⟨named, asked⟩, inside, ⟨record, hload, mem⟩, slash, ⟨named, after⟩, outside⟩

theorem findRecipe_congr {other : FileTree}
    (same : isFormulaName name = true → other.read (recipePath root name) = tree.read (recipePath root name)) :
    findRecipe other root name = findRecipe tree root name := by
  unfold findRecipe
  by_cases named : isFormulaName name = true
  · rw [isFile_congr (same named)]
  · simp [named]

theorem install_congr {other : FileTree}
    (same : ∀ path, InstallReads root name path → other.read path = tree.read path) :
    install other root name = install tree root name := by
  have found_eq : findRecipe other root name = findRecipe tree root name :=
    findRecipe_congr fun named => same _ ⟨named, rfl⟩
  unfold install
  rw [found_eq]
  cases found : findRecipe tree root name with
  | none => rfl
  | some path =>
    have named := isFormulaName_of_findRecipe found
    obtain ⟨rfl, -⟩ := findRecipe_eq_some found
    simp only [load_congr (same _ ⟨named, rfl⟩)]

theorem formula_congr {other : FileTree}
    (same : ∀ path, FormulaReads tree root name path → other.read path = tree.read path) :
    formula other root name = formula tree root name := by
  have found_eq : findRecipe other root name = findRecipe tree root name :=
    findRecipe_congr fun named => same _ ⟨named, .here⟩
  unfold formula
  rw [found_eq]
  cases found : findRecipe tree root name with
  | none => rfl
  | some path =>
    have named := isFormulaName_of_findRecipe found
    obtain ⟨rfl, -⟩ := findRecipe_eq_some found
    have result_eq : resolve {} other (recipePath root name) [] = resolve {} tree (recipePath root name) [] :=
      follow_congr fun path asked => same path ⟨named, asked⟩
    simp only [result_eq]

/-- What a request looks at decides its response. All of it are recipes of the directory, unless one of these needs a
file by a name with a slash. -/
theorem reads_within_directory (tree : FileTree) (root : Path) (name : String) :
    (∀ path, InstallReads root name path → InDirectory root path) ∧
    (∀ other : FileTree, (∀ path, InstallReads root name path → other.read path = tree.read path) →
      install other root name = install tree root name) ∧
    ((∃ declaring needed, Strays tree root name declaring needed) ∨
      ∀ path, FormulaReads tree root name path → InDirectory root path) ∧
    ∀ other : FileTree, (∀ path, FormulaReads tree root name path → other.read path = tree.read path) →
      formula other root name = formula tree root name := by
  refine ⟨fun path reads => reads.2 ▸ inDirectory_recipePath reads.1, fun other => install_congr, ?_,
    fun other => formula_congr⟩
  by_cases strays : ∃ declaring needed, Strays tree root name declaring needed
  · exact .inl strays
  · have stays : ∀ declaring needed, ¬ Strays tree root name declaring needed := by simpa using strays
    exact .inr fun path => inDirectory_of_formulaReads stays

/-- A directory with a recipe that needs one from outside. -/
def leaky : FileTree where
  files := [
    (["Formula", "tool.rb"], "class Tool < Formula\n  depends_on \"../secret\"\nend\n".toUTF8.toList),
    (["secret.rb"], "class Secret < Formula\nend\n".toUTF8.toList)]
  directories := [["Formula"]]

/-- A file from outside of the directory is loaded, and its record answered. -/
theorem exists_read_outside :
    FormulaReads leaky ⟨"", ["Formula"]⟩ "tool" ⟨"", ["Formula", "..", "secret.rb"]⟩ ∧
      ¬ InDirectory ⟨"", ["Formula"]⟩ ⟨"", ["Formula", "..", "secret.rb"]⟩ ∧
      ∃ secret body, load Version.ofUrl leaky ⟨"", ["Formula", "..", "secret.rb"]⟩ = .ok secret ∧
        formula leaky ⟨"", ["Formula"]⟩ "tool" = .answer body ∧ ("secret", secret) ∈ body.formulas := by
  have found : findRecipe leaky ⟨"", ["Formula"]⟩ "tool" = some ⟨"", ["Formula", "tool.rb"]⟩ := by decide +kernel
  obtain ⟨tool, htool, toolName, needs⟩ := exists_load_of_summaryOf
    (by decide +kernel : summaryOf leaky ⟨"", ["Formula", "tool.rb"]⟩ = some ("tool", ["../secret"]))
  obtain ⟨secret, hsecret, secretName, nothing⟩ := exists_load_of_summaryOf
    (by decide +kernel : summaryOf leaky ⟨"", ["Formula", "..", "secret.rb"]⟩ = some ("secret", []))
  have result : resolve {} leaky ⟨"", ["Formula", "tool.rb"]⟩ [] =
      { records := [("tool", tool), ("secret", secret)] } := by
    rw [resolve, follow_of_load [] (by rfl) (by decide) htool, wantedBy, needs]
    refine (follow_of_load _ (by rfl) (by decide) hsecret).trans ?_
    rw [wantedBy, nothing, follow.eq_def, toolName, secretName]
    rfl
  refine ⟨⟨by decide, ?_⟩, ?_, secret, ⟨"tool", [("tool", tool), ("secret", secret)]⟩, hsecret, ?_, ?_⟩
  · refine Asks.onward (by rfl) (by decide) htool ?_
    rw [wantedBy, needs]
    exact .here
  · rintro ⟨other, -, same⟩
    simpa using congrArg (fun path => path.segments.length) same
  · rw [formula_of_done found (by rw [result]), result]
  · simp

end Service

end Formulary

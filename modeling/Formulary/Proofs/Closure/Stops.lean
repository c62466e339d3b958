import Formulary.Proofs.Closure.Encounter
import Formulary.Proofs.Closure.Names

/-!
Where a resolution that fails comes to a stop. It meets requests for files one after another, and fails at the first
whose file is missing or has no record; what it loaded before is the beginning of the depth-first preorder.
-/

namespace Formulary.Resolver

open DepthFirst FileTree Result

variable (resolver : Resolver) (tree : FileTree)

/-- The requests that follow a request whose recipe can be loaded: those for its dependencies. -/
def needsAt (wanted : Wanted) : List Wanted :=
  match load resolver.rule tree wanted.path with
  | .ok record => resolver.wantedBy wanted.path record
  | .error _ => []

/-- The file of a request is there, and it has a record. -/
structure Served (wanted : Wanted) : Prop where
  there : missing? tree wanted = none
  loads : ∃ record, load resolver.rule tree (fileAt wanted.path.place) = .ok record

/-- A request for a runtime dependency of a file that is among those that are loaded. -/
structure Declared (loaded : List Place) (name : String) (declaring path : Path) : Prop where
  file : declaring.place ∈ loaded
  path_eq : path = resolver.dependencyPath declaring name
  needed : ∃ record, load resolver.rule tree declaring = .ok record ∧ name ∈ record.dependencies.namesOf .runtime

/-- Why a request fails: its file is new and has no record, or it is a dependency whose file is missing. -/
inductive Fails (loaded : List Place) : Wanted → LoadError → Prop
  | load {wanted : Wanted} {error : LoadError} : missing? tree wanted = none → wanted.path.place ∉ loaded →
      load resolver.rule tree wanted.path = .error error → Fails loaded wanted error
  | missing {name : String} {declaring path : Path} : tree.isFile path = false →
      Fails loaded ⟨path, some (name, declaring)⟩
        (.ofDefect declaring.display (.missingDependency name path.display))

/-- What is done of a traversal, from `visited` over `todo`, that stops at a request: however it went on, `order` and
`met` would come first. -/
structure Halts (visited : List Place) (todo : List Wanted) (error : LoadError) (order : List Place)
    (met : List Wanted) (stop : Wanted) (rest : List Wanted) : Prop where
  goesOn (after : List Place) :
    Preorder (resolver.dependenciesAt tree) ({place | place ∈ visited} ∪ {place | place ∈ order})
      ((stop :: rest).map (·.path.place)) after →
    Preorder (resolver.dependenciesAt tree) {place | place ∈ visited} (todo.map (·.path.place)) (order ++ after)
  meets (more : List Wanted) :
    Encounters (·.path.place) (resolver.needsAt tree) ({place | place ∈ visited} ∪ {place | place ∈ order})
      (stop :: rest) more →
    Encounters (·.path.place) (resolver.needsAt tree) {place | place ∈ visited} todo (met ++ more)
  served : ∀ wanted ∈ met, Served resolver tree wanted
  known : ∀ wanted ∈ met, wanted.path.place ∈ visited ++ order
  asked : ∀ place ∈ order, ∃ wanted ∈ met, wanted.path.place = place
  declared : ∀ name declaring, stop.dependency = some (name, declaring) →
    Declared resolver tree (visited ++ order) name declaring stop.path
  fails : Fails resolver tree (visited ++ order) stop error

variable {resolver tree} {visited order : List Place} {todo rest met : List Wanted} {wanted stop : Wanted}
  {error : LoadError} {record : Record} {records : Records} {root : Path}

theorem needsAt_of_load (h : load resolver.rule tree wanted.path = .ok record) :
    resolver.needsAt tree wanted = resolver.wantedBy wanted.path record := by
  rw [needsAt, h]

theorem exists_missing (h : missing? tree wanted = some error) : ∃ name declaring,
    wanted = ⟨wanted.path, some (name, declaring)⟩ ∧ tree.isFile wanted.path = false ∧
      error = .ofDefect declaring.display (.missingDependency name wanted.path.display) := by
  obtain ⟨path, dependency⟩ := wanted
  cases dependency with
  | none => cases h
  | some dependency =>
    obtain ⟨name, declaring⟩ := dependency
    simp only [missing?] at h
    split at h
    · cases h
    · rename_i gone
      exact ⟨name, declaring, rfl, by simpa using gone, (Option.some.inj h).symm⟩

theorem Declared.weaken {more : List Place} {name : String} {declaring path : Path} (le : visited ⊆ more)
    (h : Declared resolver tree visited name declaring path) : Declared resolver tree more name declaring path :=
  { h with file := le h.file }

theorem declared_of_wantedBy (hload : load resolver.rule tree wanted.path = .ok record)
    (mem : wanted.path.place ∈ visited) :
    ∀ request ∈ resolver.wantedBy wanted.path record, ∀ name declaring, request.dependency = some (name, declaring) →
      Declared resolver tree visited name declaring request.path := by
  intro request asked name declaring dependency
  obtain ⟨needed, there, rfl⟩ := List.mem_map.1 asked
  obtain ⟨rfl, rfl⟩ := Prod.mk.inj (Option.some.inj dependency)
  exact ⟨mem, rfl, record, hload, there⟩

theorem Halts.here (declared : ∀ name declaring, stop.dependency = some (name, declaring) →
    Declared resolver tree visited name declaring stop.path) (fails : Fails resolver tree visited stop error) :
    Halts resolver tree visited (stop :: rest) error [] [] stop rest where
  goesOn after h := by simpa using h
  meets more h := by simpa using h
  served := nofun
  known := nofun
  asked := nofun
  declared := by rwa [List.append_nil]
  fails := by rwa [List.append_nil]

theorem Halts.again (served : Served resolver tree wanted) (seen : wanted.path.place ∈ visited)
    (h : Halts resolver tree visited todo error order met stop rest) :
    Halts resolver tree visited (wanted :: todo) error order (wanted :: met) stop rest where
  goesOn after run := .skip seen (h.goesOn after run)
  meets more run := .again seen (h.meets more run)
  served := List.forall_mem_cons.2 ⟨served, h.served⟩
  known := List.forall_mem_cons.2 ⟨List.mem_append_left _ seen, h.known⟩
  asked place mem := (h.asked place mem).imp fun _ found => ⟨.tail _ found.1, found.2⟩
  declared := h.declared
  fails := h.fails

theorem Fails.congr {more : List Place} (same : ∀ place, place ∈ visited ↔ place ∈ more)
    (h : Fails resolver tree visited stop error) : Fails resolver tree more stop error := by
  cases h with
  | load there new hload => exact .load there (mt (same _).2 new) hload
  | missing gone => exact .missing gone

theorem Halts.visit (sound : tree.Sound) (there : missing? tree wanted = none) (new : wanted.path.place ∉ visited)
    (hload : load resolver.rule tree wanted.path = .ok record)
    (h : Halts resolver tree (wanted.path.place :: visited) (resolver.wantedBy wanted.path record ++ todo) error order
      met stop rest) :
    Halts resolver tree visited (wanted :: todo) error (wanted.path.place :: order) (wanted :: met) stop rest := by
  have insert_eq :
      {place | place ∈ wanted.path.place :: visited} = insert wanted.path.place {place | place ∈ visited} :=
    Set.ext fun _ => List.mem_cons
  have shift (place : Place) : place ∈ wanted.path.place :: visited ++ order ↔
      place ∈ visited ++ wanted.path.place :: order := by
    simp [or_left_comm]
  refine ⟨fun after run => ?goesOn, fun more run => ?meets, ?served, ?known, ?asked, ?declared,
    h.fails.congr shift⟩
  case goesOn =>
    have below := h.goesOn after (by rwa [insert_eq, union_cons])
    rw [insert_eq, List.map_append, place_wantedBy resolver sound hload] at below
    exact .of_worklist new below
  case meets =>
    have below := h.meets more (by rwa [insert_eq, union_cons])
    rw [insert_eq, ← needsAt_of_load hload] at below
    exact .of_worklist new below
  case served => exact List.forall_mem_cons.2 ⟨⟨there, record, load_fileAt hload⟩, h.served⟩
  case known =>
    exact List.forall_mem_cons.2 ⟨by simp, fun request mem => (shift _).1 (h.known request mem)⟩
  case asked =>
    refine List.forall_mem_cons.2 ⟨⟨wanted, .head _, rfl⟩, fun place mem => ?_⟩
    exact (h.asked place mem).imp fun _ found => ⟨.tail _ found.1, found.2⟩
  case declared =>
    exact fun name declaring dependency => (h.declared name declaring dependency).weaken fun place => (shift place).1

theorem halts_of_error {defect : LoadError} (there : missing? tree wanted = none) (new : wanted.path.place ∉ visited)
    (hload : load resolver.rule tree wanted.path = .error defect)
    (declared : ∀ name declaring, wanted.dependency = some (name, declaring) →
      Declared resolver tree visited name declaring wanted.path)
    (failed : (resolver.follow tree visited records (wanted :: todo)).error = some error) :
    ∃ order loaded met stop rest,
      Traversal resolver tree visited records ((wanted :: todo).map (·.path.place))
        (resolver.follow tree visited records (wanted :: todo)) order loaded ∧
      Halts resolver tree visited (wanted :: todo) error order met stop rest := by
  rw [follow_of_error todo there new hload] at failed ⊢
  obtain rfl := Option.some.inj failed
  exact ⟨[], [], [], wanted, todo, .stopped rfl (Option.some_ne_none _), .here declared (.load there new hload)⟩

/-- A traversal that fails halts at one of its requests. -/
theorem follow_halts (sound : tree.Sound) (visited : List Place) (records : Records) (todo : List Wanted)
    (loads : ∀ place ∈ visited, ∃ record, load resolver.rule tree (fileAt place) = .ok record)
    (declared : ∀ wanted ∈ todo, ∀ name declaring, wanted.dependency = some (name, declaring) →
      Declared resolver tree visited name declaring wanted.path)
    (failed : (resolver.follow tree visited records todo).error = some error) :
    ∃ order loaded met stop rest,
      Traversal resolver tree visited records (todo.map (·.path.place)) (resolver.follow tree visited records todo)
        order loaded ∧ Halts resolver tree visited todo error order met stop rest := by
  induction visited, records, todo using follow_induction resolver tree with
  | done =>
    rw [follow] at failed
    cases failed
  | @missing _ _ wanted rest _ gone =>
    simp only [follow_cons, gone] at failed ⊢
    obtain rfl := Option.some.inj failed
    obtain ⟨name, declaring, split, absent, rfl⟩ := exists_missing gone
    refine ⟨[], [], [], wanted, rest, .stopped rfl (Option.some_ne_none _), .here (declared wanted (.head _)) ?_⟩
    rw [split]
    exact .missing absent
  | again there seen ih =>
    rw [follow_of_visited _ there seen] at failed ⊢
    obtain ⟨order, loaded, met, stop, todo, traversal, h⟩ := ih loads (List.forall_mem_cons.1 declared).2 failed
    exact ⟨order, loaded, _, stop, todo, traversal.skip seen, h.again ⟨there, loads _ seen⟩ seen⟩
  | fails there new hload => exact halts_of_error there new hload (declared _ (.head _)) failed
  | @onward visited _ wanted rest record there new hload ih =>
    rw [follow_of_load _ there new hload] at failed ⊢
    have loads' := List.forall_mem_cons.2 ⟨⟨record, load_fileAt hload⟩, loads⟩
    have declared' := List.forall_mem_append.2 ⟨declared_of_wantedBy hload (.head visited),
      fun request asked name declaring dependency => (declared request (.tail _ asked) name declaring dependency).weaken
        (List.subset_cons_self wanted.path.place visited)⟩
    obtain ⟨order, loaded, met, stop, todo, traversal, h⟩ := ih loads' declared' failed
    rw [List.map_append, place_wantedBy resolver sound hload] at traversal
    exact ⟨_, _, _, stop, todo,
      traversal.visit new (plain_place wanted.path) (mem_keys_of_load hload) (load_fileAt hload),
      h.visit sound there new hload⟩

/-! The traversal as it would be if it did not stop -/

variable (resolver tree) in
theorem exists_preorder (visited : Set Place) (todo : List Place) (plain : ∀ place ∈ todo, Plain place) :
    ∃ order, Preorder (resolver.dependenciesAt tree) visited todo order := by
  have closed (place : Place) (_ : Plain place) : ∀ next ∈ resolver.dependenciesAt tree place, Plain next := by
    intro next mem
    unfold dependenciesAt at mem
    split at mem
    · obtain ⟨name, -, rfl⟩ := List.mem_map.1 mem
      exact plain_place _
    · cases mem
  have bounded (place : Place) (plain : Plain place) (unknown : place ∉ tree.files.keys) :
      resolver.dependenciesAt tree place = [] := by
    unfold dependenciesAt
    split
    · rename_i record hload
      have known := mem_keys_of_load hload
      rw [plain.place_fileAt] at known
      exact absurd known unknown
    · rfl
  obtain ⟨met, h⟩ := Encounters.exists_of_finite closed bounded visited todo plain
  obtain ⟨order, traversal, -⟩ := h.exists_preorder
  exact ⟨order, traversal⟩

variable (resolver tree) in
theorem exists_encounters (visited : Set Place) (todo : List Wanted) :
    ∃ met, Encounters (·.path.place) (resolver.needsAt tree) visited todo met := by
  have bounded (wanted : Wanted) (_ : True) (unknown : wanted.path.place ∉ tree.files.keys) :
      resolver.needsAt tree wanted = [] := by
    unfold needsAt
    split
    · rename_i record hload
      exact absurd (mem_keys_of_load hload) unknown
    · rfl
  exact Encounters.exists_of_finite (fun _ _ _ _ => trivial) bounded visited todo fun _ _ => trivial

/-- What a resolution that fails has done: `order` are the files that it loaded, and `met` the requests that it served
before it came to the one where it stops. -/
structure Stops (resolver : Resolver) (tree : FileTree) (root : Path) (before : Records) (result : Resolution)
    (error : LoadError) (order : List Place) (met : List Wanted) (stop : Wanted) : Prop where
  /-- What is loaded is the beginning of the depth-first preorder. A file that is not loaded comes next in it. -/
  preorder : ∃ after, Preorder (resolver.dependenciesAt tree) ∅ [root.place] (order ++ after) ∧
    (∀ other, Preorder (resolver.dependenciesAt tree) ∅ [root.place] other → other = order ++ after) ∧
    (stop.path.place ∉ order → after.head? = some stop.path.place)
  records : ∃ loaded,
    List.Forall₂ (fun place record => load resolver.rule tree (fileAt place) = .ok record) order loaded ∧
      result.records = before.putAll (loaded.map fun record => (record.name, record))
  kept : KeepsLast resolver tree order before result.records
  /-- The request that fails is the first of the traversal to do so. -/
  requests : ∃ rest, Encounters (·.path.place) (resolver.needsAt tree) ∅ [⟨root, none⟩] (met ++ stop :: rest) ∧
    ∀ other, Encounters (·.path.place) (resolver.needsAt tree) ∅ [⟨root, none⟩] other → other = met ++ stop :: rest
  served : ∀ wanted ∈ met, Served resolver tree wanted
  loaded (place : Place) : place ∈ order ↔ ∃ wanted ∈ met, wanted.path.place = place
  fails : Fails resolver tree order stop error
  /-- The formula that declares the dependency that is asked for is among the records. -/
  declared (name : String) (declaring : Path) (dependency : stop.dependency = some (name, declaring)) :
    stop.path = resolver.dependencyPath declaring name ∧ declaring.place ∈ order ∧ ∃ record,
      load resolver.rule tree declaring = .ok record ∧ name ∈ record.dependencies.namesOf .runtime ∧
        record.name ∈ result.records.keys

theorem Halts.stops {result : Resolution} {loaded : List Record}
    (traversal : Traversal resolver tree [] records [root.place] result order loaded)
    (h : Halts resolver tree [] [⟨root, none⟩] error order met stop rest) :
    Stops resolver tree root records result error order met stop := by
  obtain ⟨after, hafter⟩ := exists_preorder resolver tree ({place | place ∈ []} ∪ {place | place ∈ order})
    ((stop :: rest).map (·.path.place)) (List.forall_mem_map.2 fun wanted _ => plain_place wanted.path)
  obtain ⟨more, hmore⟩ := exists_encounters resolver tree ({place | place ∈ []} ∪ {place | place ∈ order})
    (stop :: rest)
  have kept : KeepsLast resolver tree order records result.records := by
    rw [traversal.records]
    exact keepsLast_putAll traversal.loads
  refine ⟨⟨after, ?preorder, ?unique, ?next⟩, ⟨loaded, traversal.loads, traversal.records⟩, kept, ?requests, h.served,
    ?loaded, h.fails, ?declared⟩
  case preorder => simpa using h.goesOn after hafter
  case unique => exact fun other run => Preorder.unique (by simpa using h.goesOn after hafter) run
  case next =>
    intro new
    cases hafter with
    | skip seen => exact absurd seen (by simpa using new)
    | visit => rfl
  case requests =>
    obtain ⟨beyond, rfl⟩ : ∃ beyond, more = stop :: beyond := by cases hmore <;> exact ⟨_, rfl⟩
    have run : Encounters (·.path.place) (resolver.needsAt tree) ∅ [⟨root, none⟩] (met ++ stop :: beyond) := by
      simpa using h.meets _ hmore
    exact ⟨beyond, run, fun other => run.unique⟩
  case loaded =>
    intro place
    constructor
    · exact h.asked place
    · rintro ⟨wanted, mem, rfl⟩
      exact h.known wanted mem
  case declared =>
    intro name declaring dependency
    obtain ⟨file, path_eq, record, hload, needed⟩ := h.declared name declaring dependency
    exact ⟨path_eq, file, record, hload, needed,
      (kept.names record.name).2 (.inr ⟨declaring.place, file, nameAt_of_load (load_fileAt hload)⟩)⟩

/-- Resolving that fails leaves the records of what it loaded before, and no others. -/
theorem resolve_stops (sound : tree.Sound) (root : Path) (records : Records)
    (failed : (resolver.resolve tree root records).error = some error) :
    ∃ order met stop, Stops resolver tree root records (resolver.resolve tree root records) error order met stop := by
  obtain ⟨order, loaded, met, stop, rest, traversal, h⟩ :=
    follow_halts sound [] records [⟨root, none⟩] nofun (by simp) failed
  exact ⟨order, met, stop, h.stops traversal⟩

/-- Two recipes that need each other, of which the first also needs one that is not there. -/
def gap : FileTree where
  files := [
    (["core", "a.rb"], "class A < Formula\n  depends_on 'b'\n  depends_on 'ghost'\nend\n".toUTF8.toList),
    (["core", "b.rb"], "class B < Formula\n  depends_on 'a'\nend\n".toUTF8.toList)]
  directories := [["core"]]

theorem resolve_stops_gap :
    let error : LoadError := .ofDefect "core/a.rb" (.missingDependency "ghost" "core/ghost.rb")
    gap.Sound ∧ (resolve {} gap ⟨"", ["core", "a.rb"]⟩ []).error = some error ∧ ∃ order met stop,
      Stops {} gap ⟨"", ["core", "a.rb"]⟩ [] (resolve {} gap ⟨"", ["core", "a.rb"]⟩ []) error order met stop := by
  intro error
  have sound : gap.Sound := by decide
  obtain ⟨first, hfirst, -, firstNeeds⟩ := exists_load_of_summaryOf
    (by decide +kernel : summaryOf gap ⟨"", ["core", "a.rb"]⟩ = some ("a", ["b", "ghost"]))
  obtain ⟨second, hsecond, -, secondNeeds⟩ := exists_load_of_summaryOf
    (by decide +kernel : summaryOf gap ⟨"", ["core", "b.rb"]⟩ = some ("b", ["a"]))
  have failed : (resolve {} gap ⟨"", ["core", "a.rb"]⟩ []).error = some error := by
    rw [resolve, follow_of_load [] (by rfl) (by decide) hfirst, wantedBy, firstNeeds]
    refine (congrArg Resolution.error (follow_of_load _ (by rfl) (by decide) hsecond)).trans ?_
    rw [wantedBy, secondNeeds]
    refine (congrArg Resolution.error (follow_of_visited _ (by rfl) (by decide))).trans ?_
    exact (congrArg Resolution.error (follow_cons _ _ _ _)).trans (by rfl)
  exact ⟨sound, failed, @resolve_stops {} gap error sound ⟨"", ["core", "a.rb"]⟩ [] failed⟩

end Formulary.Resolver

import Formulary.Closure
import Formulary.Proofs.Closure.Preorder
import Formulary.Proofs.FileTree

/-! Resolving a recipe loads the files that can be reached from it, in depth-first preorder. -/

namespace Formulary.Resolver

open DepthFirst FileTree Result

section Loading

variable {rule : VersionRule} {tree : FileTree} {path : Path} {record : Record}

theorem recordOfText_path {name : Option String} {text : List Char} (other : Option String)
    (h : recordOfText rule name text = .ok record) : recordOfText rule other text = .ok record := by
  unfold recordOfText at h ⊢
  simp only [bind_eq_ok_iff, mapError_eq_ok_iff] at h ⊢
  obtain ⟨program, hprogram, h⟩ := h
  refine ⟨program, hprogram, ?_⟩
  cases hclass : Recipe.findFormulaClass program with
  | none => simp [hclass] at h
  | some formula =>
    simpa only [hclass, bind_eq_ok_iff, mapError_eq_ok_iff] using h

theorem recordOfBytes_path {name : Option String} {bytes : List UInt8} (other : Option String)
    (h : recordOfBytes rule name bytes = .ok record) : recordOfBytes rule other bytes = .ok record := by
  obtain ⟨text, htext, hrecord⟩ := bind_eq_ok_iff.1 h
  exact bind_eq_ok_iff.2 ⟨text, mapError_eq_ok_iff.2 (mapError_eq_ok_iff.1 htext), recordOfText_path other hrecord⟩

theorem load_of_fault {fault : FileFault} (h : tree.read path = .error fault) :
    load rule tree path = .error (.file fault) := by
  rw [load, h]
  rfl

theorem load_of_read {bytes : List UInt8} (h : tree.read path = .ok bytes) :
    load rule tree path = recordOfBytes rule (some path.display) bytes := by
  rw [load, h]
  rfl

theorem load_eq_ok_iff : load rule tree path = .ok record ↔
    ∃ bytes, tree.read path = .ok bytes ∧ recordOfBytes rule (some path.display) bytes = .ok record := by
  simp only [load, bind_eq_ok_iff, mapError_eq_ok_iff]

theorem mem_keys_of_load (h : load rule tree path = .ok record) : path.place ∈ tree.files.keys := by
  obtain ⟨bytes, hread, -⟩ := load_eq_ok_iff.1 h
  obtain ⟨file, mem, stands⟩ := exists_mem_of_read hread
  exact List.mem_map.2 ⟨file, mem, stands⟩

/-- A record does not depend on how the path to its file is written. -/
theorem load_fileAt (h : load rule tree path = .ok record) : load rule tree (fileAt path.place) = .ok record := by
  obtain ⟨bytes, hread, hrecord⟩ := load_eq_ok_iff.1 h
  exact load_eq_ok_iff.2 ⟨bytes, read_fileAt hread, recordOfBytes_path _ hrecord⟩

end Loading

variable (resolver : Resolver) (tree : FileTree)

/-- The places of the runtime dependencies of the recipe at a place, in the order of their declaration. -/
def dependenciesAt (place : Place) : List Place :=
  match load resolver.rule tree (fileAt place) with
  | .ok record =>
    (record.dependencies.namesOf .runtime).map fun name => (resolver.dependencyPath (fileAt place) name).place
  | .error _ => []

theorem place_join (path : Path) (text : String) :
    (path.join text).place = if (Path.ofString text).root = "" then
      (Path.ofString text).segments.foldl Place.enter path.place else (Path.ofString text).place := by
  unfold Path.join
  by_cases here : (Path.ofString text).root = "" <;> simp [here, Path.place]

/-- A dependency lies in the directory of the file that needs it. -/
theorem place_dependencyPath {place : Place} {name : String} (plain : Plain place)
    (file : Filename (name ++ resolver.extension)) :
    (resolver.dependencyPath (fileAt place) name).place = place.dropLast ++ [name ++ resolver.extension] := by
  have above : Plain place.dropLast := plain.of_prefix (List.dropLast_prefix place)
  have parent_eq : (fileAt place).parent.place = place.dropLast := above.place_fileAt
  rw [dependencyPath, place_join, file.ofString_eq, parent_eq]
  simp [Place.enter, file.down]

variable {tree} in
theorem dependenciesAt_of_load {place : Place} {record : Record} (plain : Plain place)
    (hload : load resolver.rule tree (fileAt place) = .ok record)
    (files : ∀ name ∈ record.dependencies.namesOf .runtime, Filename (name ++ resolver.extension)) :
    resolver.dependenciesAt tree place =
      (record.dependencies.namesOf .runtime).map fun name => place.dropLast ++ [name ++ resolver.extension] := by
  simp only [dependenciesAt, hload]
  exact List.map_congr_left fun name mem => resolver.place_dependencyPath plain (files name mem)

variable {tree} in
/-- What a recipe needs lies next to its file, whatever path the file was found along. -/
theorem place_wantedBy (sound : tree.Sound) {path : Path} {record : Record}
    (h : load resolver.rule tree path = .ok record) :
    (resolver.wantedBy path record).map (·.path.place) = resolver.dependenciesAt tree path.place := by
  obtain ⟨bytes, hread, -⟩ := load_eq_ok_iff.1 h
  obtain ⟨last, hlast⟩ := sound.read_last hread
  have plain := plain_place path
  have parent_eq : (fileAt path.place).parent.place = path.parent.place := by
    have above : Plain path.parent.place := plain_place path.parent
    have step : (fileAt path.place).parent = fileAt path.parent.place := by
      simp [fileAt, Path.parent, hlast]
    rw [step, above.place_fileAt]
  simp only [dependenciesAt, load_fileAt h, wantedBy, List.map_map]
  refine List.map_congr_left fun name _ => ?_
  simp only [Function.comp_apply, dependencyPath, place_join, parent_eq]

/-- What a traversal from `visited` over `wanted` did: the files that it loaded, in their order, and what became of
the records. -/
structure Traversal (visited : List Place) (records : Records) (wanted : List Place) (result : Resolution)
    (order : List Place) (loaded : List Record) : Prop where
  fresh : ∀ place ∈ order, place ∉ visited
  nodup : order.Nodup
  plain : ∀ place ∈ order, Plain place
  there : order ⊆ tree.files.keys
  loads : List.Forall₂ (fun place record => load resolver.rule tree (fileAt place) = .ok record) order loaded
  records : result.records = records.putAll (loaded.map fun record => (record.name, record))
  preorder : result.error = none →
    Preorder (resolver.dependenciesAt tree) {place | place ∈ visited} wanted order

variable {resolver tree} {visited wanted order : List Place} {records : Records} {result : Resolution}
  {loaded : List Record} {place : Place} {record : Record}

theorem Traversal.stopped (kept : result.records = records) (failed : result.error ≠ none) :
    Traversal resolver tree visited records wanted result [] [] :=
  ⟨by simp, .nil, by simp, by simp, .nil, kept, fun fine => absurd fine failed⟩

theorem Traversal.skip (seen : place ∈ visited)
    (h : Traversal resolver tree visited records wanted result order loaded) :
    Traversal resolver tree visited records (place :: wanted) result order loaded :=
  { h with preorder := fun fine => .skip seen (h.preorder fine) }

theorem Traversal.visit (new : place ∉ visited) (plain : Plain place) (file : place ∈ tree.files.keys)
    (hload : load resolver.rule tree (fileAt place) = .ok record)
    (h : Traversal resolver tree (place :: visited) (records.put record.name record)
      (resolver.dependenciesAt tree place ++ wanted) result order loaded) :
    Traversal resolver tree visited records (place :: wanted) result (place :: order) (record :: loaded) where
  fresh := by
    intro other mem
    obtain rfl | mem := List.mem_cons.1 mem
    · exact new
    · exact fun seen => h.fresh other mem (.tail _ seen)
  nodup := List.nodup_cons.2 ⟨fun mem => h.fresh place mem (.head _), h.nodup⟩
  plain := List.forall_mem_cons.2 ⟨plain, h.plain⟩
  there := List.cons_subset.2 ⟨file, h.there⟩
  loads := .cons hload h.loads
  records := h.records
  preorder := fun fine => .of_worklist new (by simpa [Set.insert_def] using h.preorder fine)

theorem follow_cons (visited : List Place) (records : Records) (wanted : Wanted) (rest : List Wanted) :
    resolver.follow tree visited records (wanted :: rest) =
      match missing? tree wanted with
      | some error => { records, error }
      | none =>
        if wanted.path.place ∈ visited then resolver.follow tree visited records rest
        else match load resolver.rule tree wanted.path with
          | .error error => { records, error }
          | .ok record =>
            resolver.follow tree (wanted.path.place :: visited) (records.put record.name record)
              (resolver.wantedBy wanted.path record ++ rest) := by
  rw [follow]
  cases missing? tree wanted with
  | some error => rfl
  | none =>
    by_cases seen : wanted.path.place ∈ visited
    · simp [seen]
    · simp only [List.contains_eq_mem, seen, decide_false, Bool.false_eq_true, dite_false, if_false]
      split
      · rename_i fault hread
        rw [load_of_fault hread]
      · rename_i bytes hread
        cases hrecord : recordOfBytes resolver.rule (some wanted.path.display) bytes <;>
          simp only [load_of_read hread, hrecord]

theorem follow_of_visited {wanted : Wanted} (rest : List Wanted) (there : missing? tree wanted = none)
    (seen : wanted.path.place ∈ visited) :
    resolver.follow tree visited records (wanted :: rest) = resolver.follow tree visited records rest := by
  simp only [follow_cons, there, if_pos seen]

theorem follow_of_load {wanted : Wanted} (rest : List Wanted) (there : missing? tree wanted = none)
    (new : wanted.path.place ∉ visited) (hload : load resolver.rule tree wanted.path = .ok record) :
    resolver.follow tree visited records (wanted :: rest) =
      resolver.follow tree (wanted.path.place :: visited) (records.put record.name record)
        (resolver.wantedBy wanted.path record ++ rest) := by
  simp only [follow_cons, there, if_neg new, hload]

theorem follow_of_error {wanted : Wanted} {error : LoadError} (rest : List Wanted)
    (there : missing? tree wanted = none) (new : wanted.path.place ∉ visited)
    (hload : load resolver.rule tree wanted.path = .error error) :
    resolver.follow tree visited records (wanted :: rest) = { records, error } := by
  simp only [follow_cons, there, if_neg new, hload]

variable (resolver tree) in
/-- What holds of a traversal because it holds of what is wanted next. -/
theorem follow_induction {motive : List Place → Records → List Wanted → Prop}
    (done : ∀ {visited records}, motive visited records [])
    (missing : ∀ {visited records wanted rest error}, missing? tree wanted = some error →
      motive visited records (wanted :: rest))
    (again : ∀ {visited records wanted rest}, missing? tree wanted = none → wanted.path.place ∈ visited →
      motive visited records rest → motive visited records (wanted :: rest))
    (fails : ∀ {visited records wanted rest error}, missing? tree wanted = none → wanted.path.place ∉ visited →
      load resolver.rule tree wanted.path = .error error → motive visited records (wanted :: rest))
    (onward : ∀ {visited records wanted rest record}, missing? tree wanted = none → wanted.path.place ∉ visited →
      load resolver.rule tree wanted.path = .ok record →
      motive (wanted.path.place :: visited) (records.put record.name record)
        (resolver.wantedBy wanted.path record ++ rest) → motive visited records (wanted :: rest))
    (visited : List Place) (records : Records) (todo : List Wanted) : motive visited records todo := by
  induction visited, records, todo using follow.induct resolver tree with
  | case1 => exact done
  | case2 visited records wanted rest error gone => exact missing gone
  | case3 visited records wanted rest there seen ih => exact again there (by simpa using seen) ih
  | case4 visited records wanted rest there new fault hread =>
    exact fails there (by simpa using new) (load_of_fault hread)
  | case5 visited records wanted rest there new bytes hread error hrecord =>
    exact fails there (by simpa using new) ((load_of_read hread).trans hrecord)
  | case6 visited records wanted rest there new bytes hread record hrecord _ ih =>
    exact onward there (by simpa using new) ((load_of_read hread).trans hrecord) ih

variable (resolver) in
theorem follow_traverses (sound : tree.Sound) (visited : List Place) (records : Records) (wanted : List Wanted) :
    ∃ order loaded, Traversal resolver tree visited records (wanted.map (·.path.place))
      (resolver.follow tree visited records wanted) order loaded := by
  induction visited, records, wanted using follow_induction resolver tree with
  | done =>
    rw [follow]
    exact ⟨[], [], by simp, .nil, by simp, by simp, .nil, rfl, fun _ => .done⟩
  | missing gone =>
    rw [follow_cons, gone]
    exact ⟨[], [], .stopped rfl (by simp)⟩
  | again there seen ih =>
    rw [follow_of_visited _ there seen]
    obtain ⟨order, loaded, h⟩ := ih
    exact ⟨order, loaded, h.skip seen⟩
  | fails there new hload =>
    rw [follow_of_error _ there new hload]
    exact ⟨[], [], .stopped rfl (by simp)⟩
  | onward there new hload ih =>
    rw [follow_of_load _ there new hload]
    obtain ⟨order, loaded, h⟩ := ih
    rw [List.map_append, place_wantedBy resolver sound hload] at h
    exact ⟨_, _, h.visit new (plain_place _) (mem_keys_of_load hload) (load_fileAt hload)⟩

theorem Traversal.length_le (h : Traversal resolver tree visited records wanted result order loaded) :
    order.length ≤ tree.files.length := by
  have bound := h.nodup.length_le_of_subset h.there
  rwa [Entries.keys, List.length_map] at bound

theorem get?_records (name : String) (loaded : List Record) (records : Records) :
    Entries.get? name (records.putAll (loaded.map fun record => (record.name, record))) =
      (loaded.reverse.find? (·.name == name)).or (Entries.get? name records) := by
  rw [Entries.get?_putAll, ← List.map_reverse]
  simp only [Entries.get?, List.find?_map, Option.map_map, Function.comp_def, Option.map_id']

/-- Resolving ends on every tree of files. It loads each file at most once, seeks what it needs in its directory, and
puts the records, in the order in which they are loaded, into those that are there. Unless it fails, the files that it
loads are those that can be reached from the root along dependencies, in depth-first preorder. -/
theorem resolve_loads_closure (sound : tree.Sound) (root : Path) (records : Records) :
    ∃ (order : List Place) (loaded : List Record),
      order.Nodup ∧ order.length ≤ tree.files.length ∧
      List.Forall₂ (fun place record => load resolver.rule tree (fileAt place) = .ok record) order loaded ∧
      (∀ place ∈ order, ∀ record, load resolver.rule tree (fileAt place) = .ok record →
        (∀ name ∈ record.dependencies.namesOf .runtime, Filename (name ++ resolver.extension)) →
        resolver.dependenciesAt tree place =
          (record.dependencies.namesOf .runtime).map fun name => place.dropLast ++ [name ++ resolver.extension]) ∧
      (resolver.resolve tree root records).records =
        records.putAll (loaded.map fun record => (record.name, record)) ∧
      records.keys <+: (resolver.resolve tree root records).records.keys ∧
      (∀ name, Entries.get? name (resolver.resolve tree root records).records =
        (loaded.reverse.find? (·.name == name)).or (Entries.get? name records)) ∧
      ((resolver.resolve tree root records).error = none →
        Preorder (resolver.dependenciesAt tree) ∅ [root.place] order ∧
        (∀ other, Preorder (resolver.dependenciesAt tree) ∅ [root.place] other → other = order) ∧
        ∀ place, place ∈ order ↔ Relation.ReflTransGen (Edge (resolver.dependenciesAt tree)) root.place place) := by
  obtain ⟨order, loaded, h⟩ := follow_traverses resolver sound [] records [⟨root, none⟩]
  refine ⟨order, loaded, h.nodup, h.length_le, h.loads, fun place mem record hload files =>
    resolver.dependenciesAt_of_load (h.plain place mem) hload files, h.records, ?_, fun name => ?_, fun fine => ?_⟩
  · rw [resolve, h.records]
    exact Entries.keys_prefix_keys_putAll _ _
  · rw [resolve, h.records, get?_records]
  · have traversal : Preorder (resolver.dependenciesAt tree) ∅ [root.place] order := by
      simpa using h.preorder fine
    exact ⟨traversal, fun other => traversal.unique, traversal.mem_iff_reachable⟩

/-- Four recipes in one directory, of which the first needs the second and third, these the last, and that the
first. -/
def ring : FileTree where
  files := [
    (["core", "a.rb"], "class A < Formula\n  depends_on 'b'\n  depends_on 'c'\nend\n".toUTF8.toList),
    (["core", "b.rb"], "class B < Formula\n  depends_on 'd'\nend\n".toUTF8.toList),
    (["core", "c.rb"], "class C < Formula\n  depends_on 'd'\nend\n".toUTF8.toList),
    (["core", "d.rb"], "class D < Formula\n  depends_on 'a'\nend\n".toUTF8.toList)]
  directories := [["core"]]

/-- The runtime dependencies of the recipe that a path leads to. -/
def needsOf (resolver : Resolver) (tree : FileTree) (path : Path) : Option (List String) :=
  (load resolver.rule tree path).toOption.map fun record => record.dependencies.namesOf .runtime

theorem follow_succeeds_of_needs {wanted : Wanted} {rest : List Wanted} {names : List String}
    (there : missing? tree wanted = none) (new : wanted.path.place ∉ visited)
    (needs : resolver.needsOf tree wanted.path = some names)
    (h : ∀ after, (resolver.follow tree (wanted.path.place :: visited) after
      ((names.map fun name => ⟨resolver.dependencyPath wanted.path name, some (name, wanted.path)⟩) ++ rest)).error =
        none) :
    (resolver.follow tree visited records (wanted :: rest)).error = none := by
  obtain ⟨record, hload, rfl⟩ := Option.map_eq_some_iff.1 needs
  rw [follow_of_load rest there new (toOption_eq_some_iff.1 hload)]
  exact h _

theorem resolve_loads_closure_ring :
    ring.Sound ∧ (resolve {} ring ⟨"", ["core", "a.rb"]⟩ []).error = none ∧
      ∃ order, Preorder (dependenciesAt {} ring) ∅ [["core", "a.rb"]] order ∧ order.Nodup ∧ order.length ≤ 4 := by
  have sound : ring.Sound := by decide
  have settled : (resolve {} ring ⟨"", ["core", "a.rb"]⟩ []).error = none := by
    refine follow_succeeds_of_needs (by rfl) (by decide) (by decide +kernel : _ = some ["b", "c"]) fun _ => ?_
    refine follow_succeeds_of_needs (by rfl) (by decide) (by decide +kernel : _ = some ["d"]) fun _ => ?_
    refine follow_succeeds_of_needs (by rfl) (by decide) (by decide +kernel : _ = some ["a"]) fun _ => ?_
    refine (congrArg Resolution.error (follow_of_visited _ (by rfl) (by decide))).trans ?_
    refine follow_succeeds_of_needs (by rfl) (by decide) (by decide +kernel : _ = some ["d"]) fun _ => ?_
    refine (congrArg Resolution.error (follow_of_visited _ (by rfl) (by decide))).trans ?_
    rw [follow.eq_def]
    rfl
  obtain ⟨order, loaded, nodup, bound, -, -, -, -, -, closure⟩ :=
    @resolve_loads_closure {} ring sound ⟨"", ["core", "a.rb"]⟩ []
  exact ⟨sound, settled, order, (closure settled).1, nodup, bound⟩

end Formulary.Resolver

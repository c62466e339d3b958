import Formulary.Proofs.Closure.Names

/-!
Resolving several recipes into one map. What a resolution puts into the map does not hang on what is there already, so
that resolving again changes nothing, and the order of the recipes matters only where two files give one name.
-/

namespace Formulary.Resolver

open DepthFirst FileTree

variable {resolver : Resolver} {tree : FileTree} {root : Path} {roots : List Path} {records : Records} {name : String}
  {record : Record}

/-- Recipes resolved one after another into one map, as far as none of them fails. -/
def resolveAll (resolver : Resolver) (tree : FileTree) : List Path → Records → Resolution
  | [], records => { records }
  | root :: rest, records =>
    let result := resolver.resolve tree root records
    if result.error.isSome then result else resolver.resolveAll tree rest result.records

variable (resolver tree) in
/-- A traversal puts the same records into every map, and ends in the same way. -/
theorem follow_eq_putAll (visited : List Place) (records : Records) (wanted : List Wanted) :
    ∃ (loaded : List Record) (error : Option LoadError), ∀ before, resolver.follow tree visited before wanted =
      ⟨before.putAll (loaded.map fun record => (record.name, record)), error⟩ := by
  induction visited, records, wanted using follow_induction resolver tree with
  | done =>
    refine ⟨[], none, fun before => ?_⟩
    rw [follow]
    rfl
  | @missing _ _ _ _ error gone =>
    refine ⟨[], some error, fun before => ?_⟩
    rw [follow_cons, gone]
    rfl
  | again there seen ih =>
    obtain ⟨loaded, error, h⟩ := ih
    refine ⟨loaded, error, fun before => ?_⟩
    rw [follow_of_visited _ there seen, h]
  | @fails _ _ _ _ error there new hload =>
    refine ⟨[], some error, fun before => ?_⟩
    rw [follow_of_error _ there new hload]
    rfl
  | @onward _ _ _ _ record there new hload ih =>
    obtain ⟨loaded, error, h⟩ := ih
    refine ⟨record :: loaded, error, fun before => ?_⟩
    rw [follow_of_load _ there new hload, h]
    rfl

variable (resolver tree) in
theorem resolve_eq_putAll (root : Path) :
    ∃ (loaded : List Record) (error : Option LoadError), ∀ before, resolver.resolve tree root before =
      ⟨before.putAll (loaded.map fun record => (record.name, record)), error⟩ :=
  resolver.follow_eq_putAll tree [] [] [⟨root, none⟩]

variable (resolver tree) in
theorem resolve_resolve (root : Path) (records : Records) :
    resolver.resolve tree root (resolver.resolve tree root records).records = resolver.resolve tree root records := by
  obtain ⟨loaded, error, h⟩ := resolver.resolve_eq_putAll tree root
  rw [h records, h, Entries.putAll_putAll]

/-! Several recipes -/

/-- The files that some recipes are made of, each with its closure. -/
def closures (resolver : Resolver) (tree : FileTree) (roots : List Path) : Set Place :=
  {place | ∃ root ∈ roots, Relation.ReflTransGen (Edge (resolver.dependenciesAt tree)) root.place place}

/-- Recipes that each resolve do so in a row, and a name has the record that the last of them gives it. -/
theorem resolveAll_records (fine : ∀ root ∈ roots, (resolver.resolve tree root []).error = none)
    (apart : records.keys.Nodup) :
    (resolver.resolveAll tree roots records).error = none ∧
      (resolver.resolveAll tree roots records).records.keys.Nodup ∧ ∀ name,
      Entries.get? name (resolver.resolveAll tree roots records).records =
        (roots.reverse.findSome? fun root => Entries.get? name (resolver.resolve tree root []).records).or
          (Entries.get? name records) := by
  induction roots generalizing records with
  | nil => exact ⟨rfl, apart, fun name => rfl⟩
  | cons root rest ih =>
    obtain ⟨here, others⟩ := List.forall_mem_cons.1 fine
    obtain ⟨loaded, error, h⟩ := resolver.resolve_eq_putAll tree root
    obtain rfl : error = none := by simpa [h] using here
    have step : resolver.resolveAll tree (root :: rest) records =
        resolver.resolveAll tree rest (records.putAll (loaded.map fun record => (record.name, record))) := by
      rw [resolveAll, h]
      rfl
    obtain ⟨settled, distinct, found⟩ := ih others (Entries.nodup_keys_putAll _ apart)
    rw [step]
    refine ⟨settled, distinct, fun name => ?_⟩
    rw [found, List.reverse_cons, List.findSome?_append, List.findSome?_singleton, Option.or_assoc, h, get?_records,
      get?_records, Option.or_assoc]
    rfl

/-- A record that a resolution leaves in an empty map is that of a file of the closure. -/
theorem exists_place_of_get? (sound : tree.Sound) (fine : (resolver.resolve tree root []).error = none)
    (found : Entries.get? name (resolver.resolve tree root []).records = some record) :
    ∃ place, Relation.ReflTransGen (Edge (resolver.dependenciesAt tree)) root.place place ∧
      load resolver.rule tree (fileAt place) = .ok record ∧ record.name = name := by
  obtain ⟨order, -, reachable, keeps⟩ := resolve_keepsLast sound root [] fine
  have known := List.mem_map_of_mem (f := Prod.fst) (Entries.mem_of_get? found)
  obtain none | ⟨place, mem, named⟩ := (keeps.names name).1 known
  · cases none
  · obtain ⟨first, kept, front, last, back, hload, hlast, split, same, -, stands⟩ := keeps.kept place mem
    obtain rfl : first.name = name := Option.some.inj ((nameAt_of_load hload).symm.trans named)
    obtain rfl : kept = record := Option.some.inj (stands.symm.trans found)
    exact ⟨last, (reachable last).1 (split ▸ List.mem_append_right front (.head back)), hlast, same⟩

/-- Where no two files of the closures give one name, all resolutions agree on the names that they have in common. -/
theorem eq_of_get? (sound : tree.Sound) (fine : ∀ root ∈ roots, (resolver.resolve tree root []).error = none)
    (different : ∀ first ∈ resolver.closures tree roots, ∀ second ∈ resolver.closures tree roots, ∀ name,
      resolver.nameAt tree first = some name → resolver.nameAt tree second = some name → first = second)
    {other : Path} {another : Record} (mem : root ∈ roots) (mem' : other ∈ roots)
    (found : Entries.get? name (resolver.resolve tree root []).records = some record)
    (found' : Entries.get? name (resolver.resolve tree other []).records = some another) : another = record := by
  obtain ⟨first, within, hfirst, rfl⟩ := exists_place_of_get? sound (fine root mem) found
  obtain ⟨second, within', hsecond, named⟩ := exists_place_of_get? sound (fine other mem') found'
  obtain rfl := different first ⟨root, mem, within⟩ second ⟨other, mem', within'⟩ record.name (nameAt_of_load hfirst)
    (named ▸ nameAt_of_load hsecond)
  exact Except.ok.inj (hsecond.symm.trans hfirst)

/-- Resolving a recipe a second time into the same map changes nothing. If recipes that resolve each by itself are
resolved in a row, in any order and however often, and no two files of their closures give one name, then what comes of
it is the union of what comes of each of them. -/
theorem resolve_shared (sound : tree.Sound) :
    (∀ root records, resolver.resolve tree root (resolver.resolve tree root records).records =
      resolver.resolve tree root records) ∧
    ∀ roots, (∀ root ∈ roots, (resolver.resolve tree root []).error = none) →
      (∀ first ∈ resolver.closures tree roots, ∀ second ∈ resolver.closures tree roots, ∀ name,
        resolver.nameAt tree first = some name → resolver.nameAt tree second = some name → first = second) →
      ∀ order : List Path, (∀ root, root ∈ order ↔ root ∈ roots) →
        (resolver.resolveAll tree order []).error = none ∧ (resolver.resolveAll tree order []).records.keys.Nodup ∧
          ∀ name record, Entries.get? name (resolver.resolveAll tree order []).records = some record ↔
            ∃ root ∈ roots, Entries.get? name (resolver.resolve tree root []).records = some record := by
  refine ⟨resolver.resolve_resolve tree, fun roots fine different order same => ?_⟩
  have empty : Entries.keys ([] : Records) |>.Nodup := .nil
  obtain ⟨settled, apart, first⟩ := resolveAll_records (fun root mem => fine root ((same root).1 mem)) empty
  refine ⟨settled, apart, fun name record => ?_⟩
  have found : Entries.get? name (resolver.resolveAll tree order []).records =
      order.reverse.findSome? fun root => Entries.get? name (resolver.resolve tree root []).records :=
    (first name).trans Option.or_none
  rw [found]
  constructor
  · intro h
    obtain ⟨root, mem, h⟩ := List.exists_of_findSome?_eq_some h
    exact ⟨root, (same root).1 (List.mem_reverse.1 mem), h⟩
  · rintro ⟨root, mem, h⟩
    -- The record in the map may come from another of the recipes, but then it is of the same file.
    have present :
        (order.reverse.findSome? fun root => Entries.get? name (resolver.resolve tree root []).records).isSome :=
      List.findSome?_isSome_iff.2 ⟨root, List.mem_reverse.2 ((same root).2 mem), Option.isSome_of_eq_some h⟩
    obtain ⟨another, h'⟩ := Option.isSome_iff_exists.1 present
    obtain ⟨other, mem', stands⟩ := List.exists_of_findSome?_eq_some h'
    rw [h', eq_of_get? sound fine different mem ((same other).1 (List.mem_reverse.1 mem')) h stands]

/-- Two recipes that both need the third. -/
def fork : FileTree where
  files := [
    (["core", "a.rb"], "class A < Formula\n  depends_on 'c'\nend\n".toUTF8.toList),
    (["core", "b.rb"], "class B < Formula\n  depends_on 'c'\nend\n".toUTF8.toList),
    (["core", "c.rb"], "class C < Formula\nend\n".toUTF8.toList)]
  directories := [["core"]]

theorem mem_files_fork {place other : Place} (there : place ∈ fork.files.keys)
    (h : Relation.ReflTransGen (Edge (dependenciesAt {} fork)) place other) : other ∈ fork.files.keys := by
  have closed : ∀ place ∈ fork.files.keys, dependenciesAt {} fork place ⊆ fork.files.keys := by decide +kernel
  induction h with
  | refl => exact there
  | tail _ edge ih => exact closed _ ih edge

theorem resolve_shared_fork : fork.Sound ∧
    (resolveAll {} fork [⟨"", ["core", "b.rb"]⟩, ⟨"", ["core", "a.rb"]⟩, ⟨"", ["core", "b.rb"]⟩] []).error = none ∧
    ∃ record, record.name = "a" ∧ Entries.get? "a"
      (resolveAll {} fork [⟨"", ["core", "b.rb"]⟩, ⟨"", ["core", "a.rb"]⟩, ⟨"", ["core", "b.rb"]⟩] []).records =
        some record := by
  have sound : fork.Sound := by decide
  have fine : ∀ root ∈ [(⟨"", ["core", "a.rb"]⟩ : Path), ⟨"", ["core", "b.rb"]⟩],
      (resolve {} fork root []).error = none := by
    intro root mem
    obtain rfl | rfl : root = ⟨"", ["core", "a.rb"]⟩ ∨ root = ⟨"", ["core", "b.rb"]⟩ := by simpa using mem
    all_goals
      refine follow_succeeds_of_needs (by rfl) (by decide) (by decide +kernel : _ = some ["c"]) fun _ => ?_
      refine follow_succeeds_of_needs (by rfl) (by decide) (by decide +kernel : _ = some []) fun _ => ?_
      rw [follow.eq_def]
      rfl
  have different : ∀ first ∈ fork.files.keys, ∀ second ∈ fork.files.keys,
      nameAt {} fork first = nameAt {} fork second → first = second := by decide +kernel
  have within (place : Place)
      (mem : place ∈ closures {} fork [⟨"", ["core", "a.rb"]⟩, ⟨"", ["core", "b.rb"]⟩]) : place ∈ fork.files.keys := by
    obtain ⟨root, mem, reachable⟩ := mem
    have there : ∀ root ∈ [(⟨"", ["core", "a.rb"]⟩ : Path), ⟨"", ["core", "b.rb"]⟩],
        root.place ∈ fork.files.keys := by decide
    exact mem_files_fork (there root mem) reachable
  obtain ⟨settled, -, union⟩ := (@resolve_shared {} fork sound).2 _ fine
    (fun first mem second mem' name h h' => different first (within first mem) second (within second mem')
      (h.trans h'.symm))
    [⟨"", ["core", "b.rb"]⟩, ⟨"", ["core", "a.rb"]⟩, ⟨"", ["core", "b.rb"]⟩] (by simp)
  obtain ⟨order, -, reachable, keeps⟩ := resolve_keepsLast sound _ [] (fine _ (.head _))
  have there (place : Place) (mem : place ∈ order) : place ∈ fork.files.keys :=
    mem_files_fork (by decide) ((reachable place).1 mem)
  obtain ⟨record, hload, stands⟩ := keeps.apart (fun first mem second mem' => different first (there first mem) second
    (there second mem')) _ ((reachable _).2 .refl)
  have named : record.name = "a" :=
    Option.some.inj ((nameAt_of_load hload).symm.trans (by decide +kernel))
  exact ⟨sound, settled, record, named, (union "a" record).2 ⟨_, .head _, named ▸ stands⟩⟩

end Formulary.Resolver

import Formulary.Proofs.Closure.Resolve
import Mathlib.Data.List.Forall2
import Mathlib.Data.List.Nodup

/-!
Which records a resolution leaves. Files are told apart by their places, but records by the names of their formulas: of
the files that give one name the one that is loaded last keeps its record.
-/

namespace Formulary.Resolver

open DepthFirst FileTree

section Lists

variable {α β : Type} {R : α → β → Prop} {xs : List α} {ys front back : List β} {x : α} {y : β}

theorem exists_right_of_mem (h : List.Forall₂ R xs ys) (mem : x ∈ xs) : ∃ y ∈ ys, R x y := by
  induction h with
  | nil => cases mem
  | cons here _ ih =>
    obtain rfl | mem := List.mem_cons.1 mem
    · exact ⟨_, .head _, here⟩
    · obtain ⟨y, hy, related⟩ := ih mem
      exact ⟨y, .tail _ hy, related⟩

theorem exists_split_left (h : List.Forall₂ R xs ys) (split : ys = front ++ y :: back) :
    ∃ before x after, xs = before ++ x :: after ∧ R x y ∧ List.Forall₂ R after back := by
  subst split
  obtain ⟨x, after, here, beyond, tail⟩ := List.forall₂_cons_right_iff.1 (List.forall₂_drop_append xs front _ h)
  exact ⟨xs.take front.length, x, after, by rw [← tail, List.take_append_drop], here, beyond⟩

end Lists

/-- The name of the formula in the file at a place. -/
def nameAt (resolver : Resolver) (tree : FileTree) (place : Place) : Option String :=
  (load resolver.rule tree (fileAt place)).toOption.map (·.name)

variable {resolver : Resolver} {tree : FileTree} {order : List Place} {loaded : List Record} {records : Records}
  {place : Place} {record : Record}

theorem nameAt_of_load (h : load resolver.rule tree (fileAt place) = .ok record) :
    resolver.nameAt tree place = some record.name := by
  rw [nameAt, h]
  rfl

/-- What is left in a map of records when files are loaded in order. -/
structure KeepsLast (resolver : Resolver) (tree : FileTree) (order : List Place) (before after : Records) : Prop where
  /-- At the name of each file stands the record of the last file of that name. -/
  kept (place : Place) (mem : place ∈ order) : ∃ record kept front last back,
    load resolver.rule tree (fileAt place) = .ok record ∧ load resolver.rule tree (fileAt last) = .ok kept ∧
      order = front ++ last :: back ∧ kept.name = record.name ∧
      (∀ other ∈ back, resolver.nameAt tree other ≠ some record.name) ∧ after.get? record.name = some kept
  names (name : String) : name ∈ after.keys ↔
    name ∈ before.keys ∨ ∃ place ∈ order, resolver.nameAt tree place = some name
  /-- Files of different names have an entry each. -/
  apart (different : ∀ first ∈ order, ∀ second ∈ order,
    resolver.nameAt tree first = resolver.nameAt tree second → first = second) :
    ∀ place ∈ order, ∃ record,
      load resolver.rule tree (fileAt place) = .ok record ∧ after.get? record.name = some record
  /-- If none of the names was there before, these entries are all that is new. -/
  whole (different : (before.keys.map some ++ order.map (resolver.nameAt tree)).Nodup) : ∃ loaded,
    List.Forall₂ (fun place record => load resolver.rule tree (fileAt place) = .ok record) order loaded ∧
      after = before ++ loaded.map fun record => (record.name, record)

theorem map_nameAt_of_loads
    (h : List.Forall₂ (fun place record => load resolver.rule tree (fileAt place) = .ok record) order loaded) :
    order.map (resolver.nameAt tree) = loaded.map fun record => some record.name := by
  induction h with
  | nil => rfl
  | cons here _ ih => rw [List.map_cons, List.map_cons, ih, nameAt_of_load here]

theorem keepsLast_putAll
    (h : List.Forall₂ (fun place record => load resolver.rule tree (fileAt place) = .ok record) order loaded) :
    KeepsLast resolver tree order records
      (records.putAll (loaded.map fun record => (record.name, record))) := by
  have kept (place : Place) (mem : place ∈ order) : ∃ record kept front last back,
      load resolver.rule tree (fileAt place) = .ok record ∧ load resolver.rule tree (fileAt last) = .ok kept ∧
        order = front ++ last :: back ∧ kept.name = record.name ∧
        (∀ other ∈ back, resolver.nameAt tree other ≠ some record.name) ∧
        (records.putAll (loaded.map fun record => (record.name, record))).get? record.name = some kept := by
    obtain ⟨record, there, hload⟩ := exists_right_of_mem h mem
    obtain ⟨kept, found⟩ : ∃ kept, loaded.reverse.find? (·.name == record.name) = some kept :=
      Option.isSome_iff_exists.1 (List.find?_isSome.2 ⟨record, List.mem_reverse.2 there, beq_self_eq_true record.name⟩)
    obtain ⟨same, later, earlier, split, others⟩ := List.find?_eq_some_iff_append.1 found
    have split' : loaded = earlier.reverse ++ kept :: later.reverse := by
      simpa using congrArg List.reverse split
    obtain ⟨front, last, back, order_eq, hlast, beyond⟩ := exists_split_left h split'
    refine ⟨record, kept, front, last, back, hload, hlast, order_eq, by simpa using same, ?_, ?_⟩
    · intro other hother named
      obtain ⟨another, hanother, hload⟩ := exists_right_of_mem beyond hother
      have differs := others another (List.mem_reverse.1 hanother)
      rw [nameAt_of_load hload, Option.some.injEq] at named
      simp [named] at differs
    · rw [get?_records, found, Option.some_or]
  refine ⟨kept, fun name => ?names, fun different place mem => ?apart, fun different => ⟨loaded, h, ?whole⟩⟩
  case names =>
    have names : name ∈ Entries.keys (loaded.map fun record => (record.name, record)) ↔
        some name ∈ order.map (resolver.nameAt tree) := by
      simp [map_nameAt_of_loads h, Entries.keys]
    rw [Entries.mem_keys_putAll, names, List.mem_map]
  case apart =>
    obtain ⟨record, kept, front, last, back, hload, hlast, split, same, -, found⟩ := kept place mem
    have names : resolver.nameAt tree place = resolver.nameAt tree last := by
      rw [nameAt_of_load hload, nameAt_of_load hlast, same]
    obtain rfl := different place mem last (split ▸ List.mem_append_right front (.head back)) names
    obtain rfl := Except.ok.inj (hload.symm.trans hlast)
    exact ⟨record, hload, found⟩
  case whole =>
    refine Entries.putAll_of_nodup (List.Nodup.of_map some ?_)
    rw [map_nameAt_of_loads h] at different
    simpa [Entries.keys, Function.comp_def] using different

/-- When resolving does not fail, every file of the closure has an entry at the name of its formula. Files that give
one name share it, and the last of them in depth-first preorder has its record there. -/
theorem resolve_keepsLast (sound : tree.Sound) (root : Path) (records : Records)
    (fine : (resolver.resolve tree root records).error = none) :
    ∃ order, Preorder (resolver.dependenciesAt tree) ∅ [root.place] order ∧
      (∀ place, place ∈ order ↔ Relation.ReflTransGen (Edge (resolver.dependenciesAt tree)) root.place place) ∧
      KeepsLast resolver tree order records (resolver.resolve tree root records).records := by
  obtain ⟨order, loaded, h⟩ := follow_traverses resolver sound [] records [⟨root, none⟩]
  have traversal : Preorder (resolver.dependenciesAt tree) ∅ [root.place] order := by
    simpa using h.preorder fine
  refine ⟨order, traversal, traversal.mem_iff_reachable, ?_⟩
  rw [resolve, h.records]
  exact keepsLast_putAll h.loads

/-- Two recipes of one name, of which the first needs the second. -/
def twins : FileTree where
  files := [
    (["core", "a.rb"], "class A < Formula\n  depends_on 'b'\nend\n".toUTF8.toList),
    (["core", "b.rb"], "class A < Formula\nend\n".toUTF8.toList)]
  directories := [["core"]]

/-- The name of the recipe that a path leads to, and its runtime dependencies. -/
def summaryOf (tree : FileTree) (path : Path) : Option (String × List String) :=
  (load Version.ofUrl tree path).toOption.map fun record => (record.name, record.dependencies.namesOf .runtime)

theorem exists_load_of_summaryOf {path : Path} {name : String} {needed : List String}
    (h : summaryOf tree path = some (name, needed)) : ∃ record, load Version.ofUrl tree path = .ok record ∧
      record.name = name ∧ record.dependencies.namesOf .runtime = needed := by
  obtain ⟨record, hload, same⟩ := Option.map_eq_some_iff.1 h
  obtain ⟨rfl, rfl⟩ := Prod.mk.inj same
  exact ⟨record, Result.toOption_eq_some_iff.1 hload, rfl, rfl⟩

theorem resolve_twins : ∃ first second, load Version.ofUrl twins ⟨"", ["core", "a.rb"]⟩ = .ok first ∧
    load Version.ofUrl twins ⟨"", ["core", "b.rb"]⟩ = .ok second ∧ first.name = "a" ∧ second.name = "a" ∧
    first.dependencies.namesOf .runtime = ["b"] ∧ second.dependencies.namesOf .runtime = [] ∧
    resolve {} twins ⟨"", ["core", "a.rb"]⟩ [] = { records := [("a", second)] } := by
  obtain ⟨first, hfirst, firstName, firstNeeds⟩ := exists_load_of_summaryOf
    (by decide +kernel : summaryOf twins ⟨"", ["core", "a.rb"]⟩ = some ("a", ["b"]))
  obtain ⟨second, hsecond, secondName, secondNeeds⟩ := exists_load_of_summaryOf
    (by decide +kernel : summaryOf twins ⟨"", ["core", "b.rb"]⟩ = some ("a", []))
  refine ⟨first, second, hfirst, hsecond, firstName, secondName, firstNeeds, secondNeeds, ?_⟩
  rw [resolve, follow_of_load [] (by rfl) (by decide) hfirst, wantedBy, firstNeeds]
  refine (follow_of_load _ (by rfl) (by decide) hsecond).trans ?_
  rw [wantedBy, secondNeeds, follow.eq_def, firstName, secondName]
  rfl

/-- Resolving can leave the closure without the record of its root. -/
theorem exists_record_lost : twins.Sound ∧ (resolve {} twins ⟨"", ["core", "a.rb"]⟩ []).error = none ∧
    ∃ record, load Version.ofUrl twins ⟨"", ["core", "a.rb"]⟩ = .ok record ∧
      Entries.get? record.name (resolve {} twins ⟨"", ["core", "a.rb"]⟩ []).records ≠ some record := by
  obtain ⟨first, second, hfirst, -, firstName, -, firstNeeds, secondNeeds, result⟩ := resolve_twins
  refine ⟨by decide, by rw [result], first, hfirst, ?_⟩
  rw [result, firstName]
  intro same
  obtain rfl : second = first := Option.some.inj same
  rw [secondNeeds] at firstNeeds
  cases firstNeeds

theorem resolve_keepsLast_twins : twins.Sound ∧ (resolve {} twins ⟨"", ["core", "a.rb"]⟩ []).error = none ∧
    ∃ order, Preorder (dependenciesAt {} twins) ∅ [["core", "a.rb"]] order ∧
      KeepsLast {} twins order [] (resolve {} twins ⟨"", ["core", "a.rb"]⟩ []).records := by
  have sound : twins.Sound := by decide
  obtain ⟨_, _, -, -, -, -, -, -, result⟩ := resolve_twins
  have fine : (resolve {} twins ⟨"", ["core", "a.rb"]⟩ []).error = none := by rw [result]
  obtain ⟨order, traversal, -, keeps⟩ := @resolve_keepsLast {} twins sound ⟨"", ["core", "a.rb"]⟩ [] fine
  exact ⟨sound, fine, order, traversal, keeps⟩

end Formulary.Resolver

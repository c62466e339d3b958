import Formulary.Directive.Bottle
import Formulary.Proofs.Directive.DependsOn

/-!
What a bottle records of its lines of checksums. Each pair of a line names a platform. The platform gets the checksum
of the last pair that names it, and keeps the cellar of the last one that comes with a cellar, which need not be the
same.
-/

namespace Formulary

namespace Directive

/-- The releases that the hash of a line names: every pair but the cellar's, with the cellar of the line. -/
def namedBy? (entries : Entries Scalar Value) : Option (List Release) :=
  (Entries.erase cellarKey entries).mapM fun entry => release? (cellarOf entries) entry.1 entry.2

/-- The releases that a line of checksums names. -/
def named? (line : Directive) : Option (List Release) :=
  match line.args.map Static.written? with
  | [some (.hash pairs)] => namedBy? (Entries.settled pairs)
  | _ => none

def namedByAll? : List Directive → Option (List Release)
  | [] => some []
  | line :: rest => return (← line.named?) ++ (← namedByAll? rest)

end Directive

/-- The lines of checksums among the statements of a body. -/
def checksumLines (body : List Node) : List Directive :=
  (body.filterMap Directive.ofNode?).filter (·.name = "sha256")

/-- The last of some releases that is one of a platform. -/
def lastOf (platform : String) (named : List Release) : Option Release :=
  named.reverse.find? (·.platform = platform)

/-- The releases that a line adds to a bottle. -/
def BottleLine.named : BottleLine → List Release
  | .releases given => given
  | _ => []

namespace ChecksumLines

open Result Directive

/-! What a line names -/

theorem mapM_of_releasesOf {directive : Directive} {cellar : Option String} : ∀ {pairs : List (Scalar × Value)}
    {named : List Release}, directive.releasesOf cellar pairs = .ok named →
    pairs.mapM (fun pair => release? cellar pair.1 pair.2) = some named
  | [], _, h => by
    obtain rfl := pure_eq_ok_iff.1 h
    rfl
  | (key, value) :: rest, _, h => by
    unfold releasesOf at h
    split at h
    · rename_i release hrelease
      obtain ⟨more, hmore, h⟩ := bind_eq_ok_iff.1 h
      obtain rfl := pure_eq_ok_iff.1 h
      simp [List.mapM_cons, hrelease, mapM_of_releasesOf hmore]
    · cases h

theorem exists_written {args : List Node} {value : Value} (h : Static.values args = .ok [value]) :
    ∃ written, args.map Static.written? = [some written] ∧ value = written.settled := by
  cases args with
  | nil => cases h
  | cons arg rest =>
    simp only [Static.values, bind_eq_ok_iff, pure_eq_ok_iff] at h
    obtain ⟨first, hfirst, more, hmore, same⟩ := h
    obtain ⟨rfl, rfl⟩ := List.cons.inj same
    obtain ⟨written, hwritten, rfl⟩ := DependsOn.exists_settled hfirst
    cases rest with
    | nil => exact ⟨written, by rw [List.map_singleton, hwritten], rfl⟩
    | cons arg rest =>
      simp only [Static.values, bind_eq_ok_iff, pure_eq_ok_iff] at hmore
      obtain ⟨_, -, _, -, more⟩ := hmore
      cases more

theorem named?_of_releases {directive : Directive} {named : List Release} (h : directive.releases = .ok named) :
    directive.named? = some named := by
  obtain ⟨values, hvalues, h⟩ := bind_eq_ok_iff.1 h
  split at h
  · rename_i entries
    obtain ⟨written, single, settled⟩ := exists_written (mapError_eq_ok_iff.1 hvalues)
    cases written with
    | hash pairs =>
      obtain rfl := Value.hash.inj settled
      rw [named?, single]
      exact mapM_of_releasesOf h
    | scalar scalar => cases settled
    | list items => cases settled
  · cases h

theorem named_of_bottleLine {directive : Directive} {line : BottleLine} (h : directive.bottleLine = .ok line)
    (other : directive.name ≠ "sha256") : line.named = [] := by
  unfold bottleLine at h
  split at h
  case h_4 => contradiction
  case h_5 => cases h
  all_goals
    obtain ⟨_, -, h⟩ := bind_eq_ok_iff.1 h
    obtain rfl := pure_eq_ok_iff.1 h
    rfl

theorem named?_of_bottleLine {directive : Directive} {line : BottleLine} (h : directive.bottleLine = .ok line)
    (checksums : directive.name = "sha256") : directive.named? = some line.named := by
  rw [bottleLine, checksums] at h
  obtain ⟨releases, hreleases, h⟩ := bind_eq_ok_iff.1 h
  obtain rfl := pure_eq_ok_iff.1 h
  exact named?_of_releases hreleases

/-- All lines of checksums in an accepted body can be read. -/
theorem namedByAll?_of_ofBody : ∀ {body : List Node} {lines : List BottleLine}, ofBody bottleLine body = .ok lines →
    namedByAll? (checksumLines body) = some (lines.flatMap BottleLine.named)
  | [], _, h => by
    obtain rfl := pure_eq_ok_iff.1 h
    rfl
  | statement :: rest, _, h => by
    simp only [ofBody, bind_eq_ok_iff, pure_eq_ok_iff] at h
    obtain ⟨line, hline, more, hmore, rfl⟩ := h
    have tail := namedByAll?_of_ofBody hmore
    unfold ofStatement at hline
    split at hline
    · rename_i directive hs
      by_cases checksums : directive.name = "sha256"
      · have lines : checksumLines (statement :: rest) = directive :: checksumLines rest := by
          simp [checksumLines, hs, checksums]
        rw [lines, namedByAll?, named?_of_bottleLine hline checksums, tail]
        rfl
      · have lines : checksumLines (statement :: rest) = checksumLines rest := by
          simp [checksumLines, hs, checksums]
        rw [lines, tail, List.flatMap_cons, named_of_bottleLine hline checksums, List.nil_append]
    · cases hline

/-! What a bottle keeps -/

/-- The checksums that releases give to their platforms. -/
def checksums (named : List Release) : List (String × String) :=
  named.map fun release => (release.platform, release.checksum)

/-- The cellars that releases give to their platforms. -/
def cellars (named : List Release) : List (String × String) :=
  named.filterMap fun release => release.cellar.map (release.platform, ·)

theorem foldl_release (named : List Release) (bottle : Bottle) :
    (named.foldl Bottle.release bottle).releases = bottle.releases.putAll (checksums named) ∧
      (named.foldl Bottle.release bottle).cellars = bottle.cellars.putAll (cellars named) := by
  induction named generalizing bottle with
  | nil => exact ⟨rfl, rfl⟩
  | cons release rest ih =>
    obtain ⟨releases, kept⟩ := ih (bottle.release release)
    refine ⟨releases, ?_⟩
    rw [List.foldl_cons, kept, Bottle.release, cellars, cellars, List.filterMap_cons]
    cases release.cellar <;> rfl

theorem foldl_apply (lines : List BottleLine) (bottle : Bottle) :
    (lines.foldl Bottle.apply bottle).releases = bottle.releases.putAll (checksums (lines.flatMap BottleLine.named)) ∧
      (lines.foldl Bottle.apply bottle).cellars = bottle.cellars.putAll (cellars (lines.flatMap BottleLine.named)) := by
  induction lines generalizing bottle with
  | nil => exact ⟨rfl, rfl⟩
  | cons line rest ih =>
    obtain ⟨releases, kept⟩ := ih (bottle.apply line)
    rw [List.foldl_cons, releases, kept, List.flatMap_cons]
    cases line with
    | releases named =>
      obtain ⟨releases, kept⟩ := foldl_release named bottle
      rw [Bottle.apply, releases, kept]
      simp [Entries.putAll, checksums, cellars, BottleLine.named]
    | _ => exact ⟨rfl, rfl⟩

/-! The last release of a platform -/

theorem lastOf_concat (platform : String) (named : List Release) (release : Release) :
    lastOf platform (named ++ [release]) = if release.platform = platform then some release else lastOf platform named := by
  rw [lastOf, List.reverse_concat, List.find?_cons, lastOf]
  by_cases same : release.platform = platform <;> simp [same]

theorem lastOf_eq_none_iff {platform : String} {named : List Release} :
    lastOf platform named = none ↔ ∀ release ∈ named, release.platform ≠ platform := by
  simp [lastOf]

theorem get?_checksums (platform : String) (named : List Release) :
    Entries.get? platform (checksums named).reverse = (lastOf platform named).map (·.checksum) := by
  rw [Entries.get?, checksums, ← List.map_reverse, List.find?_map, Option.map_map, lastOf]
  rfl

theorem get?_cellars (platform : String) (named : List Release) :
    Entries.get? platform (cellars named).reverse =
      (lastOf platform (named.filter (·.cellar.isSome))).bind (·.cellar) := by
  induction named using List.reverseRecOn with
  | nil => rfl
  | append_singleton named release ih =>
    have split : cellars (named ++ [release]) = cellars named ++ cellars [release] := List.filterMap_append
    rw [split, List.reverse_append, List.filter_append]
    cases given : release.cellar with
    | none => simpa [cellars, given] using ih
    | some cellar =>
      have only : cellars [release] = [(release.platform, cellar)] := by simp [cellars, given]
      rw [only, List.reverse_singleton, List.singleton_append, Entries.get?_cons, ih]
      by_cases same : release.platform = platform <;> simp [given, same, lastOf_concat]

theorem eq_none_of_lastOf {platform : String} {named : List Release} :
    (lastOf platform (named.filter (·.cellar.isSome))).bind (·.cellar) = none ↔
      ∀ release ∈ named, release.platform = platform → release.cellar = none := by
  constructor
  · intro none release mem same
    cases found : lastOf platform (named.filter (·.cellar.isSome)) with
    | none =>
      by_contra given
      have kept : release ∈ named.filter (·.cellar.isSome) :=
        List.mem_filter.2 ⟨mem, Option.isSome_iff_ne_none.2 given⟩
      exact lastOf_eq_none_iff.1 found release kept same
    | some last =>
      have kept := List.mem_reverse.1 (List.mem_of_find?_eq_some found)
      rw [found, Option.bind_some] at none
      simp [none] at kept
  · intro without
    have none : lastOf platform (named.filter (·.cellar.isSome)) = none := by
      refine lastOf_eq_none_iff.2 fun release kept same => ?_
      obtain ⟨mem, given⟩ := List.mem_filter.1 kept
      rw [without release mem same] at given
      contradiction
    rw [none, Option.bind_none]

/-- The last cellar of a platform is that of its last release, unless this has none and an earlier one has. -/
theorem lastOf_cellar_iff (platform : String) (named : List Release) :
    (lastOf platform (named.filter (·.cellar.isSome))).bind (·.cellar) = (lastOf platform named).bind (·.cellar) ↔
      (∃ release, lastOf platform named = some release ∧ release.cellar ≠ none) ∨
        ∀ release ∈ named, release.platform = platform → release.cellar = none := by
  induction named using List.reverseRecOn with
  | nil => simp [lastOf]
  | append_singleton named release ih =>
    by_cases same : release.platform = platform
    · cases given : release.cellar with
      | none =>
        rw [lastOf_concat, if_pos same, Option.bind_some, given, eq_none_of_lastOf]
        constructor
        · exact .inr
        · rintro (⟨_, found, other⟩ | without)
          · cases found
            exact absurd given other
          · exact without
      | some cellar => simp [lastOf_concat, same, given]
    · have other : (lastOf platform ((named ++ [release]).filter (·.cellar.isSome))) =
          lastOf platform (named.filter (·.cellar.isSome)) := by
        cases given : release.cellar <;> simp [given, lastOf_concat, same]
      rw [other, lastOf_concat, if_neg same, ih]
      simp [same, or_imp, forall_and]

/-- What a bottle keeps of the releases that its lines name. -/
structure Records (named : List Release) (bottle : Bottle) : Prop where
  /-- Platforms stand in the order in which they are first named. -/
  ordered : bottle.releases.keys = (named.map (·.platform)).eraseDups
  /-- Just the platforms that are named have a checksum. -/
  listed (platform : String) : platform ∈ bottle.releases.keys ↔ ∃ release ∈ named, release.platform = platform
  /-- A platform has the checksum that it is given last. -/
  checksum (platform : String) : bottle.releases.get? platform = (lastOf platform named).map (·.checksum)
  /-- A platform has the cellar that it is given last. -/
  cellar (platform : String) :
    bottle.cellars.get? platform = (lastOf platform (named.filter (·.cellar.isSome))).bind (·.cellar)
  /-- This is the cellar of the last line that names the platform exactly if that line gives one or no line does. -/
  together (platform : String) : bottle.cellars.get? platform = (lastOf platform named).bind (·.cellar) ↔
    (∃ release, lastOf platform named = some release ∧ release.cellar ≠ none) ∨
      ∀ release ∈ named, release.platform = platform → release.cellar = none

theorem records (named : List Release) {bottle : Bottle} (releases : bottle.releases = Entries.ofList (checksums named))
    (kept : bottle.cellars = Entries.ofList (cellars named)) : Records named bottle := by
  have ordered : bottle.releases.keys = (named.map (·.platform)).eraseDups := by
    rw [releases, Entries.keys_ofList, Entries.keys, checksums, List.map_map]
    rfl
  have cellar (platform : String) :
      bottle.cellars.get? platform = (lastOf platform (named.filter (·.cellar.isSome))).bind (·.cellar) := by
    rw [kept, Entries.ofList, Entries.get?_putAll, get?_cellars]
    exact Option.or_none
  refine ⟨ordered, fun platform => ?_, fun platform => ?_, cellar, fun platform => ?_⟩
  · rw [ordered, List.mem_eraseDups, List.mem_map]
  · rw [releases, Entries.ofList, Entries.get?_putAll, get?_checksums]
    exact Option.or_none
  · rw [cellar]
    exact lastOf_cellar_iff platform named

/-- The lines of checksums of every accepted block can be read, and its bottle keeps what they name. -/
theorem bottle_records {directive : Directive} {body : List Node} {bottle : Bottle}
    (block : directive.block = some body) (accepted : directive.bottle = .ok (some bottle)) :
    ∃ named, namedByAll? (checksumLines body) = some named ∧ Records named bottle := by
  rw [Directive.bottle, block] at accepted
  obtain ⟨lines, hlines, accepted⟩ := bind_eq_ok_iff.1 accepted
  obtain rfl := Option.some.inj (pure_eq_ok_iff.1 accepted)
  obtain ⟨releases, kept⟩ := foldl_apply lines {}
  exact ⟨_, namedByAll?_of_ofBody hlines, records _ releases kept⟩

theorem bottle_records_again :
    let sums (line : Nat) (pairs : List (Node × Node)) : Node :=
      .call ⟨line, 5⟩ "sha256" none [.hash ⟨line, 12⟩ pairs false] none false
    let symbol (line : Nat) (name : String) : Node := .symbol ⟨line, 12⟩ name
    let text (line : Nat) (value : String) : Node := .string ⟨line, 20⟩ [.text value]
    let body : List Node :=
      [sums 3 [(symbol 3 "cellar", symbol 3 "any"), (symbol 3 "ventura", text 3 "aaa"), (symbol 3 "monterey", text 3 "bbb")],
        sums 4 [(text 4 "ccc", symbol 4 "big_sur")],
        sums 5 [(symbol 5 "cellar", text 5 "/opt"), (symbol 5 "ventura", text 5 "ddd")]]
    let bottle : Bottle :=
      { releases := [("ventura", "ddd"), ("monterey", "bbb"), ("big_sur", "ccc")]
        cellars := [("ventura", "/opt"), ("monterey", "any")] }
    Directive.bottle ⟨"bottle", [], some body, 2⟩ = .ok (some bottle) ∧
      ∃ named, namedByAll? (checksumLines body) = some named ∧ Records named bottle := by
  intro sums symbol text body bottle
  have accepted : Directive.bottle ⟨"bottle", [], some body, 2⟩ = .ok (some bottle) := by rfl
  exact ⟨accepted, bottle_records rfl accepted⟩

/-- A platform keeps the cellar of an earlier line when a later line names it without one. -/
theorem exists_cellar_kept :
    let sums (line : Nat) (pairs : List (Node × Node)) : Node :=
      .call ⟨line, 5⟩ "sha256" none [.hash ⟨line, 12⟩ pairs false] none false
    let platform (line : Nat) : Node := .symbol ⟨line, 26⟩ "monterey"
    let body : List Node :=
      [sums 3 [(.symbol ⟨3, 12⟩ "cellar", .symbol ⟨3, 20⟩ "any"), (platform 3, .string ⟨3, 36⟩ [.text "aaa"])],
        sums 4 [(platform 4, .string ⟨4, 22⟩ [.text "bbb"])]]
    let bottle : Bottle := { releases := [("monterey", "bbb")], cellars := [("monterey", "any")] }
    let named : List Release := [⟨"monterey", "aaa", some "any"⟩, ⟨"monterey", "bbb", none⟩]
    Directive.bottle ⟨"bottle", [], some body, 2⟩ = .ok (some bottle) ∧
      namedByAll? (checksumLines body) = some named ∧ (lastOf "monterey" named).bind (·.cellar) = none ∧
      bottle.cellars.get? "monterey" = some "any" := by
  intro sums platform body bottle named
  exact ⟨rfl, rfl, rfl, rfl⟩

end ChecksumLines

end Formulary

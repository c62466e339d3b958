import Formulary.FileTree
import Formulary.Proofs.Entries
import Formulary.Proofs.Result
import Formulary.Proofs.Text.Split
import Mathlib.Data.List.Induction

/-!
Which file a path leads to. Two paths to one file may be written differently, and what is said next to them has to
agree all the same.
-/

namespace Formulary.FileTree

open Result

variable {tree : FileTree} {place found : Place} {path : Path} {names : List String} {bytes : List UInt8}

/-- Steps upwards stand only in front. -/
def Plain (place : Place) : Prop :=
  ∀ above, above ++ [".."] <+: place → above.all (· = "..") = true

theorem plain_nil : Plain [] := by
  intro above up
  simp at up

theorem Plain.of_prefix {above : Place} (h : Plain place) (le : above <+: place) : Plain above :=
  fun _ up => h _ (up.trans le)

theorem Plain.parent (h : Plain place) : Plain place.parent := by
  unfold Place.parent
  split
  · rename_i upward
    intro above up
    obtain eq | up := List.prefix_concat_iff.1 up
    · rwa [List.append_cancel_right eq]
    · exact h above up
  · exact h.of_prefix (List.dropLast_prefix place)

theorem Plain.enter (h : Plain place) (name : String) : Plain (place.enter name) := by
  unfold Place.enter
  split
  · exact h.parent
  · rename_i down
    intro above up
    obtain eq | up := List.prefix_concat_iff.1 up
    · exact absurd (List.append_inj_right' eq rfl) (by simpa using Ne.symm down)
    · exact h above up

theorem Plain.foldl_enter (h : Plain place) (names : List String) : Plain (names.foldl Place.enter place) := by
  induction names generalizing place with
  | nil => exact h
  | cons name rest ih => exact ih (h.enter name)

theorem plain_place (path : Path) : Plain path.place :=
  plain_nil.foldl_enter path.segments

theorem Plain.enter_last {last : String} (h : Plain (place ++ [last])) : place.enter last = place ++ [last] := by
  unfold Place.enter
  split
  · rename_i upward
    subst upward
    rw [Place.parent, if_pos (h place (List.prefix_refl _))]
  · rfl

/-- The steps to a place lead there. -/
theorem Plain.foldl_enter_append {below : Place} (h : Plain (place ++ below)) :
    below.foldl Place.enter place = place ++ below := by
  induction below generalizing place with
  | nil => simp
  | cons name rest ih =>
    have first : Plain (place ++ [name]) := h.of_prefix (by simp)
    rw [List.foldl_cons, first.enter_last, ih (by simpa using h), List.append_assoc, List.singleton_append]

/-- A name that stands for a file, and not for a way through several directories. -/
structure Filename (name : String) : Prop where
  whole : '/' ∉ name.toList
  some : name ≠ ""
  onward : name ≠ "."
  down : name ≠ ".."

theorem Filename.ofString_eq {name : String} (h : Filename name) : Path.ofString name = ⟨"", [name]⟩ := by
  have root : name.toList.takeWhile (· = '/') = [] := by
    cases chars : name.toList with
    | nil => rfl
    | cons c rest =>
      have : c ≠ '/' := fun eq => h.whole (by simp [chars, eq])
      simp [this]
  simp [Path.ofString, Path.rootOf, root, Path.segmentsOf, Text.splitOn_of_not_mem h.whole, h.some, h.onward]

/-- The path to a place from the working directory. -/
def fileAt (place : Place) : Path :=
  { segments := place }

theorem Plain.place_fileAt (h : Plain place) : (fileAt place).place = place := by
  have steps : Plain ([] ++ place) := h
  exact steps.foldl_enter_append

/-- Everything above a place is a directory. -/
def Attached (tree : FileTree) (place : Place) : Prop :=
  ∀ above, above <+: place → above ≠ place → tree.isDirectory above = true

theorem attached_nil : tree.Attached [] := by
  intro above le ne
  exact absurd (List.prefix_nil.1 le) ne

theorem Attached.concat (h : tree.Attached place) (directory : tree.isDirectory place = true) (name : String) :
    tree.Attached (place ++ [name]) := by
  intro above le ne
  obtain eq | le := List.prefix_concat_iff.1 le
  · exact absurd eq ne
  · by_cases same : above = place
    · rwa [same]
    · exact h above le same

theorem Attached.of_prefix {above : Place} (h : tree.Attached place) (le : above <+: place) :
    tree.Attached above := by
  intro higher hle ne
  refine h higher (hle.trans le) fun eq => ne (hle.eq_of_length_le ?_)
  rw [eq]
  exact le.length_le

theorem Attached.enter (h : tree.Attached place) (directory : tree.isDirectory place = true) (name : String) :
    tree.Attached (place.enter name) := by
  unfold Place.enter Place.parent
  split
  · split
    · exact h.concat directory ".."
    · exact h.of_prefix (List.dropLast_prefix place)
  · exact h.concat directory name

/-- The step upwards from a directory leads to a directory. -/
theorem Attached.isDirectory_parent (h : tree.Attached place) : tree.isDirectory place.parent = true := by
  unfold Place.parent
  split
  · rename_i upward
    simp [isDirectory, upward]
  · rename_i down
    refine h _ (List.dropLast_prefix place) fun eq => ?_
    have empty : place = [] := by
      cases place with
      | nil => rfl
      | cons => simpa using congrArg List.length eq
    simp [empty] at down

theorem walk_append (first second : List String) :
    tree.walk place (first ++ second) = (tree.walk place first >>= fun found => tree.walk found second) := by
  induction first generalizing place with
  | nil => rfl
  | cons name rest ih =>
    simp only [List.cons_append, walk]
    split
    · exact ih
    · split <;> rfl

theorem Attached.of_walk (h : tree.Attached place) (hwalk : tree.walk place names = .ok found) :
    tree.Attached found := by
  induction names generalizing place with
  | nil =>
    simp only [walk, Except.ok.injEq] at hwalk
    rwa [← hwalk]
  | cons name rest ih =>
    unfold walk at hwalk
    split at hwalk
    · rename_i directory
      exact ih (h.enter directory name) hwalk
    · split at hwalk <;> contradiction

theorem walk_below {below : Place} (plain : Plain (place ++ below)) (attached : tree.Attached (place ++ below)) :
    tree.walk place below = .ok (place ++ below) := by
  induction below generalizing place with
  | nil => simp [walk]
  | cons name rest ih =>
    have first : Plain (place ++ [name]) := plain.of_prefix (by simp)
    have directory : tree.isDirectory place = true := attached place (by simp) (by simp)
    rw [walk, if_pos directory, first.enter_last, ih (by simpa using plain) (by simpa using attached)]
    simp

theorem find_eq_ok_iff : tree.find path = .ok found ↔ path.root = "" ∧ tree.walk [] path.segments = .ok found := by
  unfold find
  by_cases here : path.root = "" <;> simp [here]

theorem read_eq_ok_iff :
    tree.read path = .ok bytes ↔ tree.find path = .ok path.place ∧ tree.files.get? path.place = some bytes := by
  unfold read
  rw [bind_eq_ok_iff]
  constructor
  · rintro ⟨place, hfind, hfile⟩
    obtain rfl := find_eq_place hfind
    refine ⟨hfind, ?_⟩
    split at hfile
    · rename_i content hget
      rw [hget, pure_eq_ok_iff.1 hfile]
    · contradiction
  · rintro ⟨hfind, hfile⟩
    exact ⟨path.place, hfind, by simp [hfile, pure, Except.pure]⟩

theorem exists_read_of_isFile (h : tree.isFile path = true) : ∃ bytes, tree.read path = .ok bytes := by
  unfold isFile at h
  split at h
  · rename_i bytes hread
    exact ⟨bytes, hread⟩
  · cases h

theorem attached_of_find (h : tree.find path = .ok found) : tree.Attached found :=
  attached_nil.of_walk (find_eq_ok_iff.1 h).2

/-- What can be read along a path can be read along the path to its place. -/
theorem read_fileAt (h : tree.read path = .ok bytes) : tree.read (fileAt path.place) = .ok bytes := by
  obtain ⟨hfind, hfile⟩ := read_eq_ok_iff.1 h
  have plain := plain_place path
  refine read_eq_ok_iff.2 ⟨find_eq_ok_iff.2 ⟨rfl, ?_⟩, ?_⟩
  · rw [plain.place_fileAt]
    exact walk_below plain (attached_of_find hfind)
  · rwa [plain.place_fileAt]

/-- No file stands where a directory is. -/
def Sound (tree : FileTree) : Prop :=
  ∀ place, tree.isDirectory place = true → tree.files.get? place = none

theorem sound_iff : tree.Sound ↔ ∀ file ∈ tree.files, tree.isDirectory file.1 = false := by
  simp only [Sound, Entries.get?, Option.map_eq_none_iff, List.find?_eq_none, beq_iff_eq]
  constructor
  · intro sound file mem
    by_contra directory
    exact sound file.1 (by simpa using directory) file mem rfl
  · intro apart place directory file mem eq
    rw [← eq, apart file mem] at directory
    contradiction

instance : Decidable tree.Sound :=
  decidable_of_iff _ sound_iff.symm

theorem sound_empty : Sound {} :=
  fun _ _ => rfl

theorem Sound.makeDirectory {result : FileTree} (sound : tree.Sound) (h : tree.makeDirectory place = .ok result) :
    result.Sound := by
  unfold FileTree.makeDirectory at h
  split at h
  · cases h
    exact sound
  · split at h
    · contradiction
    · rename_i free
      cases h
      intro other directory
      by_cases new : other = place
      · subst new
        simpa using free
      · refine sound other ?_
        simpa [isDirectory, new] using directory

theorem Sound.makeDirectories {places : List Place} {result : FileTree} (sound : tree.Sound)
    (h : places.foldlM FileTree.makeDirectory tree = .ok result) : result.Sound := by
  induction places generalizing tree with
  | nil =>
    obtain rfl := pure_eq_ok_iff.1 h
    exact sound
  | cons place rest ih =>
    obtain ⟨made, hmade, hrest⟩ := bind_eq_ok_iff.1 h
    exact ih (sound.makeDirectory hmade) hrest

theorem Sound.write {result : FileTree} (sound : tree.Sound) (h : tree.write path bytes = .ok result) :
    result.Sound := by
  obtain ⟨made, hmade, hfile⟩ := bind_eq_ok_iff.1 h
  have madeSound := sound.makeDirectories hmade
  split at hfile
  · contradiction
  · rename_i free
    obtain rfl := pure_eq_ok_iff.1 hfile
    intro place directory
    have apart : path.place ≠ place := by
      rintro rfl
      exact free directory
    rw [Entries.get?_put, if_neg (by simpa using apart)]
    exact madeSound place directory

theorem Sound.remove {result : FileTree} (sound : tree.Sound) (h : tree.remove path = .ok result) :
    result.Sound := by
  obtain ⟨_, -, hfile⟩ := bind_eq_ok_iff.1 h
  obtain rfl := pure_eq_ok_iff.1 hfile
  exact fun place directory => Entries.get?_erase_of_none (sound place directory)

/-- In a sound tree the last name of a file's path is its own. -/
theorem Sound.read_last (sound : tree.Sound) (h : tree.read path = .ok bytes) :
    ∃ last, path.place = path.parent.place ++ [last] := by
  obtain ⟨hfind, hfile⟩ := read_eq_ok_iff.1 h
  have file (directory : tree.isDirectory path.place = true) : False := by
    simp [sound path.place directory] at hfile
  obtain ⟨root, segments⟩ := path
  cases segments using List.reverseRecOn with
  | nil => exact (file rfl).elim
  | append_singleton above last =>
    obtain ⟨-, hwalk⟩ := find_eq_ok_iff.1 hfind
    rw [walk_append, bind_eq_ok_iff] at hwalk
    obtain ⟨directory, habove, hlast⟩ := hwalk
    have place_eq : (Path.mk root (above ++ [last])).place = directory.enter last := by
      rw [Path.place, List.foldl_append, walk_eq_foldl habove]
      rfl
    have parent_eq : (Path.mk root (above ++ [last])).parent.place = directory := by
      rw [Path.parent, Path.place, List.dropLast_concat, walk_eq_foldl habove]
    rw [place_eq] at file ⊢
    rw [parent_eq]
    unfold Place.enter at file ⊢
    split
    · rename_i upward
      rw [if_pos upward] at file
      exact (file (attached_nil.of_walk habove).isDirectory_parent).elim
    · exact ⟨last, rfl⟩

end Formulary.FileTree

import Formulary.Proofs.Archive.Stem
import Formulary.Proofs.Result
import Formulary.Proofs.Text.Split
import Mathlib.Data.List.DropRight

/-!
Where a version is found. Whichever way it is found, it stands in one segment of the path, behind the beginning of the
segment or a separator, perhaps with a mark between.
-/

namespace Formulary.Version

/-- What may stand in front of a version: nothing or a text that a separator ends, and a mark. -/
def Leads (lead : List Char) : Prop :=
  ∃ front mark, lead = front ++ mark ∧ mark ∈ marks ∧
    (front = [] ∨ front.getLast? = some '-' ∨ front.getLast? = some '_')

/-- A version in a text, behind something that may stand in front of it. -/
structure Holds (version text : List Char) : Prop where
  isText : IsText version
  placed : ∃ lead rest, text = lead ++ version ++ rest ∧ Leads lead

theorem Holds.of_prefix {version text whole : List Char} (h : Holds version text) (begins : text <+: whole) :
    Holds version whole := by
  obtain ⟨lead, rest, rfl, leads⟩ := h.placed
  obtain ⟨more, rfl⟩ := begins
  exact ⟨h.isText, lead, rest ++ more, by simp, leads⟩

theorem Holds.of_mark {version mark : List Char} (isText : IsText version) (marked : mark ∈ marks) :
    Holds version (mark ++ version) :=
  ⟨isText, mark, [], by simp, [], mark, rfl, marked, .inl rfl⟩

/-! Names -/

theorem inName_split {text version : List Char} (h : inName text = some version) :
    isVersion version = true ∧ ∃ front separator, ∃ mark ∈ marks,
      (separator = '-' ∨ separator = '_') ∧ text = front ++ separator :: (mark ++ version) := by
  induction text with
  | nil => contradiction
  | cons c rest ih =>
    rw [inName] at h
    split at h
    · rename_i found
      simp only [Bool.and_eq_true, Bool.or_eq_true, decide_eq_true_eq] at found
      obtain ⟨mark, marked, split⟩ := withoutMark_split rest
      obtain rfl := Option.some.inj h
      exact ⟨found.2, [], c, mark, marked, found.1, congrArg _ split⟩
    · obtain ⟨isVersion, front, separator, mark, marked, separates, rfl⟩ := ih h
      exact ⟨isVersion, c :: front, separator, mark, marked, separates, rfl⟩

theorem Holds.of_inName {text version : List Char} (h : inName text = some version) : Holds version text := by
  obtain ⟨isVersion, front, separator, mark, marked, separates, rfl⟩ := inName_split h
  refine ⟨.of_isVersion isVersion, front ++ separator :: mark, [], by simp, front ++ [separator], mark, by simp, marked,
    .inr ?_⟩
  obtain rfl | rfl := separates
  · exact .inl List.getLast?_concat
  · exact .inr List.getLast?_concat

theorem Holds.of_asName {text version : List Char} (h : asName text = some version) : Holds version text := by
  unfold asName at h
  split at h
  · rename_i isVersion
    obtain rfl := Option.some.inj h
    obtain ⟨mark, marked, split⟩ := withoutMark_split text
    have held : Holds (withoutMark text) (mark ++ withoutMark text) := .of_mark (.of_isVersion isVersion) marked
    rwa [← split] at held
  · contradiction

/-! Directories -/

theorem IsText.of_isDottedNumber {text : List Char} (h : isDottedNumber text = true) : IsText text := by
  simp only [isDottedNumber, Bool.and_eq_true, List.isEmpty_iff] at h
  obtain ⟨numbers, read, parts⟩ := afterNumbers_split false text
  rw [h.2, List.append_nil] at read
  exact ⟨h.1.1, read ▸ parts⟩

theorem directoryVersion?_eq (segment : List Char) : ∃ mark ∈ marks, ∃ number, segment = mark ++ number ∧
    directoryVersion? segment = if isDottedNumber number then some number else none := by
  by_cases mark : segment.head? = some 'v'
  · obtain ⟨rest, rfl⟩ := List.head?_eq_some_iff.1 mark
    exact ⟨['v'], by decide, rest, rfl, rfl⟩
  · refine ⟨[], .head _, segment, rfl, ?_⟩
    rw [directoryVersion?, if_neg mark]

theorem Holds.of_directoryVersion? {segment version : List Char} (h : directoryVersion? segment = some version) :
    Holds version segment := by
  obtain ⟨mark, marked, number, rfl, read⟩ := directoryVersion?_eq segment
  rw [read] at h
  split at h
  · rename_i dotted
    obtain rfl := Option.some.inj h
    exact .of_mark (.of_isDottedNumber dotted) marked
  · contradiction

/-- A slash follows the directory of a path, unless the directory is made of slashes. -/
theorem directory_split (path : List Char) :
    ∃ rest, path = directory path ++ rest ∧ (rest.head? = some '/' ∨ ∀ c ∈ directory path, c = '/') := by
  let head := path.rdropWhile (· ≠ '/')
  let name := head.rdropWhile (· = '/')
  have read : directory path = if name.isEmpty then head else name := rfl
  obtain ⟨last, whole⟩ : head <+: path := List.rdropWhile_prefix _ _
  by_cases empty : name = []
  · rw [List.isEmpty_iff.2 empty, if_pos rfl] at read
    rw [read]
    refine ⟨last, whole.symm, .inr fun c among => ?_⟩
    simpa using List.rdropWhile_eq_nil_iff.1 empty c among
  · rw [if_neg (by simpa using empty)] at read
    rw [read]
    have parted : name ++ head.rtakeWhile (· = '/') = head := List.rdropWhile_append_rtakeWhile
    have filled : head ≠ [] := by
      intro none
      exact empty (List.append_eq_nil_iff.1 (parted.trans none)).1
    have ends : head.getLast filled = '/' := by
      have last := List.rdropWhile_last_not (· ≠ '/') path filled
      rwa [decide_eq_true_eq, not_not] at last
    have slashes : head.rtakeWhile (· = '/') ≠ [] := by
      intro none
      exact List.rtakeWhile_eq_nil_iff.1 none filled (by simpa using ends)
    obtain ⟨c, more, eq⟩ := List.exists_cons_of_ne_nil slashes
    have slash : c = '/' := by
      have among : c ∈ head.rtakeWhile (· = '/') := by
        rw [eq]
        exact List.mem_cons_self
      simpa using List.mem_rtakeWhile_imp among
    refine ⟨head.rtakeWhile (· = '/') ++ last, by rw [← List.append_assoc, parted, whole], .inl ?_⟩
    rw [eq, List.cons_append, List.head?_cons, slash]

theorem isStretch_of_mem_directory {path segment : List Char} (h : segment ∈ Text.splitOn '/' (directory path))
    (filled : segment ≠ []) : Text.IsStretch '/' segment path := by
  have stretch := Text.isStretch_of_mem_splitOn h
  obtain ⟨rest, split, next | slashes⟩ := directory_split path
  · obtain ⟨more, rfl⟩ := List.head?_eq_some_iff.1 next
    rw [split]
    exact stretch.append_right more
  · -- a segment of slashes is empty
    obtain ⟨c, others, rfl⟩ := List.exists_cons_of_ne_nil filled
    obtain ⟨left, right, eq, -⟩ := stretch.placed
    have slash : c = '/' := slashes c (by simp [eq])
    exact absurd (slash ▸ List.mem_cons_self) stretch.whole

theorem archiveName_mem {path : List Char} (filled : archiveName path ≠ []) :
    archiveName path ∈ Text.splitOn '/' path := by
  have among {name : List Char} (h : name ∈ ((Text.splitOn '/' path).filter (!·.isEmpty)).reverse) :
      name ∈ Text.splitOn '/' path := (List.mem_filter.1 (List.mem_reverse.1 h)).1
  unfold archiveName at filled ⊢
  split
  · simp_all
  · rename_i last before more segments
    split
    · exact among (segments ▸ .tail _ (.head _))
    · exact among (segments ▸ .head _)
  · rename_i last segments
    exact among (segments ▸ .head _)

theorem Holds.ne_nil {version text : List Char} (h : Holds version text) : text ≠ [] := by
  obtain ⟨lead, rest, rfl, -⟩ := h.placed
  intro empty
  simp only [List.append_eq_nil_iff] at empty
  have begins := h.isText.begins
  rw [empty.1.2] at begins
  contradiction

theorem exists_segment_of_stem {path version : List Char} (h : Holds version (unended (archiveStem path))) :
    ∃ segment, Text.IsStretch '/' segment path ∧ Holds version segment := by
  have held : Holds version (archiveName path) := h.of_prefix (unended_archiveStem_isPrefix path)
  exact ⟨archiveName path, Text.isStretch_of_mem_splitOn (archiveName_mem held.ne_nil), held⟩

/-- Each of the three searches finds the version in a segment. -/
theorem ofPath_holds {path version : List Char} (h : ofPath path = some version) :
    ∃ segment, Text.IsStretch '/' segment path ∧ Holds version segment := by
  have read : ofPath path =
      (inName (unended (archiveStem path))).or ((asName (unended (archiveStem path))).or (inDirectory path)) := rfl
  rw [read, Option.or_eq_some_iff, Option.or_eq_some_iff] at h
  obtain named | ⟨-, whole | ⟨-, above⟩⟩ := h
  · exact exists_segment_of_stem (.of_inName named)
  · exact exists_segment_of_stem (.of_asName whole)
  · obtain ⟨segment, among, found⟩ := List.exists_of_findSome?_eq_some above
    have held := Holds.of_directoryVersion? found
    exact ⟨segment, isStretch_of_mem_directory (List.mem_of_mem_tail among) held.ne_nil, held⟩

/-- A version that is found stands in a segment of the URL's path, behind nothing or a separator and perhaps a mark. -/
theorem ofUrl_holds {url version : String} (h : ofUrl url = .ok (some version)) :
    ∃ path segment, Url.path url = .ok path ∧ Text.IsStretch '/' segment path ∧ Holds version.toList segment := by
  unfold ofUrl at h
  split at h
  · cases h
  · obtain ⟨path, read, named⟩ := Result.map_eq_ok_iff.1 h
    obtain ⟨found, search, rfl⟩ := Option.map_eq_some_iff.1 named
    obtain ⟨segment, stretch, held⟩ := ofPath_holds search
    rw [String.toList_ofList]
    exact ⟨path, segment, read, stretch, held⟩

theorem ofUrl_holds_escaped :
    ofUrl "https://example.org/a%2Fpkg_V%D9%A1.2-rc.3.src.tar.gz%0A/download" = .ok (some "١.2-rc.3") ∧
      ∃ path segment, Url.path "https://example.org/a%2Fpkg_V%D9%A1.2-rc.3.src.tar.gz%0A/download" = .ok path ∧
        Text.IsStretch '/' segment path ∧ Holds "١.2-rc.3".toList segment :=
  ⟨by decide +kernel, ofUrl_holds (by decide +kernel)⟩

end Formulary.Version

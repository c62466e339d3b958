import Formulary.Proofs.Archive.Scheme

/-!
Archives at a URL, below the directories of a host and perhaps with a last segment that asks for the download. Whatever
the host and the directories are called, the version of the archive is read from the URL.
-/

namespace Formulary.Version

/-- An archive where it is offered. -/
structure Release where
  origin : Url.Origin
  directories : List (List Char)
  archive : Archive
  download : Bool
  plain : ∀ directory ∈ directories, ∀ c ∈ directory, Url.IsPlain c

namespace Release

variable (release : Release)

def segments : List (List Char) :=
  release.directories ++ release.archive.name :: if release.download then ["download".toList] else []

def path : List Char :=
  release.segments.flatMap ('/' :: ·)

def url : String :=
  String.ofList (release.origin.text ++ release.path)

theorem isPlain_segment : ∀ segment ∈ release.segments, ∀ c ∈ segment, Url.IsPlain c := by
  refine List.forall_mem_append.2 ⟨release.plain, List.forall_mem_cons.2 ⟨release.archive.isPlain, ?_⟩⟩
  cases release.download with
  | false => exact nofun
  | true => exact List.forall_mem_singleton.2 (Url.isPlain_of_all (by decide))

theorem path_url : Url.path release.url = .ok release.path := by
  refine release.origin.path_append ?_ ?_
  · cases eq : release.segments with
    | nil => exact .inl (by rw [path, eq, List.flatMap_nil])
    | cons segment more => exact .inr (by rw [path, eq, List.flatMap_cons, List.cons_append, List.head?_cons])
  · intro c among
    obtain ⟨segment, segmented, among⟩ := List.mem_flatMap.1 among
    obtain rfl | among := List.mem_cons.1 among
    · exact .inl rfl
    · exact .inr (release.isPlain_segment segment segmented c among)

theorem splitOn_path : Text.splitOn '/' release.path = [] :: release.segments := by
  rw [Text.splitOn_eq, path, Text.splitOn_flatMap]
  intro segment segmented slash
  exact release.isPlain_segment segment segmented '/' slash (by decide)

theorem archiveName_path : archiveName release.path = release.archive.name := by
  obtain ⟨last, ends, digit⟩ := release.archive.getLast?_stem
  have among : last ∈ release.archive.name := List.mem_append_left _ (List.mem_of_getLast? ends)
  have filled : release.archive.name.isEmpty = false := List.isEmpty_eq_false_iff.2 (List.ne_nil_of_mem among)
  -- the name has a digit in it
  have other : release.archive.name ≠ "download".toList := by
    intro eq
    have digitless : ("download".toList.all (!isDecimal ·)) = true := by decide
    have here := List.all_eq_true.1 digitless last (eq ▸ among)
    rw [digit] at here
    contradiction
  unfold archiveName
  rw [splitOn_path, segments]
  cases release.download with
  | false =>
    have names : (([] :: (release.directories ++ [release.archive.name])).filter (!·.isEmpty)).reverse =
        release.archive.name :: (release.directories.filter (!·.isEmpty)).reverse := by simp [filled]
    rw [if_neg Bool.false_ne_true, names]
    cases (release.directories.filter (!·.isEmpty)).reverse with
    | nil => rfl
    | cons before more => exact if_neg other
  | true =>
    have names : (([] :: (release.directories ++ [release.archive.name, "download".toList])).filter (!·.isEmpty)).reverse =
        "download".toList :: release.archive.name :: (release.directories.filter (!·.isEmpty)).reverse := by
      simp [filled]
    rw [if_pos rfl, names]
    exact if_pos rfl

/-- The version of an archive is read from its URL. -/
theorem ofUrl_url : ofUrl release.url = .ok (some (String.ofList release.archive.number)) := by
  have filled : ¬release.url.isEmpty = true := by
    rw [url, String.isEmpty_iff, String.ofList_eq_empty_iff]
    simp [Url.Origin.text]
  have stem : archiveStem release.path = release.archive.stem := by
    rw [archiveStem, archiveName_path, Archive.cutEnding_name]
  have inline : '\n' ∉ release.archive.stem :=
    fun among => release.archive.isPlain _ (List.mem_append_left _ among) (by decide)
  have found : ofPath release.path = some release.archive.number := by
    rw [ofPath, stem, splitNewline_of_not_mem inline, ← Option.or_assoc, Archive.find_stem, Option.some_or]
  rw [ofUrl, if_neg filled, path_url, Except.map, found, Option.map_some]

theorem ofUrl_url_product : ∃ release : Release,
    release.url = "https://example.org/pub/2.0/llvm-project-2_rc-1.5-v15.0.7.Src.tar.XZ/download" ∧
      ofUrl release.url = .ok (some "15.0.7") := by
  let origin : Url.Origin :=
    { scheme := "https".toList
      authority := "example.org".toList
      begins := by decide
      schemeChars := by decide
      authorityChars := by decide
      brackets := by decide
      lookalikes := by decide }
  have dotted : Dotted (['1', '5'] ++ '.' :: (['0'] ++ '.' :: ['7'])) :=
    .point nofun (List.all_eq_true.1 (by decide))
      (.point nofun (List.all_eq_true.1 (by decide)) (.digits nofun (List.all_eq_true.1 (by decide))))
  let archive : Archive :=
    { front := "llvm-project-2_rc-1.5-".toList
      mark := ['v']
      number := "15.0.7".toList
      suffix := ".Src".toList
      extension := ".tar.XZ".toList
      isFront := @Front.product "llvm-project-2_rc-1.5".toList '-' (Url.isPlain_of_all (by decide)) (.inl rfl)
      marked := by decide
      dotted := dotted
      isSuffix := @Suffix.known '.' "src" "Src".toList (by decide) (by decide) (by decide)
      isExtension := @Extension.known "tar.xz" "tar.XZ".toList (by decide) (by decide) }
  let release : Release :=
    { origin, archive
      directories := ["pub".toList, "2.0".toList]
      download := true
      plain := List.forall_mem_cons.2 ⟨Url.isPlain_of_all (by decide),
        List.forall_mem_singleton.2 (Url.isPlain_of_all (by decide))⟩ }
  exact ⟨release, rfl, ofUrl_url release⟩

end Release

end Formulary.Version

import Formulary.Load
import Formulary.Proofs.Token.Extension

/-! The data section has no influence. What is read of a recipe is read of its program text alone. -/

namespace Formulary

open Result

/-- A program text with a data section behind it. -/
def withData (program data : List Char) : List Char :=
  program ++ '\n' :: ("__END__".toList ++ data)

variable {program data : List Char}

theorem data_of_line (line : ∀ c ∈ data.head?, c = '\n' ∨ c = '\r') : Seam.Data ("__END__".toList ++ data) := by
  refine .inr ?_
  cases data with
  | nil => rfl
  | cons c more => obtain rfl | rfl := line c rfl <;> rfl

theorem tokenize_withData (line : ∀ c ∈ data.head?, c = '\n' ∨ c = '\r') {pos : Position} {tokens : List Token}
    (h : tokenize (program ++ ['\n']) pos = .ok tokens) : tokenize (withData program data) pos = .ok tokens := by
  have split : withData program data = program ++ ['\n'] ++ ("__END__".toList ++ data) := by simp [withData]
  unfold tokenize at h ⊢
  rw [split]
  refine Scan.tokensWithin_append (data_of_line line) (.inr ⟨program, rfl⟩) ?_ h
  simp only [List.length_append]
  omega

theorem recordOfText_congr {rule : VersionRule} {path : Option String} {text text' : List Char}
    (same : parseRecipe text' = parseRecipe text) : recordOfText rule path text' = recordOfText rule path text := by
  unfold recordOfText
  rw [same]

/-- The data section has no influence: neither on the tokens of a program text that can be scanned, nor on its syntax
tree, nor on the record or error that comes of it. -/
theorem data_has_no_influence (line : ∀ c ∈ data.head?, c = '\n' ∨ c = '\r') :
    (∀ pos tokens, tokenize (program ++ ['\n']) pos = .ok tokens →
      tokenize (withData program data) pos = .ok tokens) ∧
    ∀ tokens, tokenize (program ++ ['\n']) .origin = .ok tokens →
      parseRecipe (withData program data) = parseRecipe (program ++ ['\n']) ∧
      (∀ rule path, recordOfText rule path (withData program data) = recordOfText rule path (program ++ ['\n'])) ∧
      ∀ bytes bytes', decodeRecipe bytes = .ok (program ++ ['\n']) →
        decodeRecipe bytes' = .ok (withData program data) →
        (∀ rule path, recordOfBytes rule path bytes' = recordOfBytes rule path bytes) ∧
        ∀ rule (tree tree' : FileTree) path, tree.read path = .ok bytes → tree'.read path = .ok bytes' →
          load rule tree' path = load rule tree path := by
  refine ⟨fun pos tokens => tokenize_withData line, fun tokens h => ?_⟩
  have parsed : parseRecipe (withData program data) = parseRecipe (program ++ ['\n']) := by
    rw [parseRecipe, parseRecipe, h, tokenize_withData line h]
  refine ⟨parsed, fun rule path => recordOfText_congr parsed, fun bytes bytes' decoded decoded' => ?_⟩
  have recorded (rule : VersionRule) (path : Option String) :
      recordOfBytes rule path bytes' = recordOfBytes rule path bytes := by
    rw [recordOfBytes, recordOfBytes, decoded, decoded']
    exact recordOfText_congr parsed
  refine ⟨recorded, fun rule tree tree' path there there' => ?_⟩
  rw [load, load, there, there']
  exact recorded rule _

/-- A tree with a single file. -/
def alone (text : String) : FileTree where
  files := [(["a.rb"], text.toUTF8.toList)]

theorem data_has_no_influence_open : ∃ record,
    load Version.ofUrl (alone "class A < Formula\nend\n") ⟨"", ["a.rb"]⟩ = .ok record ∧
      load Version.ofUrl (alone "class A < Formula\nend\n__END__\r\n'\"#\x7b<<~B\n=begin") ⟨"", ["a.rb"]⟩ =
        .ok record := by
  obtain ⟨tokens, scanned⟩ := exists_ok_of_isSome
    (by decide +kernel : (tokenize ("class A < Formula\nend".toList ++ ['\n']) .origin).toOption.isSome = true)
  obtain ⟨record, hload⟩ := exists_ok_of_isSome (by decide +kernel :
    (load Version.ofUrl (alone "class A < Formula\nend\n") ⟨"", ["a.rb"]⟩).toOption.isSome = true)
  obtain ⟨-, -, same⟩ := (@data_has_no_influence "class A < Formula\nend".toList "\r\n'\"#\x7b<<~B\n=begin".toList
    (by simp)).2 tokens scanned
  obtain ⟨-, same⟩ := same _ _
    (toOption_eq_some_iff.1 (by decide +kernel : (decodeRecipe "class A < Formula\nend\n".toUTF8.toList).toOption = _))
    (toOption_eq_some_iff.1 (by decide +kernel :
      (decodeRecipe "class A < Formula\nend\n__END__\r\n'\"#\x7b<<~B\n=begin".toUTF8.toList).toOption = _))
  exact ⟨record, hload, (same Version.ofUrl _ _ ⟨"", ["a.rb"]⟩ rfl rfl).trans hload⟩

end Formulary

import Formulary.Load
import Formulary.Proofs.Text.Split
import Formulary.Proofs.Text.Utf8

/-!
What becomes of the bytes of a recipe. If they encode a text, that text is read; if not, the error names the first byte
that no character begins with, by its line and by its place among the bytes of the line.
-/

namespace Formulary

open Text

/-- Lines, each with the newline that ends it. -/
def ended (lines : List (List UInt8)) : List UInt8 :=
  lines.flatMap (· ++ [newline])

theorem exists_ended_append (bytes : List UInt8) :
    ∃ lines last, bytes = ended lines ++ last ∧ (∀ line ∈ lines, newline ∉ line) ∧ newline ∉ last := by
  induction bytes with
  | nil => exact ⟨[], [], rfl, nofun, nofun⟩
  | cons byte rest ih =>
    obtain ⟨lines, last, rfl, unbroken, unbroken'⟩ := ih
    by_cases ends : byte = newline
    · exact ⟨[] :: lines, last, by simp [ended, ends], by simpa using unbroken, unbroken'⟩
    cases lines with
    | nil => exact ⟨[], byte :: last, rfl, nofun, by simp [Ne.symm ends, unbroken']⟩
    | cons line lines =>
      obtain ⟨unbroken, others⟩ := List.forall_mem_cons.1 unbroken
      exact ⟨(byte :: line) :: lines, last, rfl, List.forall_mem_cons.2 ⟨by simp [Ne.symm ends, unbroken], others⟩, unbroken'⟩

theorem splitOn_ended_append {lines : List (List UInt8)} (unbroken : ∀ line ∈ lines, newline ∉ line)
    (rest : List UInt8) : (ended lines ++ rest).splitOn newline = lines ++ rest.splitOn newline := by
  induction lines with
  | nil => rfl
  | cons line lines ih =>
    obtain ⟨here, others⟩ := List.forall_mem_cons.1 unbroken
    have split : ended (line :: lines) ++ rest = line ++ newline :: (ended lines ++ rest) := by simp [ended]
    rw [split, List.splitOn_append_cons_self_of_not_mem here, ih others, List.cons_append]

/-- Behind whole lines and a part of one the next byte is in the next line, behind that part. -/
theorem bytePosition_ended_append {lines : List (List UInt8)} {left : List UInt8}
    (unbroken : ∀ line ∈ lines, newline ∉ line) (unbroken' : newline ∉ left) :
    bytePosition (ended lines ++ left) = ⟨lines.length + 1, left.length + 1⟩ := by
  have breaks : (ended lines).count newline = lines.length := by
    induction lines with
    | nil => rfl
    | cons line lines ih =>
      obtain ⟨here, others⟩ := List.forall_mem_cons.1 unbroken
      have split : ended (line :: lines) = line ++ newline :: ended lines := by simp [ended]
      rw [split, List.count_append, List.count_eq_zero.2 here, List.count_cons_self, ih others]
      simp
  have before : (ended lines).reverse.takeWhile (· ≠ newline) = [] := by
    obtain rfl | ⟨front, line, rfl⟩ := lines.eq_nil_or_concat
    · rfl
    · simp [ended]
  have column : (ended lines ++ left).reverse.takeWhile (· ≠ newline) = left.reverse := by
    rw [List.reverse_append, List.takeWhile_append_of_pos, before, List.append_nil]
    intro byte among
    simpa using fun eq : byte = newline => unbroken' (eq ▸ List.mem_reverse.1 among)
  rw [bytePosition, column, List.count_append, breaks, List.count_eq_zero.2 unbroken', List.length_reverse]

theorem decodeRecipe_of_ill {text : List Char} {byte : UInt8} {rest : List UInt8}
    (ill : ∀ c, ¬String.utf8EncodeChar c <+: byte :: rest) : decodeRecipe (Utf8.encode text ++ byte :: rest) =
      .error ⟨.invalidByte byte, bytePosition (Utf8.encode text)⟩ := by
  have named : (Utf8.encode text ++ byte :: rest).getD (Utf8.encode text).length 0 = byte := by simp
  have before : (Utf8.encode text ++ byte :: rest).take (Utf8.encode text).length = Utf8.encode text := by simp
  refine Result.mapError_eq_error_iff.2 ⟨_, Utf8.decode_of_ill (List.cons_ne_nil _ _) ill, ?_⟩
  rw [named, before]

theorem hexDigits_two : ∀ n < 256, hexDigits 2 n = [Nat.digitChar (n / 16), Nat.digitChar (n % 16)] := by
  decide +kernel

theorem message_invalidByte (byte : UInt8) : (Cause.invalidByte byte).message = "Invalid UTF-8 byte 0x" ++
    String.ofList [Nat.digitChar (byte.toNat / 16), Nat.digitChar (byte.toNat % 16)] := by
  rw [← hexDigits_two byte.toNat byte.toNat_lt]
  rfl

/-- Bytes that encode a text are read as that text. Other bytes are refused, with the place of the byte at which their
longest well-formed beginning ends. -/
theorem load_decodes {rule : VersionRule} {tree : FileTree} {path : Path} {bytes : List UInt8}
    (read : tree.read path = .ok bytes) :
    (∀ text, bytes = Utf8.encode text → load rule tree path = recordOfText rule (some path.display) text) ∧
      ((∀ text, bytes ≠ Utf8.encode text) → ∃ lines left byte right more text rest,
        bytes.splitOn newline = lines ++ (left ++ byte :: right) :: more ∧
        bytes = ended lines ++ left ++ byte :: rest ∧
        ended lines ++ left = Utf8.encode text ∧
        (∀ c, ¬String.utf8EncodeChar c <+: byte :: rest) ∧
        load rule tree path = .error (.recipe ⟨some path.display,
          .malformed ⟨.invalidByte byte, ⟨lines.length + 1, left.length + 1⟩⟩⟩) ∧
        (Cause.invalidByte byte).message = "Invalid UTF-8 byte 0x" ++
          String.ofList [Nat.digitChar (byte.toNat / 16), Nat.digitChar (byte.toNat % 16)]) := by
  have loaded : load rule tree path = recordOfBytes rule (some path.display) bytes := by
    rw [load, read]
    rfl
  rw [loaded]
  refine ⟨fun text eq => ?_, fun ill => ?_⟩
  · rw [eq, recordOfBytes, decodeRecipe, Utf8.decode_encode]
    rfl
  · obtain ⟨text, rest, rfl, unreadable⟩ := Utf8.exists_encode_append bytes
    have filled : rest ≠ [] := by
      rintro rfl
      exact ill text (List.append_nil _)
    obtain ⟨byte, rest, rfl⟩ := List.exists_cons_of_ne_nil filled
    have inline : byte ≠ newline := by
      rintro rfl
      exact unreadable '\n' ⟨rest, rfl⟩
    obtain ⟨lines, left, eq, unbroken, unbroken'⟩ := exists_ended_append (Utf8.encode text)
    obtain ⟨right, more, others⟩ := List.exists_cons_of_ne_nil (List.splitOn_ne_nil newline rest)
    refine ⟨lines, left, byte, right, more, text, rest, ?_, by rw [eq], eq.symm, unreadable, ?_, ?_⟩
    · rw [eq, List.append_assoc, splitOn_ended_append unbroken, splitOn_append unbroken',
        List.splitOn_cons_eq_if_modifyHead, if_neg (by simpa using inline), others]
      rfl
    · rw [recordOfBytes, decodeRecipe_of_ill unreadable, eq, bytePosition_ended_append unbroken unbroken']
      rfl
    · exact message_invalidByte byte

/-- A file whose second line ends inside of a character, and one that spells the whole character. -/
theorem load_decodes_truncated :
    let broken : List UInt8 := [0x61, 0x0A, 0xC3, 0xA9, 0xE2, 0x82, 0x0A, 0x62]
    let whole : List UInt8 := [0xE2, 0x82, 0xAC, 0x0A]
    let tree : FileTree := { files := [(["broken.rb"], broken), (["whole.rb"], whole)] }
    tree.read ⟨"", ["whole.rb"]⟩ = .ok whole ∧ whole = Utf8.encode ['€', '\n'] ∧
      load Version.ofUrl tree ⟨"", ["whole.rb"]⟩ = recordOfText Version.ofUrl "whole.rb" ['€', '\n'] ∧
      tree.read ⟨"", ["broken.rb"]⟩ = .ok broken ∧ (∀ text, broken ≠ Utf8.encode text) ∧
      ∃ lines left byte right more text rest,
        broken.splitOn newline = lines ++ (left ++ byte :: right) :: more ∧
        broken = ended lines ++ left ++ byte :: rest ∧
        ended lines ++ left = Utf8.encode text ∧
        (∀ c, ¬String.utf8EncodeChar c <+: byte :: rest) ∧
        load Version.ofUrl tree ⟨"", ["broken.rb"]⟩ = .error (.recipe ⟨"broken.rb",
          .malformed ⟨.invalidByte byte, ⟨lines.length + 1, left.length + 1⟩⟩⟩) ∧
        (Cause.invalidByte byte).message = "Invalid UTF-8 byte 0x" ++
          String.ofList [Nat.digitChar (byte.toNat / 16), Nat.digitChar (byte.toNat % 16)] := by
  intro broken whole tree
  have there : tree.read ⟨"", ["whole.rb"]⟩ = .ok whole := by rfl
  have encoded : whole = Utf8.encode ['€', '\n'] := by rfl
  have there' : tree.read ⟨"", ["broken.rb"]⟩ = .ok broken := by rfl
  have ill : ∀ text, broken ≠ Utf8.encode text := by
    intro text eq
    have refused : Utf8.decode broken = .error 4 := by rfl
    rw [eq, Utf8.decode_encode] at refused
    contradiction
  exact ⟨there, encoded, (load_decodes there).1 _ encoded, there', ill, (load_decodes there').2 ill⟩

end Formulary

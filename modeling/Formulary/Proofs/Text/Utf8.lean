import Formulary.Proofs.Result
import Formulary.Text.Utf8

/-!
Reading the bytes of a text gives the text. The reader keeps a sequence that has begun; which bytes end it is compared
with the encoding of characters, one length of sequences after another. So reading fails exactly where no encoded
character begins.
-/

namespace Formulary.Text.Utf8

/-- The bytes of a text. -/
def encode (text : List Char) : List UInt8 :=
  text.flatMap String.utf8EncodeChar

/-- Whether bytes end a sequence so that it spells a character. -/
def Start.Spells : Start → List UInt8 → Char → Prop
  | .done found, tail, c => tail = [] ∧ c = found
  | .more pending, byte :: tail, c => ((pending.take byte.toNat).getD .bad).Spells tail c
  | _, _, _ => False

theorem toNat_bounds (c : Char) : c.toNat < 0xD800 ∨ 0xDFFF < c.toNat ∧ c.toNat < 0x110000 :=
  c.valid

theorem eq_ofNat_iff {c : Char} {value : Nat} (valid : value < 0xD800 ∨ 0xDFFF < value ∧ value < 0x110000) :
    c = Char.ofNat value ↔ c.toNat = value := by
  constructor
  · rintro rfl
    rw [Char.ofNat, dif_pos valid]
    rfl
  · rintro rfl
    exact (Char.ofNat_toNat c).symm

/-- The bytes of the character with a value. -/
def sequence (value : Nat) : List Nat :=
  if value ≤ 0x7F then [value]
  else if value ≤ 0x7FF then [0xC0 + value / 64, 0x80 + value % 64]
  else if value ≤ 0xFFFF then [0xE0 + value / 4096, 0x80 + value / 64 % 64, 0x80 + value % 64]
  else [0xF0 + value / 262144, 0x80 + value / 4096 % 64, 0x80 + value / 64 % 64, 0x80 + value % 64]

theorem sequence_cases (value : Nat) :
    value ≤ 0x7F ∧ sequence value = [value] ∨
      0x7F < value ∧ value ≤ 0x7FF ∧ sequence value = [0xC0 + value / 64, 0x80 + value % 64] ∨
      0x7FF < value ∧ value ≤ 0xFFFF ∧
        sequence value = [0xE0 + value / 4096, 0x80 + value / 64 % 64, 0x80 + value % 64] ∨
      0xFFFF < value ∧ sequence value =
        [0xF0 + value / 262144, 0x80 + value / 4096 % 64, 0x80 + value / 64 % 64, 0x80 + value % 64] := by
  grind [sequence]

theorem map_toNat_utf8EncodeChar (c : Char) : (String.utf8EncodeChar c).map UInt8.toNat = sequence c.toNat := by
  have bounds := toNat_bounds c
  have same : c.val.toNat = c.toNat := rfl
  unfold String.utf8EncodeChar sequence
  simp only [same]
  by_cases one : c.toNat ≤ 0x7F
  · simp [one]
    omega
  by_cases two : c.toNat ≤ 0x7FF
  · simp [one, two]
    omega
  by_cases three : c.toNat ≤ 0xFFFF
  · simp [one, two, three]
    omega
  · simp [one, two, three]
    omega

theorem utf8EncodeChar_eq_iff {c : Char} {bytes : List UInt8} :
    String.utf8EncodeChar c = bytes ↔ sequence c.toNat = bytes.map UInt8.toNat := by
  rw [← map_toNat_utf8EncodeChar]
  exact (List.map_inj_right fun _ _ => UInt8.toNat_inj.1).symm

/-! Sequences that have begun -/

section Begun

variable {value low high lead : Nat} {tail : List UInt8} {c : Char}

theorem not_spells_bad : ¬Start.bad.Spells tail c := by
  cases tail <;> exact id

theorem spells_last : (Start.more ⟨value, 1, low, high⟩).Spells tail c ↔
    ∃ b, tail = [b] ∧ low ≤ b.toNat ∧ b.toNat ≤ high ∧ c = Char.ofNat (value * 64 + (b.toNat - 0x80)) := by
  rcases tail with _ | ⟨byte, rest⟩
  · simp [Start.Spells]
  by_cases within : low ≤ byte.toNat ∧ byte.toNat ≤ high
  · simp [Start.Spells, Pending.take, within, and_assoc]
  · simp [Start.Spells, Pending.take, within]
    omega

theorem spells_next {lacking : Nat} : (Start.more ⟨value, lacking + 2, low, high⟩).Spells tail c ↔
    ∃ b rest, tail = b :: rest ∧ low ≤ b.toNat ∧ b.toNat ≤ high ∧
      (Start.more ⟨value * 64 + (b.toNat - 0x80), lacking + 1, 0x80, 0xBF⟩).Spells rest c := by
  rcases tail with _ | ⟨byte, rest⟩
  · simp [Start.Spells]
  by_cases within : low ≤ byte.toNat ∧ byte.toNat ≤ high
  · simp [Start.Spells, Pending.take, within, and_assoc]
  · simp [Start.Spells, Pending.take, within]
    omega

/-! Sequences by their length

A sequence spells a character if its first byte and the others are the character's bytes. Both sides are linear in the
value of the character, once the bytes are named. -/

theorem spells_one (single : lead < 0x80) :
    (Start.done (Char.ofNat lead)).Spells tail c ↔ sequence c.toNat = lead :: tail.map UInt8.toNat := by
  simp only [Start.Spells]
  constructor
  · rintro ⟨rfl, spelled⟩
    rw [eq_ofNat_iff (by omega)] at spelled
    rw [spelled, sequence, if_pos (by omega)]
    rfl
  · intro eq
    obtain ⟨_, same⟩ | ⟨_, _, same⟩ | ⟨_, _, same⟩ | ⟨_, same⟩ := sequence_cases c.toNat <;>
      obtain ⟨first, others⟩ := List.cons.inj (same.symm.trans eq)
    · exact ⟨List.map_eq_nil_iff.1 others.symm, (eq_ofNat_iff (by omega)).2 first⟩
    · omega
    · omega
    · omega

theorem spells_two (opens : 0xC2 ≤ lead ∧ lead < 0xE0) (begun : lead = 0xC0 + value) :
    (Start.more ⟨value, 1, 0x80, 0xBF⟩).Spells tail c ↔ sequence c.toNat = lead :: tail.map UInt8.toNat := by
  rw [spells_last]
  constructor
  · rintro ⟨b, rfl, least, most, spelled⟩
    rw [eq_ofNat_iff (by omega)] at spelled
    obtain ⟨_, eq⟩ | ⟨_, _, eq⟩ | ⟨_, _, eq⟩ | ⟨_, eq⟩ := sequence_cases c.toNat <;> simp [eq] <;> omega
  · intro eq
    have bounds := toNat_bounds c
    obtain ⟨_, same⟩ | ⟨_, _, same⟩ | ⟨_, _, same⟩ | ⟨_, same⟩ := sequence_cases c.toNat <;>
      obtain ⟨first, others⟩ := List.cons.inj (same.symm.trans eq)
    · omega
    · obtain ⟨b, rfl, rest⟩ := List.map_eq_singleton_iff.1 others.symm
      exact ⟨b, rfl, by omega, by omega, (eq_ofNat_iff (by omega)).2 (by omega)⟩
    · omega
    · omega

/-- The bounds of the second byte keep out values that two bytes spell, and surrogates. -/
theorem spells_three (opens : lead < 0xF0) (begun : lead = 0xE0 + value)
    (least : lead = 0xE0 ∧ low = 0xA0 ∨ lead ≠ 0xE0 ∧ low = 0x80)
    (most : lead = 0xED ∧ high = 0x9F ∨ lead ≠ 0xED ∧ high = 0xBF) :
    (Start.more ⟨value, 2, low, high⟩).Spells tail c ↔ sequence c.toNat = lead :: tail.map UInt8.toNat := by
  simp only [spells_next, Nat.reduceAdd, spells_last]
  constructor
  · rintro ⟨b, _, rfl, above, below, d, rfl, above', below', spelled⟩
    rw [eq_ofNat_iff (by omega)] at spelled
    obtain ⟨_, eq⟩ | ⟨_, _, eq⟩ | ⟨_, _, eq⟩ | ⟨_, eq⟩ := sequence_cases c.toNat <;> simp [eq] <;> omega
  · intro eq
    have bounds := toNat_bounds c
    obtain ⟨_, same⟩ | ⟨_, _, same⟩ | ⟨_, _, same⟩ | ⟨_, same⟩ := sequence_cases c.toNat <;>
      obtain ⟨first, others⟩ := List.cons.inj (same.symm.trans eq)
    · omega
    · omega
    · obtain ⟨b, rest, rfl, second, others⟩ := List.map_eq_cons_iff.1 others.symm
      obtain ⟨d, rfl, third⟩ := List.map_eq_singleton_iff.1 others
      exact ⟨b, _, rfl, by omega, by omega, d, rfl, by omega, by omega, (eq_ofNat_iff (by omega)).2 (by omega)⟩
    · omega

/-- The bounds of the second byte keep out values that three bytes spell, and those above the last code point. -/
theorem spells_four (opens : lead < 0xF5) (begun : lead = 0xF0 + value)
    (least : lead = 0xF0 ∧ low = 0x90 ∨ lead ≠ 0xF0 ∧ low = 0x80)
    (most : lead = 0xF4 ∧ high = 0x8F ∨ lead ≠ 0xF4 ∧ high = 0xBF) :
    (Start.more ⟨value, 3, low, high⟩).Spells tail c ↔ sequence c.toNat = lead :: tail.map UInt8.toNat := by
  simp only [spells_next, Nat.reduceAdd, spells_last]
  constructor
  · rintro ⟨b, _, rfl, above, below, d, _, rfl, above', below', e, rfl, above'', below'', spelled⟩
    rw [eq_ofNat_iff (by omega)] at spelled
    obtain ⟨_, eq⟩ | ⟨_, _, eq⟩ | ⟨_, _, eq⟩ | ⟨_, eq⟩ := sequence_cases c.toNat <;> simp [eq] <;> omega
  · intro eq
    have bounds := toNat_bounds c
    obtain ⟨_, same⟩ | ⟨_, _, same⟩ | ⟨_, _, same⟩ | ⟨_, same⟩ := sequence_cases c.toNat <;>
      obtain ⟨first, others⟩ := List.cons.inj (same.symm.trans eq)
    · omega
    · omega
    · omega
    · obtain ⟨b, rest, rfl, second, others⟩ := List.map_eq_cons_iff.1 others.symm
      obtain ⟨d, rest, rfl, third, others⟩ := List.map_eq_cons_iff.1 others
      obtain ⟨e, rfl, fourth⟩ := List.map_eq_singleton_iff.1 others
      exact ⟨b, _, rfl, by omega, by omega, d, _, rfl, by omega, by omega, e, rfl, by omega, by omega,
        (eq_ofNat_iff (by omega)).2 (by omega)⟩

end Begun

/-- What a first byte opens is ended by the other bytes of the characters that begin with it. -/
theorem spells_start_iff {byte : UInt8} {tail : List UInt8} {c : Char} :
    (start byte.toNat).Spells tail c ↔ String.utf8EncodeChar c = byte :: tail := by
  have bounds := toNat_bounds c
  have small := byte.toNat_lt
  rw [utf8EncodeChar_eq_iff, List.map_cons]
  generalize byte.toNat = lead at small
  have impossible (unused : 0x7F < lead ∧ lead < 0xC2 ∨ 0xF4 < lead) : sequence c.toNat ≠ lead :: tail.map UInt8.toNat := by
    intro eq
    obtain ⟨_, same⟩ | ⟨_, _, same⟩ | ⟨_, _, same⟩ | ⟨_, same⟩ := sequence_cases c.toNat <;>
      obtain ⟨first, -⟩ := List.cons.inj (same.symm.trans eq) <;> omega
  unfold start
  split
  · exact spells_one (by omega)
  split
  · exact iff_of_false not_spells_bad (impossible (by omega))
  split
  · exact spells_two (by omega) (by omega)
  split
  · exact spells_three (by omega) (by omega) (by omega) (by omega)
  split
  · exact spells_three (by omega) (by omega) (by omega) (by omega)
  split
  · exact spells_three (by omega) (by omega) (by omega) (by omega)
  split
  · exact spells_four (by omega) (by omega) (by omega) (by omega)
  split
  · exact spells_four (by omega) (by omega) (by omega) (by omega)
  split
  · exact spells_four (by omega) (by omega) (by omega) (by omega)
  · exact iff_of_false not_spells_bad (impossible (by omega))

/-! Reading on -/

/-- Reading on from where a sequence has come to. -/
def resume (begun here : Nat) : Start → List UInt8 → Except Nat (List Char)
  | .done c, rest => (decodeFrom here here none rest).map (c :: ·)
  | .more pending, rest => decodeFrom begun here (some pending) rest
  | .bad, _ => .error begun

theorem decodeFrom_none (begun here : Nat) (byte : UInt8) (rest : List UInt8) :
    decodeFrom begun here none (byte :: rest) = resume here (here + 1) (start byte.toNat) rest := by
  rw [decodeFrom]
  cases start byte.toNat <;> rfl

theorem decodeFrom_some (begun here : Nat) (pending : Pending) (byte : UInt8) (rest : List UInt8) :
    decodeFrom begun here (some pending) (byte :: rest) =
      resume begun (here + 1) ((pending.take byte.toNat).getD .bad) rest := by
  rw [decodeFrom]
  cases (pending.take byte.toNat).getD .bad <;> rfl

theorem resume_of_spells {begun here : Nat} {state : Start} {tail rest : List UInt8} {c : Char} (h : state.Spells tail c) :
    resume begun here state (tail ++ rest) =
      (decodeFrom (here + tail.length) (here + tail.length) none rest).map (c :: ·) := by
  induction tail generalizing here state with
  | nil =>
    cases state with
    | done found =>
      obtain ⟨-, rfl⟩ := h
      rfl
    | more pending => exact h.elim
    | bad => exact h.elim
  | cons byte tail ih =>
    cases state with
    | done found => cases h.1
    | more pending =>
      rw [List.cons_append, resume, decodeFrom_some, ih h, List.length_cons, Nat.add_right_comm, Nat.add_assoc]
    | bad => exact h.elim

/-- Where no bytes end the sequence it is ill-formed. -/
theorem resume_of_not_spells {begun here : Nat} {state : Start} {bytes : List UInt8}
    (h : ∀ tail c, tail <+: bytes → ¬state.Spells tail c) : resume begun here state bytes = .error begun := by
  induction bytes generalizing here state with
  | nil =>
    cases state with
    | done found => exact absurd ⟨rfl, rfl⟩ (h [] found List.nil_prefix)
    | more pending => rfl
    | bad => rfl
  | cons byte rest ih =>
    cases state with
    | done found => exact absurd ⟨rfl, rfl⟩ (h [] found List.nil_prefix)
    | more pending =>
      rw [resume, decodeFrom_some]
      exact ih fun tail c before => h (byte :: tail) c (List.cons_prefix_cons.2 ⟨rfl, before⟩)
    | bad => rfl

/-- An encoded character in front is read. -/
theorem decodeFrom_utf8EncodeChar (begun here : Nat) (c : Char) (rest : List UInt8) :
    let after := here + (String.utf8EncodeChar c).length
    decodeFrom begun here none (String.utf8EncodeChar c ++ rest) = (decodeFrom after after none rest).map (c :: ·) := by
  intro after
  obtain ⟨byte, tail, eq⟩ := List.exists_cons_of_ne_nil (String.utf8EncodeChar_ne_nil (c := c))
  have spelled : (start byte.toNat).Spells tail c := spells_start_iff.2 eq
  have length : here + 1 + tail.length = after := by
    simp only [after, eq, List.length_cons]
    omega
  rw [eq, List.cons_append, decodeFrom_none, resume_of_spells spelled, length]

/-- Where no encoded character is in front, reading fails there. -/
theorem decodeFrom_of_ill {begun here : Nat} {bytes : List UInt8} (filled : bytes ≠ [])
    (ill : ∀ c, ¬String.utf8EncodeChar c <+: bytes) : decodeFrom begun here none bytes = .error here := by
  obtain ⟨byte, rest, rfl⟩ := List.exists_cons_of_ne_nil filled
  rw [decodeFrom_none]
  refine resume_of_not_spells fun tail c before spelled => ill c ?_
  rw [spells_start_iff.1 spelled]
  exact List.cons_prefix_cons.2 ⟨rfl, before⟩

theorem decodeFrom_encode (here : Nat) (text : List Char) (rest : List UInt8) :
    let after := here + (encode text).length
    decodeFrom here here none (encode text ++ rest) = (decodeFrom after after none rest).map (text ++ ·) := by
  induction text generalizing here with
  | nil =>
    simp only [encode, List.flatMap_nil, List.nil_append, List.length_nil, Nat.add_zero]
    cases decodeFrom here here none rest <;> rfl
  | cons c text ih =>
    have split : encode (c :: text) = String.utf8EncodeChar c ++ encode text := List.flatMap_cons
    rw [split, List.append_assoc, decodeFrom_utf8EncodeChar, ih, List.length_append, ← Nat.add_assoc]
    exact Result.map_map ..

theorem decode_encode (text : List Char) : decode (encode text) = .ok text := by
  have read := decodeFrom_encode 0 text []
  simpa [decode, decodeFrom, Except.map] using read

/-- Reading fails behind the longest text that the bytes begin with, unless that is all. -/
theorem decode_of_ill {text : List Char} {rest : List UInt8} (filled : rest ≠ [])
    (ill : ∀ c, ¬String.utf8EncodeChar c <+: rest) : decode (encode text ++ rest) = .error (encode text).length := by
  rw [decode, decodeFrom_encode, decodeFrom_of_ill filled ill, Nat.zero_add]
  rfl

theorem exists_encode_append (bytes : List UInt8) :
    ∃ text rest, bytes = encode text ++ rest ∧ ∀ c, ¬String.utf8EncodeChar c <+: rest := by
  by_cases more : ∃ c, String.utf8EncodeChar c <+: bytes
  · obtain ⟨c, rest, eq⟩ := more
    obtain ⟨text, rest, rfl, ill⟩ := exists_encode_append rest
    exact ⟨c :: text, rest, by simp [encode, ← eq], ill⟩
  · exact ⟨[], bytes, rfl, not_exists.1 more⟩
termination_by bytes.length
decreasing_by
  have filled := List.length_pos_iff.2 (String.utf8EncodeChar_ne_nil (c := c))
  rw [← eq, List.length_append]
  omega

end Formulary.Text.Utf8

/-!
Reading bytes as UTF-8. A byte sequence is read one byte at a time; `Pending` says what the sequence under
way still needs. Strict reading stops at the first byte of the first ill-formed sequence, lenient reading
puts one replacement character for each longest start of a sequence that comes to nothing.
-/

namespace Formulary.Text.Utf8

/-- A sequence that has begun: its value so far, how many bytes it lacks, and the bounds of the next one. -/
structure Pending where
  value : Nat
  lacking : Nat
  low : Nat := 0x80
  high : Nat := 0xBF

inductive Start where
  | done (c : Char)
  | more (pending : Pending)
  | bad

/-- What a first byte opens. The bounds keep out longer spellings than needed, surrogates and values above
the last code point. -/
def start (byte : Nat) : Start :=
  if byte < 0x80 then .done (Char.ofNat byte)
  else if byte < 0xC2 then .bad
  else if byte < 0xE0 then .more { value := byte - 0xC0, lacking := 1 }
  else if byte = 0xE0 then .more { value := 0, lacking := 2, low := 0xA0 }
  else if byte = 0xED then .more { value := 0xD, lacking := 2, high := 0x9F }
  else if byte < 0xF0 then .more { value := byte - 0xE0, lacking := 2 }
  else if byte = 0xF0 then .more { value := 0, lacking := 3, low := 0x90 }
  else if byte < 0xF4 then .more { value := byte - 0xF0, lacking := 3 }
  else if byte = 0xF4 then .more { value := 4, lacking := 3, high := 0x8F }
  else .bad

/-- The sequence with its next byte, if the byte is within bounds. -/
def Pending.take (pending : Pending) (byte : Nat) : Option Start :=
  if pending.low ≤ byte ∧ byte ≤ pending.high then
    let value := pending.value * 64 + (byte - 0x80)
    if pending.lacking = 1 then some (.done (Char.ofNat value))
    else some (.more { value, lacking := pending.lacking - 1 })
  else none

/-- The characters from offset `here` on, or the offset of the first byte of an ill-formed sequence;
`begun` is where the sequence under way began. -/
def decodeFrom (begun here : Nat) (pending : Option Pending) : List UInt8 → Except Nat (List Char)
  | [] => if pending.isSome then .error begun else .ok []
  | byte :: rest =>
    let (begun, taken) := match pending with
      | none => (here, start byte.toNat)
      | some p => (begun, (p.take byte.toNat).getD .bad)
    match taken with
    | .done c => (decodeFrom (here + 1) (here + 1) none rest).map (c :: ·)
    | .more p => decodeFrom begun (here + 1) (some p) rest
    | .bad => .error begun

/-- The text of well-formed bytes, or the offset of the first byte of the first ill-formed sequence. -/
def decode (bytes : List UInt8) : Except Nat (List Char) :=
  decodeFrom 0 0 none bytes

def replacement : Char := Char.ofNat 0xFFFD

def lenientFrom (pending : Option Pending) : List UInt8 → List Char
  | [] => if pending.isSome then [replacement] else []
  | byte :: rest =>
    let fresh (cut : List Char) := match start byte.toNat with
      | .done c => cut ++ c :: lenientFrom none rest
      | .more p => cut ++ lenientFrom (some p) rest
      | .bad => cut ++ replacement :: lenientFrom none rest
    match pending with
    | none => fresh []
    | some p =>
      match p.take byte.toNat with
      | some (.done c) => c :: lenientFrom none rest
      | some (.more q) => lenientFrom (some q) rest
      | _ => fresh [replacement]

def decodeLenient (bytes : List UInt8) : List Char :=
  lenientFrom none bytes

end Formulary.Text.Utf8

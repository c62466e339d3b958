import Formulary.Malformed
import Formulary.Text.Blank

/-!
The bodies of literals. `readBody` finds where a body ends; `segments` splits a body into text and embedded
code. Both take `codeLength` for the extent of `#{…}`, so they agree on what is code.
-/

namespace Formulary.Literal

/-- How many characters of code stand before the brace that closes it. `depth` braces are open in the code,
`quote` is the quote of the string the code is in, and `skip` characters are escaped. Braces in strings do
not count. -/
def codeLengthFrom (skip depth : Nat) (quote : Option Char) : List Char → Option Nat
  | [] => none
  | c :: rest =>
    match skip with
    | skip + 1 => (codeLengthFrom skip depth quote rest).map (· + 1)
    | 0 =>
      if c = '\\' then (codeLengthFrom 1 depth quote rest).map (· + 1)
      else match quote with
        | some q => (codeLengthFrom 0 depth (if c = q then none else quote) rest).map (· + 1)
        | none =>
          if c = '"' ∨ c = '\'' then (codeLengthFrom 0 depth (some c) rest).map (· + 1)
          else if c = '\x7b' then (codeLengthFrom 0 (depth + 1) none rest).map (· + 1)
          else if c = '\x7d' then
            match depth with
            | 0 => some 0
            | depth + 1 => (codeLengthFrom 0 depth none rest).map (· + 1)
          else (codeLengthFrom 0 depth none rest).map (· + 1)

/-- The length of the code at the start of a text, if a brace closes it. -/
def codeLength (text : List Char) : Option Nat :=
  codeLengthFrom 0 0 none text

/-- How a literal is written: what opens and closes it, and whether code may be embedded. -/
structure Delimiters where
  opener : Option Char
  closer : Char
  embeds : Bool

def opensCode (c : Char) (rest : List Char) : Bool :=
  c = '#' && rest.head? = some '\x7b'

inductive BodyFault where
  | openLiteral
  | openCode (pos : Position)

/-- The body of a literal and what follows its closing delimiter. `skip` characters belong to an escape or to
code, `depth` nested delimiters are open, and `pos` is the place of the next character. -/
def readBody (marks : Delimiters) (skip depth : Nat) (pos : Position) :
    List Char → Except BodyFault (List Char × List Char)
  | [] => .error .openLiteral
  | c :: rest =>
    let go (skip depth : Nat) : Except BodyFault (List Char × List Char) :=
      (readBody marks skip depth (pos.after c) rest).map fun (body, after) => (c :: body, after)
    match skip with
    | skip + 1 => go skip depth
    | 0 =>
      if c = '\\' then go 1 depth
      else if marks.embeds && opensCode c rest then
        match codeLength rest.tail with
        | some length => go (length + 2) depth
        | none => .error (.openCode pos)
      else if marks.opener = some c then go 0 (depth + 1)
      else if c = marks.closer then
        match depth with
        | 0 => .ok ([], rest)
        | depth + 1 => go 0 depth
      else go 0 depth

/-- The character that an escaped character stands for in a text that embeds code. -/
def escaped (c : Char) : Char :=
  match c with
  | 'n' => '\n'
  | 't' => '\t'
  | 'r' => '\r'
  | '0' => Char.ofNat 0
  | 's' => ' '
  | 'e' => Char.ofNat 0x1B
  | 'a' => Char.ofNat 0x07
  | 'b' => Char.ofNat 0x08
  | 'f' => Char.ofNat 0x0C
  | 'v' => Char.ofNat 0x0B
  | c => c

variable {τ : Type}

def consText (c : Char) : List (Segment τ) → List (Segment τ)
  | .text value :: more => .text (String.ofList [c] ++ value) :: more
  | more => .text (String.ofList [c]) :: more

/-- The text that an escape stands for. Where no code is embedded, only a backslash and the closing delimiter
can be escaped; where it is, an escaped newline stands for nothing. -/
def unescape (embeds : Bool) (closer : Option Char) (c : Char) : List Char :=
  if embeds then (if c = '\n' then [] else [escaped c])
  else if c = '\\' ∨ some c = closer then [c]
  else ['\\', c]

/-- The body of a literal as text and code; `tokens` reads the code that begins at a place. Escapes count two
columns and code none; an escaped newline begins a line only where code can be embedded, and keeps the column. -/
def splitBody (tokens : List Char → Position → Except Malformed (List τ)) (embeds : Bool) (closer : Option Char)
    (skip : Nat) (pos : Position) : List Char → Except Malformed (List (Segment τ))
  | [] => .ok []
  | c :: rest =>
    match skip with
    | skip + 1 => splitBody tokens embeds closer skip pos rest
    | 0 =>
      if c = '\n' then
        (splitBody tokens embeds closer 0 ⟨pos.line + 1, 1⟩ rest).map (consText c)
      else
        match (if c = '\\' then rest.head? else none) with
        | some e =>
          let pos := (if embeds ∧ e = '\n' then pos.down 1 else pos).right 2
          (splitBody tokens embeds closer 1 pos rest).map ((unescape embeds closer e).foldr consText ·)
        | none =>
          if embeds && opensCode c rest then
            match codeLength rest.tail with
            | none => .error ⟨.openCode, pos⟩
            | some length => do
              let code := rest.tail.take length
              let inner ← tokens code (pos.right 2)
              let more ← splitBody tokens embeds closer (length + 2) (pos.down (code.count '\n')) rest
              return .code inner pos :: more
          else (splitBody tokens embeds closer 0 (pos.right 1) rest).map (consText c)

/-- The segments of a literal; one without text or code has a single empty text. -/
def segments (tokens : List Char → Position → Except Malformed (List τ)) (embeds : Bool) (closer : Option Char)
    (pos : Position) (body : List Char) : Except Malformed (List (Segment τ)) :=
  (splitBody tokens embeds closer 0 pos body).map fun found =>
    if found.isEmpty then [.text ""] else found

end Formulary.Literal

/-! Places in a text, counted in lines and in code points of a line, and what is left of a text from a place on. -/

namespace Formulary

structure Position where
  line : Nat := 0
  column : Nat := 0
deriving DecidableEq, Repr, Inhabited

namespace Position

def origin : Position := ⟨1, 1⟩

/-- The place after a character at this place. -/
def after (pos : Position) (c : Char) : Position :=
  if c = '\n' then ⟨pos.line + 1, 1⟩ else ⟨pos.line, pos.column + 1⟩

/-- The place after a text that begins at this place. -/
def past (pos : Position) (text : List Char) : Position :=
  text.foldl after pos

def right (pos : Position) (columns : Nat) : Position :=
  ⟨pos.line, pos.column + columns⟩

def down (pos : Position) (lines : Nat) : Position :=
  ⟨pos.line + lines, pos.column⟩

end Position

/-- What is left of a text, where it begins, and whether that is the start of a line. The text itself counts
as the start of a line. -/
structure Cursor where
  rest : List Char
  pos : Position
  fresh : Bool

namespace Cursor

def ofText (text : List Char) (pos : Position) : Cursor :=
  ⟨text, pos, true⟩

def next : Cursor → Cursor
  | ⟨c :: rest, pos, _⟩ => ⟨rest, pos.after c, c = '\n'⟩
  | ⟨[], pos, fresh⟩ => ⟨[], pos, fresh⟩

def skip : Nat → Cursor → Cursor
  | 0, cursor => cursor
  | n + 1, cursor => skip n cursor.next

/-- The cursor moved on to a suffix of what is left. -/
def moveTo (cursor : Cursor) (rest : List Char) : Cursor :=
  cursor.skip (cursor.rest.length - rest.length)

end Cursor

end Formulary

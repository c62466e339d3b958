import Formulary.Token.Heredoc
import Formulary.Token.Percent
import Formulary.Token.Spelling

/-!
From text to tokens. `step` takes one piece of layout or one token off the text; what a character means hangs
on the last token only. A heredoc's token is found before its body, so tokens and bodies are collected apart
and `plug` brings them together: the bodies come in the order of their openers.
-/

namespace Formulary.Scan

open Gap Spelling

abbrev Segments := List (Segment Token)

structure State where
  cursor : Cursor
  /-- Whether a blank stands before the next token. -/
  spaced : Bool
  last : Option (Lexeme Token)
  /-- The heredocs opened on the current line, in order. -/
  pending : List (Heredoc.Opener × Position)

structure Found where
  tokens : List Token
  bodies : List Segments
  state : State

/-! Literals -/

variable (code : List Char → Position → Except Malformed (List Token))

/-- The body between delimiters, the opening one already read. -/
def body (marks : Literal.Delimiters) (cursor : Cursor) : Except Malformed (List Char × List Char) :=
  match Literal.readBody marks 0 0 cursor.pos cursor.rest with
  | .ok found => .ok found
  | .error .openLiteral => .error ⟨.openLiteral, cursor.pos⟩
  | .error (.openCode pos) => .error ⟨.openCode, pos⟩

/-- The segments between delimiters, the opening one already read. -/
def literal (marks : Literal.Delimiters) (cursor : Cursor) : Except Malformed (Segments × List Char) := do
  let (text, rest) ← body marks cursor
  return (← Literal.segments code marks.embeds (some marks.closer) cursor.pos text, rest)

def plainText? (segments : Segments) : Option String :=
  segments.foldlM (fun text segment => match segment with
    | .text more => some (text ++ more)
    | .code _ _ => none) ""

/-- A quoted symbol, its colon and opening quote already read. -/
def quotedSymbol (quote : Char) (start : Position) (cursor : Cursor) :
    Except Malformed (Lexeme Token × List Char) := do
  let (segments, rest) ← literal code ⟨none, quote, quote = '"'⟩ cursor
  match plainText? segments with
  | some name => return (.symbol name, rest)
  | none => .error ⟨.codeInSymbol, start⟩

def afterColon (cursor : Cursor) : Except Malformed (Lexeme Token × List Char) :=
  match cursor.rest.tail with
  | ':' :: rest => .ok (.doubleColon, rest)
  | '"' :: _ => quotedSymbol code '"' cursor.pos (cursor.skip 2)
  | '\'' :: _ => quotedSymbol code '\'' cursor.pos (cursor.skip 2)
  | c :: rest =>
    if Text.isLetter c || c = '_' then
      let length := symbolLength (c :: rest)
      .ok (.symbol (String.ofList ((c :: rest).take length)), (c :: rest).drop length)
    else .ok (.colon, c :: rest)
  | [] => .ok (.colon, [])

def isFlag (c : Char) : Bool :=
  ['i', 'm', 'x', 'o', 'u', 'n', 's', 'e'].contains c

def regexp (marks : Literal.Delimiters) (cursor : Cursor) : Except Malformed (Lexeme Token × List Char) := do
  let (text, rest) ← body marks cursor
  return (.regexp (String.ofList text) (String.ofList (rest.takeWhile isFlag)), rest.dropWhile isFlag)

def wordList (text : List Char) : List String :=
  (Text.words text).map String.ofList

def percentLiteral (percent : Percent) (cursor : Cursor) : Except Malformed (Lexeme Token × List Char) := do
  if percent.kind = 'r' then regexp percent.marks cursor
  else if percent.kind = 'w' ∨ percent.kind = 'W' then
    let (text, rest) ← body percent.marks cursor
    return (.words (wordList text), rest)
  else if percent.kind = 'i' ∨ percent.kind = 'I' then
    let (text, rest) ← body percent.marks cursor
    return (.symbols (wordList text), rest)
  else
    let (segments, rest) ← literal code percent.marks cursor
    return (.string segments, rest)

/-- Whether an operand can begin here: after an operator or nothing, or as the argument of a name, with a blank
before the sign and none after it. -/
def operandExpected (state : State) : Bool :=
  match state.last with
  | none => true
  | some last =>
    !last.endsValue ||
      (last.isIdentifier && state.spaced &&
        (state.cursor.rest.tail.head?.any fun c => !([' ', '\t', '\n', '='].contains c)))

/-- A token that opens no heredoc. -/
def plainToken (state : State) (c : Char) : Except Malformed (Lexeme Token × List Char) :=
  let cursor := state.cursor
  let here (cause : Cause) : Except Malformed (Lexeme Token × List Char) := .error ⟨cause, cursor.pos⟩
  let other := (sign cursor.rest).elim (here (.unexpectedCharacter c)) .ok
  if Text.isDigit c then .ok (number cursor.rest)
  else if Text.isLetter c || c = '_' then .ok (word state.last cursor.rest)
  else if c = '@' then (instanceName cursor.rest.tail).elim (here .missingInstanceName) .ok
  else if c = '$' then (globalName cursor.rest.tail).elim (here .missingGlobalName) .ok
  else if c = '"' ∨ c = '\'' then do
    let (segments, rest) ← literal code ⟨none, c, c = '"'⟩ cursor.next
    return (.string segments, rest)
  else if c = '\x60' then do
    let (segments, rest) ← literal code ⟨none, c, true⟩ cursor.next
    return (.shell segments, rest)
  else if c = ':' then afterColon code cursor
  else if c = '/' && operandExpected state then regexp ⟨none, '/', true⟩ cursor.next
  else if c = '%' && operandExpected state then
    match Percent.read? cursor.rest.tail with
    | some percent => percentLiteral code percent (cursor.skip percent.opening)
    | none => other
  else other

def heredoc? (state : State) : Option (Heredoc.Opener × List Char) :=
  if operandExpected state then Heredoc.readOpener state.cursor.rest else none

/-! The scan -/

/-- The bodies of the pending heredocs, which follow one another, and the cursor behind them. -/
def readBodies (cursor : Cursor) : List (Heredoc.Opener × Position) → Except Malformed (List Segments × Cursor)
  | [] => .ok ([], cursor)
  | (opener, pos) :: more =>
    match Heredoc.takeBody opener [] cursor.rest with
    | none => .error ⟨.openHeredoc opener.name, pos⟩
    | some (lines, rest) => do
      let text := opener.bodyText lines
      let found ← Literal.segments code opener.embeds none ⟨cursor.pos.line, 1⟩ text
      let (bodies, cursor) ← readBodies (cursor.moveTo rest) more
      return (found :: bodies, cursor)

/-- A newline: the pending bodies are read, and a token stands for it unless it ends no statement. -/
def newline (state : State) : Except Malformed Found := do
  let (bodies, cursor) ← readBodies code state.cursor.next state.pending
  let behind := { state with cursor, spaced := true, pending := [] }
  if continuesWithDot cursor.rest || !(state.last.any (!·.isSeparator)) then return ⟨[], bodies, behind⟩
  else return ⟨[⟨.newline, state.cursor.pos, false⟩], bodies, { behind with last := some .newline }⟩

/-- The state behind a token. -/
def State.taken (state : State) (lexeme : Lexeme Token) (rest : List Char) : State :=
  { state with cursor := state.cursor.moveTo rest, spaced := false, last := some lexeme }

def token (state : State) (c : Char) : Except Malformed Found :=
  let found (lexeme : Lexeme Token) (state' : State) : Found :=
    ⟨[⟨lexeme, state.cursor.pos, state.spaced⟩], [], state'⟩
  match if c = '<' then heredoc? state else none with
  | some (opener, rest) =>
    let state' := state.taken (.string []) rest
    .ok (found (.string []) { state' with pending := state.pending ++ [(opener, state.cursor.pos)] })
  | none => do
    let (lexeme, rest) ← plainToken code state c
    return found lexeme (state.taken lexeme rest)

/-- The next piece of layout or the next token; nothing where the text or its program part ends. -/
def step (state : State) : Except Malformed (Option Found) :=
  let cursor := state.cursor
  let layout (cursor : Cursor) (spaced : Bool) : Except Malformed (Option Found) :=
    .ok (some ⟨[], [], { state with cursor, spaced }⟩)
  match cursor.rest with
  | [] => .ok none
  | c :: rest =>
    if cursor.fresh && startsWith cursor.rest "=begin" then
      match afterBlockComment true false cursor.rest with
      | some after => layout (cursor.moveTo after) state.spaced
      | none => .error ⟨.openComment, (cursor.moveTo []).pos⟩
    else if cursor.fresh && atDataMark cursor.rest then .ok none
    else if isSpace c then layout cursor.next true
    else if c = '\\' ∧ rest.head? = some '\n' then layout (cursor.skip 2) true
    else if c = '#' then layout (cursor.moveTo (cursor.rest.dropWhile (· ≠ '\n'))) state.spaced
    else if c = '\n' then (newline code state).map some
    else (token code state c).map some

/-- All tokens and heredoc bodies from a state on, in order. Every step takes at least one character, so the
length of the text bounds their number. -/
def run : Nat → State → Except Malformed (List Token × List Segments)
  | 0, state => .error ⟨.tooDeep, state.cursor.pos⟩
  | fuel + 1, state => do
    match ← step code state with
    | some found =>
      let (tokens, bodies) ← run fuel found.state
      return (found.tokens ++ tokens, found.bodies ++ bodies)
    | none =>
      match state.pending with
      | (opener, pos) :: _ => .error ⟨.openHeredoc opener.name, pos⟩
      | [] => return ([⟨.endOfText, state.cursor.pos, true⟩], [])

/-- The tokens with each heredoc's body in its place. A string without segments stands for a body. -/
def plug : List Token → List Segments → List Token
  | ⟨.string [], pos, spaced⟩ :: tokens, found :: bodies => ⟨.string found, pos, spaced⟩ :: plug tokens bodies
  | token :: tokens, bodies => token :: plug tokens bodies
  | [], _ => []

/-- The tokens of a text that begins at a place, with code nested at most `depth` deep. -/
def tokensWithin : Nat → List Char → Position → Except Malformed (List Token)
  | 0, _, pos => .error ⟨.tooDeep, pos⟩
  | depth + 1, text, pos => do
    let (tokens, bodies) ←
      run (tokensWithin depth) (text.length + 1) ⟨Cursor.ofText text pos, true, none, []⟩
    return plug tokens bodies

end Scan

/-- The tokens of a text that begins at a place; the last one is the end of the text. Code in a text is shorter
than the text, so its length bounds how deep code is nested. -/
def tokenize (text : List Char) (pos : Position) : Except Malformed (List Token) :=
  Scan.tokensWithin (text.length + 1) text pos

end Formulary

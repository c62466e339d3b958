import Formulary.Archive.Url
import Formulary.Text.Numeral

/-!
The version that the URL of an archive carries: at the end of the archive's name, as the whole name, or as a
directory. Letters are compared without regard to case.
-/

namespace Formulary.Version

/-- The small letter that a character is compared as. Four characters outside ASCII count as letters. -/
def fold (c : Char) : Char :=
  if c = Char.ofNat 0x130 ∨ c = Char.ofNat 0x131 then 'i'
  else if c = Char.ofNat 0x17F then 's'
  else if c = Char.ofNat 0x212A then 'k'
  else c.toLower

def foldsTo (word : String) (text : List Char) : Bool :=
  text.map fold = word.toList

def isFoldedLetter (c : Char) : Bool :=
  'a' ≤ fold c && fold c ≤ 'z'

def isDecimal (c : Char) : Bool :=
  (Text.decimalValue? c).isSome

def archiveExtensions : List String :=
  ["tar.gz", "tar.bz2", "tar.xz", "tar.lz", "tar.lzma", "tar.zst", "tar.z", "tgz", "tbz", "tbz2", "txz",
   "tlz", "zip", "gz", "bz2", "xz", "7z", "rar", "dmg", "pkg", "jar", "deb", "rpm", "gem", "crate", "tar"]

def sourceSuffixes : List String :=
  ["src", "source", "sources", "orig", "dist", "stable", "release"]

/-- The text up to the first character from `starts` that begins an ending. -/
def cutFrom (starts : List Char) (endings : List String) : List Char → List Char
  | [] => []
  | c :: rest =>
    if starts.contains c && endings.any (foldsTo · rest) then [] else c :: cutFrom starts endings rest

/-- A final newline does not count as part of a name. -/
def splitNewline (text : List Char) : List Char × List Char :=
  if text.getLast? = some '\n' then (text.dropLast, ['\n']) else (text, [])

def cutEnding (starts : List Char) (endings : List String) (text : List Char) : List Char :=
  let (name, newline) := splitNewline text
  cutFrom starts endings name ++ newline

/-- The name of the archive: the last segment of the path, or the one before a final `download`. -/
def archiveName (path : List Char) : List Char :=
  match ((Text.splitOn '/' path).filter (!·.isEmpty)).reverse with
  | [] => []
  | last :: before :: _ => if last = "download".toList then before else last
  | [last] => last

def archiveStem (path : List Char) : List Char :=
  cutEnding ['-', '_', '.'] sourceSuffixes (cutEnding ['.'] archiveExtensions (archiveName path))

/-- What follows the numbers that begin a text: digits, and points with digits after them. -/
def afterNumbers (pointed : Bool) : List Char → List Char
  | [] => []
  | c :: rest =>
    if isDecimal c then afterNumbers false rest
    else if !pointed && c = '.' && rest.head?.any isDecimal then afterNumbers true rest
    else c :: rest

def isLetterOrNothing : List Char → Bool
  | [] => true
  | [c] => isFoldedLetter c
  | _ => false

def tagWords : List String :=
  ["alpha", "beta", "rc", "pre", "a", "b", "p"]

def dropOne (chars : List Char) : List Char → List Char
  | [] => []
  | c :: rest => if chars.contains c then rest else c :: rest

def isAfterTag (word : String) (text : List Char) : Bool :=
  let length := word.toList.length
  foldsTo word (text.take length) &&
    isLetterOrNothing ((dropOne ['.'] (text.drop length)).dropWhile isDecimal)

/-- A version: numbers, an optional pre-release tag, an optional letter. -/
def isVersion (text : List Char) : Bool :=
  text.head?.any isDecimal &&
    let suffix := afterNumbers false text
    isLetterOrNothing suffix || tagWords.any (isAfterTag · (dropOne ['-', '_', '.'] suffix))

def withoutMark : List Char → List Char
  | [] => []
  | c :: rest => if fold c = 'v' then rest else c :: rest

/-- The version behind the first hyphen or underscore that a version follows. -/
def inName : List Char → Option (List Char)
  | [] => none
  | c :: rest =>
    if (c = '-' || c = '_') && isVersion (withoutMark rest) then some (withoutMark rest) else inName rest

def asName (name : List Char) : Option (List Char) :=
  if isVersion (withoutMark name) then some (withoutMark name) else none

/-- The path up to its last slash, without slashes at the end unless there is nothing else. -/
def directory (path : List Char) : List Char :=
  let head := (path.reverse.dropWhile (· ≠ '/')).reverse
  let name := (head.reverse.dropWhile (· = '/')).reverse
  if name.isEmpty then head else name

/-- At least two numbers with points between them. -/
def isDottedNumber (text : List Char) : Bool :=
  text.head?.any isDecimal && text.contains '.' && (afterNumbers false text).isEmpty

def directoryVersion? (segment : List Char) : Option (List Char) :=
  let number := if segment.head? = some 'v' then segment.tail else segment
  if isDottedNumber number then some number else none

/-- The first directory that is a dotted number; one without a slash before it does not count. -/
def inDirectory (path : List Char) : Option (List Char) :=
  (Text.splitOn '/' (directory path)).tail.findSome? directoryVersion?

def ofPath (path : List Char) : Option (List Char) :=
  let stem := (splitNewline (archiveStem path)).1
  (inName stem).or ((asName stem).or (inDirectory path))

/-- The version in a URL, if there is one. -/
def ofUrl (url : String) : Except UrlFault (Option String) :=
  if url.isEmpty then .ok none
  else (Url.path url).map fun path => (ofPath path).map String.ofList

end Formulary.Version

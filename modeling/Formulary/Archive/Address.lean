import Formulary.Text.Split

/-! The numeric addresses that may stand in brackets in a URL. -/

namespace Formulary.Address

def isHexDigit (c : Char) : Bool :=
  c.isDigit || ('a' ≤ c && c ≤ 'f') || ('A' ≤ c && c ≤ 'F')

def decimal (digits : List Char) : Nat :=
  digits.foldl (fun value c => value * 10 + (c.toNat - 48)) 0

/-- A number up to 255 in decimal, without leading zeros. -/
def isOctet (text : List Char) : Bool :=
  !text.isEmpty && text.all Char.isDigit && text.length ≤ 3 &&
    (text = ['0'] || text.head? ≠ some '0') && decimal text ≤ 255

def isVersion4 (text : List Char) : Bool :=
  let octets := Text.splitOn '.' text
  octets.length = 4 && octets.all isOctet

def isGroup (text : List Char) : Bool :=
  !text.isEmpty && text.length ≤ 4 && text.all isHexDigit

/-- The groups with a final dotted part counted as two groups, if that part is well formed. -/
def expandDotted (groups : List (List Char)) : Option (List (List Char)) :=
  match groups.getLast? with
  | some last =>
    if last.contains '.' then
      if isVersion4 last then some (groups.dropLast ++ [['0'], ['0']]) else none
    else some groups
  | none => some groups

/-- The places of empty groups that are neither first nor last. -/
def innerGaps (groups : List (List Char)) : List Nat :=
  (List.range groups.length).filter fun i =>
    0 < i && i + 1 < groups.length && (groups[i]?.any List.isEmpty)

/-- Groups before and after a double colon; an empty group at an end is part of the double colon. -/
def shortened (before after : List (List Char)) : Bool :=
  let front := if before = [[]] then [] else before
  let back := if after = [[]] then [] else after
  front.length + back.length < 8 && front.all isGroup && back.all isGroup

def isGroupList (groups : List (List Char)) : Bool :=
  match innerGaps groups with
  | [] => groups.length = 8 && groups.all isGroup
  | [i] => shortened (groups.take i) (groups.drop (i + 1))
  | _ => false

/-- An address of eight groups, of which a double colon may leave out a run of zeros, with an optional zone
after a percent sign. -/
def isVersion6 (text : List Char) : Bool :=
  let address := text.takeWhile (· ≠ '%')
  let zone := text.drop (address.length + 1)
  let zoned := address.length < text.length
  let groups := Text.splitOn ':' address
  (!zoned || (!zone.isEmpty && !zone.contains '%')) && 3 ≤ groups.length &&
    match expandDotted groups with
    | some groups => groups.length ≤ 9 && isGroupList groups
    | none => false

/-- An address of a version to come: `v`, its number in hexadecimal, a dot and some text on one line. -/
def isFuture (text : List Char) : Bool :=
  match text with
  | 'v' :: rest =>
    let version := rest.takeWhile isHexDigit
    match rest.drop version.length with
    | '.' :: tail => !version.isEmpty && !tail.isEmpty && !tail.contains '\n'
    | _ => false
  | _ => false

end Formulary.Address

import Formulary.Archive.Address
import Formulary.Text.Quoted
import Formulary.Text.Utf8

/-! The path of a URL, with its percent signs resolved. -/

namespace Formulary

inductive UrlFault where
  | brackets
  | futureAddress
  | shortAddress
  | address (host : String)
  | authority (text : String)
deriving DecidableEq

def UrlFault.message : UrlFault → String
  | brackets => "Invalid IPv6 URL"
  | futureAddress => "IPvFuture address is invalid"
  | shortAddress => "An IPv4 address cannot be in brackets"
  | address host => Text.quoted host ++ " does not appear to be an IPv4 or IPv6 address"
  | authority text => s!"netloc '{text}' contains invalid characters under NFKC normalization"

namespace Url

def isControlOrSpace (c : Char) : Bool :=
  c.toNat ≤ 0x20

/-- The text of a URL as it is read: nothing invisible in front, and no tabs or line ends anywhere. -/
def cleaned (url : List Char) : List Char :=
  (url.dropWhile isControlOrSpace).filter fun c => c ≠ '\t' && c ≠ '\r' && c ≠ '\n'

def isSchemeChar (c : Char) : Bool :=
  c.isAlphanum || c = '+' || c = '-' || c = '.'

def withoutScheme (url : List Char) : List Char :=
  let scheme := url.takeWhile (· ≠ ':')
  if scheme.length < url.length && scheme.head?.any Char.isAlpha && scheme.all isSchemeChar then
    url.drop (scheme.length + 1)
  else url

def endsAuthority (c : Char) : Bool :=
  c = '/' || c = '?' || c = '#'

/-- Characters that normalization turns into text with a delimiter of URLs in it. -/
def delimiterLookalikes : List Nat :=
  [0x2047, 0x2048, 0x2049, 0x2100, 0x2101, 0x2105, 0x2106, 0x2A74, 0xFE13, 0xFE16, 0xFE55, 0xFE56, 0xFE5F,
   0xFE6B, 0xFF03, 0xFF0F, 0xFF1A, 0xFF1F, 0xFF20]

def checkHost (host : List Char) : Except UrlFault Unit :=
  if host.head? = some 'v' then (if Address.isFuture host then .ok () else .error .futureAddress)
  else if Address.isVersion4 host then .error .shortAddress
  else if Address.isVersion6 host then .ok ()
  else .error (.address (String.ofList host))

/-- What follows the last `@` of an authority; the user stands before it. -/
def withoutUser (authority : List Char) : List Char :=
  (authority.reverse.takeWhile (· ≠ '@')).reverse

/-- The host of an authority with brackets in it. A bracketed host has nothing before it, and a colon or nothing after
it; if all opening brackets belong to the user, the host ends at its colon. -/
def bracketedHost (authority : List Char) : Except UrlFault (List Char) :=
  match withoutUser authority with
  | '[' :: rest =>
    let host := rest.takeWhile (· ≠ ']')
    let tail := rest.drop (host.length + 1)
    if tail.isEmpty || tail.head? = some ':' then .ok host else .error .brackets
  | text => if text.contains '[' then .error .brackets else .ok (text.takeWhile (· ≠ ':'))

/-- Brackets of both kinds or none; with brackets the host must be an address. -/
def checkBrackets (authority : List Char) : Except UrlFault Unit :=
  match authority.contains '[', authority.contains ']' with
  | false, false => .ok ()
  | true, true => bracketedHost authority >>= checkHost
  | _, _ => .error .brackets

def checkLookalikes (authority : List Char) : Except UrlFault Unit :=
  if authority.any fun c => delimiterLookalikes.contains c.toNat then .error (.authority (String.ofList authority))
  else .ok ()

/-- What follows scheme and authority, up to the query or the fragment. -/
def rawPath (url : String) : Except UrlFault (List Char) := do
  let rest := withoutScheme (cleaned url.toList)
  match rest with
  | '/' :: '/' :: tail =>
    let authority := tail.takeWhile (!endsAuthority ·)
    checkBrackets authority
    checkLookalikes authority
    return (tail.drop authority.length).takeWhile fun c => c ≠ '#' && c ≠ '?'
  | _ => return rest.takeWhile fun c => c ≠ '#' && c ≠ '?'

def hexValue (c : Char) : Nat :=
  if c.isDigit then c.toNat - '0'.toNat
  else if c.isUpper then c.toNat - 'A'.toNat + 10
  else c.toNat - 'a'.toNat + 10

/-- The text with its escapes read as UTF-8; `run` holds the bytes of the ASCII text before it, in reverse. -/
def unescapeFrom (run : List UInt8) : List Char → List Char
  | [] => Text.Utf8.decodeLenient run.reverse
  | '%' :: a :: b :: rest =>
    if Address.isHexDigit a && Address.isHexDigit b then
      unescapeFrom (UInt8.ofNat (hexValue a * 16 + hexValue b) :: run) rest
    else unescapeFrom (UInt8.ofNat '%'.toNat :: run) (a :: b :: rest)
  | c :: rest =>
    if Text.isAscii c then unescapeFrom (UInt8.ofNat c.toNat :: run) rest
    else Text.Utf8.decodeLenient run.reverse ++ c :: unescapeFrom [] rest

def unescape (text : List Char) : List Char :=
  unescapeFrom [] text

/-- The path of a URL. -/
def path (url : String) : Except UrlFault (List Char) :=
  (rawPath url).map unescape

end Url

end Formulary

/-!
Method names as plain identifiers. A final question or exclamation mark becomes a suffix, and a plain name that
already ends like an encoded one gets a suffix of its own.
-/

namespace Formulary.MethodName

def querySuffix : List Char := ['_', '_', 'q']

def bangSuffix : List Char := ['_', '_', 'b']

def escapeSuffix : List Char := ['_', '_', 'e']

/-- Whether a name ends in one of the three suffixes. -/
def looksEncoded (name : List Char) : Bool :=
  querySuffix.isSuffixOf name || bangSuffix.isSuffixOf name || escapeSuffix.isSuffixOf name

def encodeChars (name : List Char) : List Char :=
  if name.getLast? = some '?' then name.dropLast ++ querySuffix
  else if name.getLast? = some '!' then name.dropLast ++ bangSuffix
  else if looksEncoded name then name ++ escapeSuffix
  else name

def withoutSuffix (name : List Char) : List Char :=
  name.take (name.length - 3)

def decodeChars (name : List Char) : List Char :=
  if escapeSuffix.isSuffixOf name then withoutSuffix name
  else if querySuffix.isSuffixOf name then withoutSuffix name ++ ['?']
  else if bangSuffix.isSuffixOf name then withoutSuffix name ++ ['!']
  else name

def encode (name : String) : String :=
  String.ofList (encodeChars name.toList)

def decode (name : String) : String :=
  String.ofList (decodeChars name.toList)

end Formulary.MethodName

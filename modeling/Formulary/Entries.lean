/-! Maps as lists of entries in the order in which their keys first came. -/

namespace Formulary

abbrev Entries (κ α : Type) := List (κ × α)

namespace Entries

variable {κ α : Type} [BEq κ]

/-- The entries with a value at a key. A key that is there already stays as it is, in its place. -/
def put (key : κ) (value : α) : Entries κ α → Entries κ α
  | [] => [(key, value)]
  | (other, old) :: rest =>
    if other == key then (other, value) :: rest else (other, old) :: put key value rest

def get? (key : κ) (entries : Entries κ α) : Option α :=
  (entries.find? (·.1 == key)).map (·.2)

def erase (key : κ) (entries : Entries κ α) : Entries κ α :=
  entries.filter (!·.1 == key)

def keys (entries : Entries κ α) : List κ :=
  entries.map (·.1)

/-- The entries after pairs were put in one after another. -/
def putAll (pairs : List (κ × α)) (entries : Entries κ α) : Entries κ α :=
  pairs.foldl (fun entries pair => entries.put pair.1 pair.2) entries

def ofList (pairs : List (κ × α)) : Entries κ α :=
  putAll pairs []

end Entries

end Formulary

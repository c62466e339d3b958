namespace Formulary.Text

/-- The stretches of a text between separators; there is one more of them than separators. -/
def splitOn (separator : Char) : List Char → List (List Char)
  | [] => [[]]
  | c :: rest =>
    if c = separator then [] :: splitOn separator rest
    else match splitOn separator rest with
      | [] => [[c]]
      | stretch :: more => (c :: stretch) :: more

def isAscii (c : Char) : Bool :=
  c.toNat < 128

end Formulary.Text

import Formulary.Dependency
import Formulary.Instruction

/-! The machine-readable form of a recipe. -/

namespace Formulary

/-- Where prebuilt packages are, with a checksum for each platform. -/
structure Bottle where
  cellar : Option String := none
  rebuild : Option Int := none
  rootUrl : Option String := none
  releases : Entries String String := []
  cellars : Entries String String := []
deriving DecidableEq, Repr

/-- A checksum of a platform, with the cellar that its package needs. -/
structure Release where
  platform : String
  checksum : String
  cellar : Option String := none
deriving DecidableEq, Repr

def Bottle.release (bottle : Bottle) (release : Release) : Bottle :=
  { bottle with
    releases := bottle.releases.put release.platform release.checksum
    cellars := match release.cellar with
      | some cellar => bottle.cellars.put release.platform cellar
      | none => bottle.cellars }

/-- A source that stands beside or in place of a recipe's own. -/
structure Source where
  url : String
  sha256 : Option String := none
  dependencies : Option Dependencies := none
deriving DecidableEq, Repr

structure Record where
  name : String
  desc : Option String := none
  homepage : Option String := none
  url : Option String := none
  sha256 : Option String := none
  version : Option String := none
  revision : Option Int := none
  rebuild : Option Int := none
  bottle : Option Bottle := none
  head : Option Source := none
  stable : Option Source := none
  dependencies : Dependencies := []
  install : Option (List Instruction) := none

end Formulary

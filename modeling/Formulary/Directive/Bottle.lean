import Formulary.Directive.Arguments
import Formulary.Record

/-! The directives of a block that describes prebuilt packages. -/

namespace Formulary

inductive BottleLine where
  | cellar (text : String)
  | rebuild (number : Int)
  | rootUrl (url : String)
  | releases (releases : List Release)

def Bottle.apply (bottle : Bottle) : BottleLine → Bottle
  | .cellar text => { bottle with cellar := some text }
  | .rebuild number => { bottle with rebuild := some number }
  | .rootUrl url => { bottle with rootUrl := some url }
  | .releases releases => releases.foldl Bottle.release bottle

namespace Directive

def cellarKey : Scalar :=
  .symbol "cellar"

/-- The cellar that goes with the checksums of the same line. -/
def cellarOf (entries : Entries Scalar Value) : Option String :=
  (entries.get? cellarKey).bind fun value => if value.isNil then none else some value.plain

/-- A checksum and a platform in either order; the platform is a symbol and the checksum a string. -/
def release? (cellar : Option String) (key : Scalar) (value : Value) : Option Release :=
  match key, value with
  | .string checksum, .scalar (.symbol platform) => some ⟨platform, checksum, cellar⟩
  | .symbol platform, .scalar (.string checksum) => some ⟨platform, checksum, cellar⟩
  | _, _ => none

def releasesOf (directive : Directive) (cellar : Option String) :
    List (Scalar × Value) → Except DirectiveError (List Release)
  | [] => return []
  | (key, value) :: rest =>
    match release? cellar key value with
    | some release => return release :: (← directive.releasesOf cellar rest)
    | none => directive.refuse (.checksumEntry key value)

def releases (directive : Directive) : Except DirectiveError (List Release) := do
  match ← directive.arguments with
  | [.hash entries] => directive.releasesOf (cellarOf entries) (Entries.erase cellarKey entries)
  | _ => directive.refuse .notChecksums

def bottleLine (directive : Directive) : Except DirectiveError BottleLine :=
  match directive.name with
  | "cellar" => return .cellar (← directive.string { symbol := true })
  | "rebuild" => return .rebuild (← directive.int)
  | "root_url" => return .rootUrl (← directive.string { options := true })
  | "sha256" => return .releases (← directive.releases)
  | _ => directive.unknown

/-- Whether the arguments say that there are no packages because none are needed. -/
def saysUnneeded : List Value → Bool
  | [value] => value.text? = some "unneeded"
  | _ => false

/-- The packages of a block, or nothing where none are needed. -/
def bottle (directive : Directive) : Except DirectiveError (Option Bottle) :=
  match directive.block with
  | some body => return some ((← ofBody bottleLine body).foldl Bottle.apply {})
  | none => do
    if saysUnneeded (← directive.arguments) then return none else directive.refuse .noBlock

end Directive

end Formulary

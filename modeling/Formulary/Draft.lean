import Formulary.Archive.Url
import Formulary.Record

/-!
What the directives of a recipe say, before the rules that tie fields to one another are applied: a stable source
takes the place of the recipe's own, a recipe with nothing but a head is built from that, and an undeclared
version is derived from the URL.
-/

namespace Formulary

structure SourceDraft where
  url : Option String := none
  sha256 : Option String := none
  dependencies : Dependencies := []
deriving DecidableEq, Repr

/-- The source, if it has a URL. -/
def SourceDraft.source? (draft : SourceDraft) : Option Source :=
  draft.url.map fun url =>
    { url, sha256 := draft.sha256, dependencies := if draft.dependencies.isEmpty then none else draft.dependencies }

structure Draft where
  name : String
  desc : Option String := none
  homepage : Option String := none
  url : Option String := none
  sha256 : Option String := none
  version : Option String := none
  revision : Option Int := none
  dependencies : Dependencies := []
  bottle : Option Bottle := none
  head : Option Source := none
  stable : Option Source := none
deriving DecidableEq, Repr

/-- How a version is derived from a URL. -/
abbrev VersionRule := String → Except UrlFault (Option String)

def VersionRule.declaredOnly : VersionRule :=
  fun _ => .ok none

namespace Draft

/-- The URL of the recipe's own source or of the stable one. -/
def releaseUrl (draft : Draft) : Option String :=
  draft.stable.elim draft.url fun stable => some stable.url

def releaseChecksum (draft : Draft) : Option String :=
  draft.stable.elim draft.sha256 (·.sha256)

/-- Whether a head is all there is. -/
def headOnly (draft : Draft) : Bool :=
  draft.releaseUrl.isNone && draft.head.isSome

def sourceUrl (draft : Draft) : Option String :=
  draft.releaseUrl.or (draft.head.map (·.url))

def versionBy (rule : VersionRule) (draft : Draft) : Except UrlFault (Option String) :=
  match draft.version with
  | some version => .ok (some version)
  | none =>
    if draft.headOnly then .ok (some "HEAD")
    else draft.releaseUrl.elim (.ok none) rule

def record (rule : VersionRule) (draft : Draft) (install : Option (List Instruction)) :
    Except UrlFault Record := do
  let version ← draft.versionBy rule
  return {
    name := draft.name
    desc := draft.desc
    homepage := draft.homepage
    url := draft.sourceUrl
    sha256 := draft.releaseChecksum
    version
    revision := draft.revision
    rebuild := draft.bottle.bind (·.rebuild)
    bottle := draft.bottle
    head := draft.head
    stable := draft.stable
    dependencies := draft.dependencies
    install }

end Draft

end Formulary

import Formulary.Directive.DependsOn
import Formulary.Draft

/-! The directives of a block that describes a head or a stable source. -/

namespace Formulary

inductive SourceLine where
  | url (text : String)
  | sha256 (text : String)
  | dependencies (declared : List (DependencyKind × String))
  | nothing

def SourceDraft.apply (draft : SourceDraft) : SourceLine → SourceDraft
  | .url text => { draft with url := some text }
  | .sha256 text => { draft with sha256 := some text }
  | .dependencies declared => { draft with dependencies := draft.dependencies.addAll declared }
  | .nothing => draft

namespace Directive

def sourceLine (directive : Directive) : Except DirectiveError SourceLine :=
  match directive.name with
  | "url" => return .url (← directive.string { options := true })
  | "sha256" => return .sha256 (← directive.string)
  | "depends_on" => return .dependencies (← directive.dependencies)
  | "mirror" | "patch" | "resource" => return .nothing
  | _ => directive.unknown

def sourceBlock (body : List Node) : Except DirectiveError SourceDraft :=
  return (← ofBody sourceLine body).foldl SourceDraft.apply {}

/-- A draft as a source; the kind of source is what an error names. -/
def requireUrl (kind : String) (draft : SourceDraft) : Except DirectiveError Source :=
  match draft.source? with
  | some source => .ok source
  | none => .error (.invalid kind .noUrl none)

/-- A head, whose URL may stand in the block or be the argument. The argument counts if there is one. -/
def head (directive : Directive) : Except DirectiveError Source := do
  let draft ← match directive.block with
    | some body => sourceBlock body
    | none => .ok {}
  if directive.args.isEmpty then requireUrl "head" draft
  else requireUrl "head" { draft with url := some (← directive.string { options := true }) }

def stable (directive : Directive) : Except DirectiveError Source :=
  match directive.block with
  | some body => do requireUrl "stable" (← sourceBlock body)
  | none => directive.refuse .noBlock

end Directive

end Formulary

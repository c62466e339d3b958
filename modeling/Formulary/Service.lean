import Formulary.Closure
import Formulary.Instruction.Layout

/-! The two requests that can be made about the recipes of a directory. -/

namespace Formulary

/-- The answer to a request: what was asked for, a refusal with its status, or an error that no status covers. -/
inductive Response (α : Type) where
  | answer (body : α)
  | refusal (status : Nat) (detail : String)
  | failure (error : LoadError)

structure ClosureAnswer where
  root : String
  formulas : Records

structure InstallAnswer where
  name : String
  install : Option (List Instruction)
  text : Option String

def Record.installText (record : Record) : Option String :=
  record.install.map fun instructions => Layout.instructions instructions 0

namespace Service

variable {α : Type}

def notFound : Nat := 404

def unprocessable : Nat := 422

/-- Whether a name can be the name of a formula: a plain file name that is not hidden. -/
def isFormulaName (name : String) : Bool :=
  !name.isEmpty && !name.toList.contains '/' && name.toList.head? != some '.'

def recipePath (root : Path) (name : String) : Path :=
  root.join (name ++ ".rb")

/-- The file of a formula, if there is one. -/
def findRecipe (tree : FileTree) (root : Path) (name : String) : Option Path :=
  if isFormulaName name && tree.isFile (recipePath root name) then some (recipePath root name) else none

def refuseName (name : String) : Response α :=
  .refusal notFound s!"Formula not found: {name}"

def ofError : LoadError → Response α
  | .recipe failure =>
    match failure.defect with
    | .missingDependency _ _ => .refusal notFound failure.message
    | _ => .refusal unprocessable failure.message
  | error => .failure error

/-- A formula with its closure. -/
def formula (tree : FileTree) (root : Path) (name : String) : Response ClosureAnswer :=
  match findRecipe tree root name with
  | none => refuseName name
  | some path =>
    match ({} : Resolver).resolve tree path [] with
    | { records, error := none } => .answer ⟨name, records⟩
    | { error := some error, .. } => ofError error

/-- The install method of a formula. -/
def install (tree : FileTree) (root : Path) (name : String) : Response InstallAnswer :=
  match findRecipe tree root name with
  | none => refuseName name
  | some path =>
    match load Version.ofUrl tree path with
    | .ok record => .answer ⟨record.name, record.install, record.installText⟩
    | .error error => ofError error

end Service

end Formulary

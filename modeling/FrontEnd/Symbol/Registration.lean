import FrontEnd.Config
import FrontEnd.Program.Decl
import FrontEnd.Symbol.Tree

/-!
# Registering declarations

Every declaration of a file makes a claim: a top-level declaration below the module of the file, and
type parameters, fields, methods and inner structures below the declaration they stand in. The
claims of a file are a list in the order in which they are made (`File.claims`), and registering the
file declares them one after another; the first that is not compatible ends it.
-/

namespace FrontEnd

/-- **A claim on a path below a module.** -/
structure Registration where
  path : Path
  claim : Claim
deriving DecidableEq, Repr

namespace Registration

/-- The claims of type parameters below the declaration that has them. -/
def ofParameters (owner : Path) (parameters : List TypeParameter) : List Registration :=
  parameters.map fun p => ⟨owner ++ [p.name], .declared .typeParameter p.span.start 0⟩

/-- The claims of fields below their structure. -/
def ofFields (owner : Path) (fields : List Field) : List Registration :=
  fields.map fun f => ⟨owner ++ [f.name], .declared .structField f.span.start 0⟩

mutual
/-- **The claims of a structure**: its own, its type parameters, its fields, its structures. -/
def ofStruct (owner : Path) : StructDecl → List Registration
  | ⟨_, name, parameters, _, fields, inner, span⟩ =>
    let path := owner ++ [name]
    ⟨path, .declared .struct span.start parameters.length⟩ ::
      (ofParameters path parameters ++ ofFields path fields ++ ofStructs path inner)
/-- The claims of structures. -/
def ofStructs (owner : Path) : List StructDecl → List Registration
  | [] => []
  | struct :: rest => ofStruct owner struct ++ ofStructs owner rest
end

/-- The claims of a function: its own, at its whole dotted path, and its type parameters. -/
def ofFunction (f : FnDecl) : List Registration :=
  let path := f.name.path
  ⟨path, .declared .function f.span.start f.parameters.length⟩ :: ofParameters path f.parameters

/-- The claims of an interface: its own, its type parameters and its methods. -/
def ofInterface (i : InterfaceDecl) : List Registration :=
  let path := [i.name]
  ⟨path, .declared .interface i.span.start i.parameters.length⟩ ::
    (ofParameters path i.parameters ++
      i.methods.map fun m => ⟨path ++ [m.name], .declared .interfaceMethod m.span.start 0⟩)

/-- **The claims of a declaration.** -/
def ofDecl : Decl → List Registration
  | .struct d => ofStruct [] d
  | .function d => ofFunction d
  | .interface d => ofInterface d
  | .synonym d => [⟨[d.name], .declared .synonym d.span.start 0⟩]
  | .enum d => [⟨[d.name], .declared .enum d.span.start 0⟩]

/-- **The claims of a module**: each module that it stands in, then the module itself. A module
without a path is the root, which needs no claim. -/
def ofModule (path : Path) (file : String) : List Registration :=
  if path.isEmpty then []
  else path.between.map (⟨·, .namespaceOnly⟩) ++ [⟨path, .file file⟩]

/-- The claims of what is built in. -/
def ofConfig (config : Config) : List Registration :=
  config.types.map (⟨[·], .builtinType⟩) ++ config.functions.map (⟨[·], .builtinFunction⟩)

end Registration

/-- **The claims of a file**, below its module. -/
def File.claims (file : File) : List Registration :=
  file.declarations.flatMap Registration.ofDecl

namespace Tree

/-- Declares claims below a node, one after another. -/
def declareAll (base : Nat) (claims : List Registration) : EStateM Diagnostic Tree Unit :=
  claims.forM fun r => discard (declare base r.path r.claim)

/-- **Registers a file at a module** and gives the number of the node of the module. -/
def register (modulePath : Path) (file : File) : EStateM Diagnostic Tree Nat := do
  declareAll root (Registration.ofModule modulePath file.file)
  let t ← get
  let module := (t.find? modulePath).getD root
  declareAll module file.claims
  return module

/-- **Registers what is built in.** -/
def registerBuiltins (config : Config) : EStateM Diagnostic Tree Unit :=
  declareAll root (Registration.ofConfig config)

end Tree

end FrontEnd

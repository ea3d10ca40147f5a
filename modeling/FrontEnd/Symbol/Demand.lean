import FrontEnd.Program.Decl
import FrontEnd.Symbol.Path

/-!
# What is to be resolved

A file asks two things of the symbol tree: that its declarations have nodes of their own, and a type
for every name in type position, each in the scope that it is written in. The demands of a file are
a list in the order in which they are met (`File.demands`); the demand of a declaration for its own
node goes before those of the names inside it.
-/

namespace FrontEnd

/-- **What a file asks of the tree.** -/
inductive Demand where
  /-- A node at a path below a module that is claimed, for the declaration at a position. -/
  | declared (module below : Path) (position : Position)
  /-- A type for a name in a scope. -/
  | type (scope : Path) (name : Name)

namespace Demand

/-- The bounds of type parameters. -/
def ofParameters (scope : Path) (parameters : List TypeParameter) : List Demand :=
  (parameters.filterMap TypeParameter.bound).map (.type scope)

mutual
/-- The types of the variables that a statement declares, in its blocks too. -/
def ofStmt (scope : Path) : Stmt → List Demand
  | .declare _ variableType _ _ _ _ => [.type scope variableType]
  | .loop _ body _ => ofStmts scope body
  | .branch first others otherwise _ =>
    ofArm scope first ++ ofArms scope others ++ ofStmts scope otherwise
  | .select _ cases otherwise _ => ofCases scope cases ++ ofLast scope otherwise
  | .assign _ _ _ | .evaluate _ _ | .breakLoop _ | .continueLoop _ | .returnWith _ _ => []
/-- The types of the variables of a block. -/
def ofStmts (scope : Path) : List Stmt → List Demand
  | [] => []
  | stmt :: rest => ofStmt scope stmt ++ ofStmts scope rest
/-- The types of the variables of an arm. -/
def ofArm (scope : Path) : Arm → List Demand
  | .mk _ body => ofStmts scope body
/-- The types of the variables of arms. -/
def ofArms (scope : Path) : List Arm → List Demand
  | [] => []
  | arm :: rest => ofArm scope arm ++ ofArms scope rest
/-- The types of the variables of a case. -/
def ofCase (scope : Path) : Case → List Demand
  | .mk _ body => ofCaseBody scope body
/-- The types of the variables of cases. -/
def ofCases (scope : Path) : List Case → List Demand
  | [] => []
  | c :: rest => ofCase scope c ++ ofCases scope rest
/-- The types of the variables of what a pattern leads to. -/
def ofCaseBody (scope : Path) : CaseBody → List Demand
  | .block body => ofStmts scope body
  | .value _ => []
/-- The types of the variables of a last case. -/
def ofLast (scope : Path) : Option CaseBody → List Demand
  | none => []
  | some body => ofCaseBody scope body
end

/-- The types of parameters and of what is returned. -/
def ofSignature (scope : Path) (inputs : List Parameter) (output : ReturnType) : List Demand :=
  inputs.map (fun p => .type scope p.type) ++ [.type scope output.type]

mutual
/-- **The demands of a structure** below a module or another structure. -/
def ofStruct (owner : Path) : StructDecl → List Demand
  | ⟨_, name, parameters, bases, fields, inner, span⟩ =>
    let scope := owner ++ [name]
    .declared owner [name] span.start ::
      (ofParameters scope parameters ++ bases.map (.type scope) ++
        fields.map (fun f => .type scope f.type) ++ ofStructs scope inner)
/-- The demands of structures. -/
def ofStructs (owner : Path) : List StructDecl → List Demand
  | [] => []
  | struct :: rest => ofStruct owner struct ++ ofStructs owner rest
end

/-- **The demands of a declaration** of a module. -/
def ofDecl (module : Path) : Decl → List Demand
  | .struct d => ofStruct module d
  | .function d =>
    let scope := module ++ d.name.path
    .declared module d.name.path d.span.start ::
      (ofParameters scope d.parameters ++ ofSignature scope d.inputs d.output ++
        ofStmts scope d.body)
  | .interface d =>
    let scope := module ++ [d.name]
    .declared module [d.name] d.span.start ::
      (ofParameters scope d.parameters ++
        d.methods.flatMap fun m => ofSignature scope m.inputs m.output)
  | .synonym d => [.declared module [d.name] d.span.start, .type (module ++ [d.name]) d.type]
  | .enum _ => []

end Demand

/-- **The demands of a file** at a module, in the order in which they are met. -/
def File.demands (file : File) (module : Path) : List Demand :=
  file.declarations.flatMap (Demand.ofDecl module)

end FrontEnd

import FrontEnd.Proofs.Program.Place
import FrontEnd.Symbol.Demand
import Mathlib.Data.List.Basic

/-!
# Names in type position

Where a program names a type: the bounds of type parameters, the types a structure builds on, the
types of fields and parameters, what a function returns, what a synonym stands for, and the types of
variables at every depth of a body. Each name comes with the path of the declaration that it is
written in, a structure inside another having a path of its own (`File.typeNames`).

**The law** (`File.filterMap_type?_demands`): these are the names that a file asks a type for, in
this order and as often as they are written.
-/

namespace FrontEnd

/-! ## The segments of a name -/

mutual
/-- **All segments of a name**, each in front of those of its arguments. -/
def Name.parts : Name → List Segment
  | ⟨segments, _⟩ => partsOfSegments segments
/-- Segments and those of their arguments. -/
def partsOfSegments : List Segment → List Segment
  | [] => []
  | first :: rest => first.parts ++ partsOfSegments rest
/-- A segment and those of its arguments. -/
def Segment.parts : Segment → List Segment
  | ⟨id, text, arguments, span⟩ => ⟨id, text, arguments, span⟩ :: partsOfNames arguments
/-- All segments of names. -/
def partsOfNames : List Name → List Segment
  | [] => []
  | first :: rest => first.parts ++ partsOfNames rest
end

theorem Name.parts_eq (name : Name) : name.parts = partsOfSegments name.segments := by
  cases name
  rfl

theorem Segment.parts_eq (segment : Segment) :
    segment.parts = segment :: partsOfNames segment.arguments := by
  cases segment
  rfl

theorem partsOfSegments_eq (segments : List Segment) :
    partsOfSegments segments = segments.flatMap Segment.parts := by
  induction segments with
  | nil => rfl
  | cons first rest ih => rw [partsOfSegments, List.flatMap_cons, ih]

theorem partsOfNames_eq (names : List Name) : partsOfNames names = names.flatMap Name.parts := by
  induction names with
  | nil => rfl
  | cons first rest ih => rw [partsOfNames, List.flatMap_cons, ih]

/-! ## The names of a program -/

/-- The type of the variable that a statement declares. -/
def Stmt.declaredType? : Stmt → Option Name
  | .declare _ type _ _ _ _ => some type
  | _ => none

/-- **The types of the variables of a body**, at every depth. -/
def declaredTypes (body : List Stmt) : List Name :=
  (statements body).filterMap Stmt.declaredType?

/-- The types of the variables that a statement declares, in its blocks too. -/
def Stmt.types (stmt : Stmt) : List Name :=
  stmt.declaredType?.toList ++ stmt.blocks.flatMap fun block => declaredTypes block.1

theorem declaredTypes_eq (body : List Stmt) : declaredTypes body = body.flatMap Stmt.types := by
  induction body with
  | nil => simp [declaredTypes, statements]
  | cons first rest ih =>
    rw [List.flatMap_cons, ← ih, declaredTypes, statements_cons, Stmt.types]
    cases declared : first.declaredType? <;>
      simp [declaredTypes, List.filterMap_append, List.filterMap_flatMap, declared]

mutual
/-- **A structure below an owner and all structures inside it**, each with its own path. -/
def StructDecl.withInner (owner : Path) : StructDecl → List (Path × StructDecl)
  | ⟨isClosed, name, parameters, bases, fields, inner, span⟩ =>
    (owner ++ [name], ⟨isClosed, name, parameters, bases, fields, inner, span⟩) ::
      withInnerAll (owner ++ [name]) inner
/-- Structures below an owner and all structures inside them. -/
def withInnerAll (owner : Path) : List StructDecl → List (Path × StructDecl)
  | [] => []
  | first :: rest => first.withInner owner ++ withInnerAll owner rest
end

theorem withInnerAll_eq (owner : Path) (ds : List StructDecl) :
    withInnerAll owner ds = ds.flatMap (StructDecl.withInner owner) := by
  induction ds with
  | nil => rfl
  | cons first rest ih => rw [withInnerAll, ih, List.flatMap_cons]

/-- The types that bound type parameters. -/
def boundsOf (parameters : List TypeParameter) : List Name :=
  parameters.filterMap TypeParameter.bound

/-- The types of parameters and of what is returned. -/
def signatureTypes (inputs : List Parameter) (output : ReturnType) : List Name :=
  inputs.map Parameter.type ++ [output.type]

/-- The types that a structure names by itself. -/
def StructDecl.ownTypes (d : StructDecl) : List Name :=
  boundsOf d.parameters ++ d.bases ++ d.fields.map Field.type

/-- The types that a function names. -/
def FnDecl.types (d : FnDecl) : List Name :=
  boundsOf d.parameters ++ signatureTypes d.inputs d.output ++ declaredTypes d.body

/-- The types that an interface names. -/
def InterfaceDecl.types (d : InterfaceDecl) : List Name :=
  boundsOf d.parameters ++ d.methods.flatMap fun m => signatureTypes m.inputs m.output

/-- **The names in type position of a declaration** of a module, each with the path of the
declaration it is written in. -/
def Decl.typeNames (module : Path) : Decl → List (Path × Name)
  | .struct d => (d.withInner module).flatMap fun (scope, d) => d.ownTypes.map (scope, ·)
  | .function d => d.types.map (module ++ d.name.path, ·)
  | .interface d => d.types.map (module ++ [d.name], ·)
  | .synonym d => [(module ++ [d.name], d.type)]
  | .enum _ => []

/-- **The names in type position of a file** at a module. -/
def File.typeNames (file : File) (module : Path) : List (Path × Name) :=
  file.declarations.flatMap (Decl.typeNames module)

/-- The name that a demand asks a type for, with its scope. -/
def Demand.type? : Demand → Option (Path × Name)
  | .declared _ _ _ => none
  | .type scope name => some (scope, name)

namespace Demand

/-- Demands for types ask for exactly these types. -/
@[simp] theorem filterMap_type?_map (scope : Path) (names : List Name) :
    (names.map (Demand.type scope)).filterMap type? = names.map (scope, ·) := by
  rw [List.filterMap_map]
  exact congrFun List.filterMap_eq_map names

/-- What patterns lead to asks for what its blocks ask for. -/
theorem flatMap_ofCaseBody (scope : Path) (bodies : List CaseBody) :
    bodies.flatMap (ofCaseBody scope) =
      (bodies.filterMap CaseBody.block?).flatMap (ofStmts scope) := by
  induction bodies with
  | nil => rfl
  | cons first rest ih =>
    rw [List.flatMap_cons, ih]
    cases first with
    | block body => rfl
    | value value => rfl

theorem ofArms_eq (scope : Path) (arms : List Arm) :
    ofArms scope arms = (arms.map Arm.body).flatMap (ofStmts scope) := by
  induction arms with
  | nil => rfl
  | cons first rest ih =>
    obtain ⟨condition, body⟩ := first
    rw [ofArms, ofArm, ih, List.map_cons, List.flatMap_cons, Arm.body]

theorem ofCases_eq (scope : Path) (cases : List Case) :
    ofCases scope cases = (cases.map Case.body).flatMap (ofCaseBody scope) := by
  induction cases with
  | nil => rfl
  | cons first rest ih =>
    obtain ⟨pattern, body⟩ := first
    rw [ofCases, ofCase, ih, List.map_cons, List.flatMap_cons, Case.body]

theorem ofLast_eq (scope : Path) (last : Option CaseBody) :
    ofLast scope last = last.toList.flatMap (ofCaseBody scope) := by
  cases last <;> simp [ofLast]

/-- **What a statement asks for** is the type of its variable and what its blocks ask for. -/
theorem ofStmt_eq (scope : Path) (stmt : Stmt) :
    ofStmt scope stmt = stmt.declaredType?.toList.map (.type scope) ++
      stmt.blocks.flatMap fun block => ofStmts scope block.1 := by
  cases stmt with
  | declare isMutable type isArray name initial span => rfl
  | loop condition body span =>
    simp [ofStmt, Stmt.declaredType?, Stmt.blocks]
  | branch first others otherwise span =>
    obtain ⟨condition, body⟩ := first
    simp [ofStmt, Stmt.declaredType?, Stmt.blocks, ofArm, ofArms_eq, Arm.body, List.flatMap_map]
  | select subject cases otherwise span =>
    rw [ofStmt, ofCases_eq, ofLast_eq, ← List.flatMap_append, flatMap_ofCaseBody, Stmt.blocks,
      List.flatMap_map]
    rfl
  | _ => rfl

/-- **A body asks for the types of the variables** that its statements declare, at every depth. -/
theorem ofStmts_eq (scope : Path) (body : List Stmt) :
    ofStmts scope body = (declaredTypes body).map (.type scope) := by
  induction body using bodyInduction with
  | nil => simp [ofStmts, declaredTypes_eq]
  | cons first rest blocks ih =>
    have inner : (first.blocks.flatMap fun block => ofStmts scope block.1) =
        first.blocks.flatMap fun block => (declaredTypes block.1).map (Demand.type scope) :=
      List.flatMap_congr fun block mem => blocks block.1 block.2 mem
    rw [ofStmts, ofStmt_eq, ih, inner, declaredTypes_eq (first :: rest), List.flatMap_cons,
      ← declaredTypes_eq, Stmt.types, List.map_append, List.map_append, List.map_flatMap]

theorem filterMap_type?_ofParameters (scope : Path) (parameters : List TypeParameter) :
    (ofParameters scope parameters).filterMap type? = (boundsOf parameters).map (scope, ·) :=
  filterMap_type?_map ..

theorem filterMap_type?_ofSignature (scope : Path) (inputs : List Parameter)
    (output : ReturnType) :
    (ofSignature scope inputs output).filterMap type? =
      (signatureTypes inputs output).map (scope, ·) := by
  have split : ofSignature scope inputs output =
      (signatureTypes inputs output).map (Demand.type scope) := by
    simp [ofSignature, signatureTypes]
  rw [split, filterMap_type?_map]

mutual
theorem filterMap_type?_ofStruct (owner : Path) (d : StructDecl) :
    (ofStruct owner d).filterMap type? =
      (d.withInner owner).flatMap fun (scope, d) => d.ownTypes.map (scope, ·) := by
  cases d with
  | mk isClosed name parameters bases fields inner span =>
    have own : (fields.map fun f => Demand.type (owner ++ [name]) f.type) =
        (fields.map Field.type).map (Demand.type (owner ++ [name])) := by simp
    rw [ofStruct, StructDecl.withInner, List.filterMap_cons_none rfl, List.flatMap_cons,
      List.filterMap_append, List.filterMap_append, List.filterMap_append,
      filterMap_type?_ofStructs, filterMap_type?_ofParameters, own, filterMap_type?_map,
      filterMap_type?_map]
    simp only [StructDecl.ownTypes, List.map_append]
theorem filterMap_type?_ofStructs (owner : Path) (ds : List StructDecl) :
    (ofStructs owner ds).filterMap type? =
      (withInnerAll owner ds).flatMap fun (scope, d) => d.ownTypes.map (scope, ·) := by
  cases ds with
  | nil => rfl
  | cons first rest =>
    rw [ofStructs, withInnerAll, List.filterMap_append, List.flatMap_append,
      filterMap_type?_ofStruct, filterMap_type?_ofStructs]
end

theorem filterMap_type?_ofDecl (module : Path) (d : Decl) :
    (ofDecl module d).filterMap type? = d.typeNames module := by
  cases d with
  | struct d => exact filterMap_type?_ofStruct module d
  | function d =>
    rw [ofDecl, Decl.typeNames, FnDecl.types, List.filterMap_cons_none rfl, List.filterMap_append,
      List.filterMap_append, filterMap_type?_ofParameters, filterMap_type?_ofSignature, ofStmts_eq,
      filterMap_type?_map, List.map_append, List.map_append]
  | interface d =>
    rw [ofDecl, Decl.typeNames, InterfaceDecl.types, List.filterMap_cons_none rfl,
      List.filterMap_append, filterMap_type?_ofParameters, List.filterMap_flatMap, List.map_append,
      List.map_flatMap]
    simp only [filterMap_type?_ofSignature]
  | synonym d => rfl
  | enum d => rfl

end Demand

/-- **A file asks for a type for each of its names in type position**, in their order. -/
theorem File.filterMap_type?_demands (file : File) (module : Path) :
    (file.demands module).filterMap Demand.type? = file.typeNames module := by
  rw [File.demands, List.filterMap_flatMap, File.typeNames]
  exact List.flatMap_congr fun d _ => Demand.filterMap_type?_ofDecl module d

end FrontEnd

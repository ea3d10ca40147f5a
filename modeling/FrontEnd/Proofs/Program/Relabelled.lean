import FrontEnd.Program.Relabel
import FrontEnd.Proofs.Program.TypeName
import FrontEnd.Symbol.Registration

/-!
# What relabelling leaves

A relabelling does not touch what a program says. The blocks, the expressions and the variables of a
statement are the old ones relabelled; so are the names in type position, each in the scope it was
written in, the uses of an expression and the claims of a file. Where positions stay, a file makes
the same claims and an expression has the same uses.
-/

namespace FrontEnd

variable {m : Relabel}

/-! ## Statements -/

namespace CaseBody

@[simp] theorem value?_relabel (m : Relabel) (body : CaseBody) :
    (body.relabel m).value? = body.value?.map (Expr.relabel m) := by
  cases body <;> rfl

@[simp] theorem block?_relabel (m : Relabel) (body : CaseBody) :
    (body.relabel m).block? = body.block?.map (List.map (Stmt.relabel m)) := by
  cases body with
  | block body => rw [relabel, block?, relabelStmts_eq]; rfl
  | value value => rfl

end CaseBody

@[simp] theorem Arm.condition_relabel (m : Relabel) (arm : Arm) :
    (arm.relabel m).condition = arm.condition.relabel m := by
  cases arm
  rfl

@[simp] theorem Arm.body_relabel (m : Relabel) (arm : Arm) :
    (arm.relabel m).body = arm.body.map (Stmt.relabel m) := by
  cases arm
  rw [relabel, body, relabelStmts_eq]
  rfl

@[simp] theorem Case.pattern_relabel (m : Relabel) (c : Case) :
    (c.relabel m).pattern = c.pattern.relabel m := by
  cases c
  rfl

@[simp] theorem Case.body_relabel (m : Relabel) (c : Case) :
    (c.relabel m).body = c.body.relabel m := by
  cases c
  rfl

namespace Stmt

@[simp] theorem declared?_relabel (m : Relabel) (stmt : Stmt) :
    (stmt.relabel m).declared? = stmt.declared? := by
  cases stmt with
  | returnWith value => rw [relabel_returnWith]; rfl
  | _ => rfl

@[simp] theorem declaredType?_relabel (m : Relabel) (stmt : Stmt) :
    (stmt.relabel m).declaredType? = stmt.declaredType?.map (Name.relabel m) := by
  cases stmt with
  | returnWith value => rw [relabel_returnWith]; rfl
  | _ => rfl

@[simp] theorem isLoopControl_relabel (m : Relabel) (stmt : Stmt) :
    (stmt.relabel m).isLoopControl = stmt.isLoopControl := by
  cases stmt with
  | returnWith value => rw [relabel_returnWith]; rfl
  | _ => rfl

/-- What the cases of a selection lead to, relabelled. -/
theorem bodies_relabel (m : Relabel) (cases : List Case) (otherwise : Option CaseBody) :
    (relabelCases m cases).map Case.body ++ (relabelLast m otherwise).toList =
      (cases.map Case.body ++ otherwise.toList).map (CaseBody.relabel m) := by
  rw [relabelCases_eq, relabelLast_eq, Option.toList_map, List.map_append, List.map_map,
    List.map_map]
  exact congrArg (· ++ _) (List.map_congr_left fun c _ => c.body_relabel m)

/-- The expressions of a relabelled statement. -/
theorem values_relabel (m : Relabel) (stmt : Stmt) :
    (stmt.relabel m).values = stmt.values.map (Expr.relabel m) := by
  cases stmt with
  | branch first others otherwise span =>
    simp [relabel, values, relabelArms_eq, Function.comp_def]
  | returnWith value span =>
    rw [relabel_returnWith]
    cases value <;> rfl
  | select subject cases otherwise span =>
    rw [relabel, values, values, bodies_relabel, relabelCases_eq, List.filterMap_map]
    simp [List.map_filterMap, Function.comp_def]
  | _ => rfl

/-- The blocks of a relabelled statement. -/
theorem blocks_relabel (m : Relabel) (stmt : Stmt) :
    (stmt.relabel m).blocks = stmt.blocks.map (Prod.map (List.map (Stmt.relabel m)) id) := by
  cases stmt with
  | loop condition body span => simp [relabel, blocks, relabelStmts_eq]
  | branch first others otherwise span =>
    simp [relabel, blocks, relabelArms_eq, relabelStmts_eq, Function.comp_def]
  | returnWith value span =>
    rw [relabel_returnWith]
    rfl
  | select subject cases otherwise span =>
    rw [relabel, blocks, blocks, bodies_relabel, List.filterMap_map, List.map_map]
    have inner : CaseBody.block? ∘ CaseBody.relabel m =
        fun body => body.block?.map (List.map (Stmt.relabel m)) :=
      funext fun body => body.block?_relabel m
    rw [inner, ← List.map_filterMap, List.map_map]
    rfl
  | _ => rfl

end Stmt

/-! ## Names in type position -/

/-- The types of the variables of a relabelled body. -/
theorem declaredTypes_relabel (m : Relabel) (body : List Stmt) :
    declaredTypes (body.map (Stmt.relabel m)) = (declaredTypes body).map (Name.relabel m) := by
  induction body using bodyInduction with
  | nil => simp [declaredTypes_eq]
  | cons first rest blocks ih =>
    have inner : (first.relabel m).types = first.types.map (Name.relabel m) := by
      rw [Stmt.types, Stmt.types, Stmt.declaredType?_relabel, Stmt.blocks_relabel, List.map_append,
        List.flatMap_map, List.map_flatMap, Option.toList_map]
      exact congrArg (_ ++ ·) (List.flatMap_congr fun block mem => blocks block.1 block.2 mem)
    rw [declaredTypes_eq, declaredTypes_eq] at ih ⊢
    rw [List.map_cons, List.flatMap_cons, List.flatMap_cons, List.map_append, inner, ih]

theorem boundsOf_relabel (m : Relabel) (parameters : List TypeParameter) :
    boundsOf (parameters.map (TypeParameter.relabel m)) =
      (boundsOf parameters).map (Name.relabel m) := by
  rw [boundsOf, boundsOf, List.filterMap_map, List.map_filterMap]
  rfl

theorem signatureTypes_relabel (m : Relabel) (inputs : List Parameter) (output : ReturnType) :
    signatureTypes (inputs.map (Parameter.relabel m)) (output.relabel m) =
      (signatureTypes inputs output).map (Name.relabel m) := by
  rw [signatureTypes, signatureTypes, List.map_append, List.map_map, List.map_map]
  rfl

mutual
theorem StructDecl.withInner_relabel (m : Relabel) (owner : Path) (d : StructDecl) :
    (d.relabel m).withInner owner =
      (d.withInner owner).map (Prod.map id (StructDecl.relabel m)) := by
  cases d with
  | mk isClosed name parameters bases fields inner span =>
    rw [StructDecl.relabel, StructDecl.withInner, StructDecl.withInner, withInnerAll_relabel,
      List.map_cons]
    rfl
theorem withInnerAll_relabel (m : Relabel) (owner : Path) (ds : List StructDecl) :
    withInnerAll owner (relabelStructs m ds) =
      (withInnerAll owner ds).map (Prod.map id (StructDecl.relabel m)) := by
  cases ds with
  | nil => rfl
  | cons first rest =>
    rw [relabelStructs, withInnerAll, withInnerAll, List.map_append,
      StructDecl.withInner_relabel m owner first, withInnerAll_relabel m owner rest]
end

/-- The types that a relabelled structure names by itself. -/
theorem StructDecl.ownTypes_relabel (m : Relabel) (d : StructDecl) :
    (d.relabel m).ownTypes = d.ownTypes.map (Name.relabel m) := by
  cases d with
  | mk isClosed name parameters bases fields inner span =>
    simp [StructDecl.relabel, ownTypes, boundsOf_relabel, Function.comp_def, Field.relabel]

/-- **The names in type position of a relabelled declaration.** -/
theorem Decl.typeNames_relabel (m : Relabel) (module : Path) (d : Decl) :
    (d.relabel m).typeNames module =
      (d.typeNames module).map (Prod.map id (Name.relabel m)) := by
  cases d with
  | struct d =>
    rw [relabel, typeNames, typeNames, StructDecl.withInner_relabel, List.flatMap_map,
      List.map_flatMap]
    refine List.flatMap_congr fun nested _ => ?_
    simp [StructDecl.ownTypes_relabel, Function.comp_def]
  | function d =>
    simp [relabel, typeNames, FnDecl.types, FnDecl.relabel, boundsOf_relabel,
      signatureTypes_relabel, declaredTypes_relabel, Function.comp_def]
  | interface d =>
    simp [relabel, typeNames, InterfaceDecl.types, InterfaceDecl.relabel, boundsOf_relabel,
      List.flatMap_map, List.map_flatMap, Method.relabel, signatureTypes_relabel,
      Function.comp_def]
  | synonym d => rfl
  | enum d => rfl

/-- **The names in type position of a relabelled file** are the old ones relabelled, each in the
scope it was written in. -/
theorem File.typeNames_relabel (m : Relabel) (file : File) (module : Path) :
    (file.relabel m).typeNames module =
      (file.typeNames module).map (Prod.map id (Name.relabel m)) := by
  rw [typeNames, typeNames, relabel, List.flatMap_map, List.map_flatMap]
  exact List.flatMap_congr fun d _ => d.typeNames_relabel m module

/-- The functions of a relabelled file. -/
theorem File.functions_relabel (m : Relabel) (file : File) :
    (file.relabel m).functions = file.functions.map (FnDecl.relabel m) := by
  rw [functions, functions, relabel, List.filterMap_map, List.map_filterMap]
  refine List.filterMap_congr fun d _ => ?_
  cases d <;> rfl

/-! ## Uses -/

/-- A use at another position. -/
def Use.relabel (m : Relabel) (use : Use) : Use :=
  { use with position := m.position use.position }

mutual
/-- **The uses in a relabelled expression** are the old ones at other positions. -/
theorem Expr.uses_relabel (m : Relabel) (value : Expr) :
    (value.relabel m).uses = value.uses.map (Use.relabel m) := by
  cases value with
  | name n =>
    rw [relabel, uses, uses, Name.segments_relabel]
    cases n.segments with
    | nil => rfl
    | cons first rest => simp [Use.relabel, Relabel.span]
  | negate value span => exact uses_relabel m value
  | binary operator left right span =>
    rw [relabel, uses, uses, List.map_append, uses_relabel m left, uses_relabel m right]
  | call callee arguments span =>
    rw [relabel, uses, uses, List.map_append, uses_relabel m callee, usesOfList_relabel m arguments]
  | index base position span =>
    rw [relabel, uses, uses, List.map_append, uses_relabel m base, uses_relabel m position]
  | member base field span => exact uses_relabel m base
  | structLiteral isMutable fields span => exact usesOfFields_relabel m fields
  | arrayLiteral values span => exact usesOfList_relabel m values
  | _ => rfl
theorem Expr.usesOfList_relabel (m : Relabel) (values : List Expr) :
    usesOfList (relabelExprs m values) = (usesOfList values).map (Use.relabel m) := by
  cases values with
  | nil => rfl
  | cons first rest =>
    rw [relabelExprs, usesOfList, usesOfList, List.map_append, uses_relabel m first,
      usesOfList_relabel m rest]
theorem Expr.usesOfFields_relabel (m : Relabel) (fields : List (String × Expr)) :
    usesOfFields (relabelFields m fields) = (usesOfFields fields).map (Use.relabel m) := by
  cases fields with
  | nil => rfl
  | cons first rest =>
    obtain ⟨name, value⟩ := first
    rw [relabelFields, usesOfFields, usesOfFields, List.map_append, uses_relabel m value,
      usesOfFields_relabel m rest]
end

/-! ## Claims -/

/-- A value at another position, if it is that of a declaration. -/
def Symbol.Value.relabel (m : Relabel) : Symbol.Value → Symbol.Value
  | .declared position arity => .declared (m.position position) arity
  | value => value

/-- A claim at another position. -/
def Claim.relabel (m : Relabel) (claim : Claim) : Claim :=
  ⟨claim.kind, claim.value.relabel m⟩

/-- A claim on a path, made at another position. -/
def Registration.relabel (m : Relabel) (r : Registration) : Registration :=
  ⟨r.path, r.claim.relabel m⟩

namespace Registration

theorem ofParameters_relabel (m : Relabel) (owner : Path) (parameters : List TypeParameter) :
    ofParameters owner (parameters.map (TypeParameter.relabel m)) =
      (ofParameters owner parameters).map (relabel m) := by
  rw [ofParameters, ofParameters, List.map_map, List.map_map]
  rfl

theorem ofFields_relabel (m : Relabel) (owner : Path) (fields : List Field) :
    ofFields owner (fields.map (Field.relabel m)) = (ofFields owner fields).map (relabel m) := by
  rw [ofFields, ofFields, List.map_map, List.map_map]
  rfl

mutual
theorem ofStruct_relabel (m : Relabel) (owner : Path) (d : StructDecl) :
    ofStruct owner (d.relabel m) = (ofStruct owner d).map (relabel m) := by
  cases d with
  | mk isClosed name parameters bases fields inner span =>
    rw [StructDecl.relabel, ofStruct, ofStruct, ofParameters_relabel, ofFields_relabel,
      ofStructs_relabel m _ inner, List.length_map, List.map_cons, List.map_append, List.map_append]
    rfl
theorem ofStructs_relabel (m : Relabel) (owner : Path) (ds : List StructDecl) :
    ofStructs owner (relabelStructs m ds) = (ofStructs owner ds).map (relabel m) := by
  cases ds with
  | nil => rfl
  | cons first rest =>
    rw [relabelStructs, ofStructs, ofStructs, List.map_append, ofStruct_relabel m owner first,
      ofStructs_relabel m owner rest]
end

/-- **The claims of a relabelled declaration.** -/
theorem ofDecl_relabel (m : Relabel) (d : Decl) :
    ofDecl (d.relabel m) = (ofDecl d).map (relabel m) := by
  cases d with
  | struct d => exact ofStruct_relabel m [] d
  | function d =>
    rw [Decl.relabel, ofDecl, ofDecl, ofFunction, ofFunction, FnDecl.relabel, Name.path_relabel,
      ofParameters_relabel, List.length_map, List.map_cons]
    rfl
  | interface d =>
    rw [Decl.relabel, ofDecl, ofDecl, ofInterface, ofInterface, InterfaceDecl.relabel,
      ofParameters_relabel, List.length_map, List.map_cons, List.map_append, List.map_map,
      List.map_map]
    rfl
  | synonym d => rfl
  | enum d => rfl

end Registration

/-- **The claims of a relabelled file** are the old ones at other positions. -/
theorem File.claims_relabel (m : Relabel) (file : File) :
    (file.relabel m).claims = file.claims.map (Registration.relabel m) := by
  rw [claims, claims, relabel, List.flatMap_map, List.map_flatMap]
  exact List.flatMap_congr fun d _ => Registration.ofDecl_relabel m d

/-! ## Where positions stay -/

/-- A relabelling keeps places when it changes no position. -/
def Relabel.KeepsPlaces (m : Relabel) : Prop :=
  ∀ position, m.position position = position

theorem Relabel.keepsPlaces_shift (distance : Nat) : (shift distance).KeepsPlaces :=
  fun _ => rfl

/-- The uses in an expression stay as they are. -/
theorem Expr.uses_of_keepsPlaces (keeps : m.KeepsPlaces) (value : Expr) :
    (value.relabel m).uses = value.uses := by
  have same (use : Use) : use.relabel m = use := by rw [Use.relabel, keeps]
  rw [uses_relabel, List.map_congr_left fun use _ => same use, List.map_id']

/-- The claims of a file stay as they are. -/
theorem File.claims_of_keepsPlaces (keeps : m.KeepsPlaces) (file : File) :
    (file.relabel m).claims = file.claims := by
  have same (r : Registration) : r.relabel m = r := by
    obtain ⟨path, kind, value⟩ := r
    cases value <;> simp [Registration.relabel, Claim.relabel, Symbol.Value.relabel, keeps _]
  rw [claims_relabel, List.map_congr_left fun r _ => same r, List.map_id']

end FrontEnd

import FrontEnd.Program.Decl

/-!
# What a syntax tree carries beside its text

A syntax tree carries the numbers of its segments, the positions of its parts and the name of its
file. A relabelling changes all of these and nothing else (`File.relabel`): the shape of the tree,
its names, its operators and its literals stay. Two trees are the same up to what they carry when
one relabelling makes them equal.

Three relabellings matter: the one that moves all numbers by a constant (`Relabel.shift`), the one
that leaves nothing of what a tree carries (`Relabel.erase`), and the one that leaves all of it but the
positions (`Relabel.placeless`).
-/

namespace FrontEnd

/-- **A change of what a syntax tree carries**: of its numbers, its positions and its file. -/
structure Relabel where
  id : Nat → Nat
  position : Position → Position
  file : String → String

namespace Relabel

/-- Every number grows by a constant. -/
def shift (distance : Nat) : Relabel :=
  ⟨(· + distance), fun p => p, fun f => f⟩

/-- Nothing that is carried is left. -/
def erase : Relabel :=
  ⟨fun _ => 0, fun _ => default, fun _ => ""⟩

/-- No position that is carried is left. -/
def placeless : Relabel :=
  ⟨fun id => id, fun _ => default, fun f => f⟩

/-- A stretch of the source with both its ends moved. -/
def span (m : Relabel) (s : Span) : Span :=
  ⟨m.position s.start, m.position s.stop⟩

/-- All stretches of the source are alike once their positions are erased. -/
@[simp] theorem span_erase (s : Span) : erase.span s = ⟨default, default⟩ := rfl

end Relabel

/-! ## Names -/

mutual
/-- A name with other labels. -/
def Name.relabel (m : Relabel) : Name → Name
  | ⟨segments, span⟩ => ⟨relabelSegments m segments, m.span span⟩
/-- Segments with other labels. -/
def relabelSegments (m : Relabel) : List Segment → List Segment
  | [] => []
  | first :: rest => first.relabel m :: relabelSegments m rest
/-- A segment with other labels. -/
def Segment.relabel (m : Relabel) : Segment → Segment
  | ⟨id, text, arguments, span⟩ => ⟨m.id id, text, relabelNames m arguments, m.span span⟩
/-- Names with other labels. -/
def relabelNames (m : Relabel) : List Name → List Name
  | [] => []
  | first :: rest => first.relabel m :: relabelNames m rest
end

theorem relabelSegments_eq (m : Relabel) (segments : List Segment) :
    relabelSegments m segments = segments.map (Segment.relabel m) := by
  induction segments with
  | nil => rfl
  | cons first rest ih => rw [relabelSegments, ih, List.map_cons]

theorem relabelNames_eq (m : Relabel) (names : List Name) :
    relabelNames m names = names.map (Name.relabel m) := by
  induction names with
  | nil => rfl
  | cons first rest ih => rw [relabelNames, ih, List.map_cons]

@[simp] theorem Segment.text_relabel (m : Relabel) (segment : Segment) :
    (segment.relabel m).text = segment.text := by
  cases segment
  rfl

@[simp] theorem Segment.id_relabel (m : Relabel) (segment : Segment) :
    (segment.relabel m).id = m.id segment.id := by
  cases segment
  rfl

@[simp] theorem Segment.span_relabel (m : Relabel) (segment : Segment) :
    (segment.relabel m).span = m.span segment.span := by
  cases segment
  rfl

@[simp] theorem Segment.arguments_relabel (m : Relabel) (segment : Segment) :
    (segment.relabel m).arguments = segment.arguments.map (Name.relabel m) := by
  cases segment
  rw [Segment.relabel, relabelNames_eq]

@[simp] theorem Name.segments_relabel (m : Relabel) (name : Name) :
    (name.relabel m).segments = name.segments.map (Segment.relabel m) := by
  cases name
  rw [Name.relabel, relabelSegments_eq]

@[simp] theorem Name.span_relabel (m : Relabel) (name : Name) :
    (name.relabel m).span = m.span name.span := by
  cases name
  rfl

@[simp] theorem Name.path_relabel (m : Relabel) (name : Name) :
    (name.relabel m).path = name.path := by
  rw [path, path, segments_relabel, List.map_map]
  exact List.map_congr_left fun segment _ => Segment.text_relabel m segment

/-- A declared type parameter with other labels. -/
def TypeParameter.relabel (m : Relabel) (p : TypeParameter) : TypeParameter :=
  ⟨p.name, p.bound.map (Name.relabel m), m.span p.span⟩

/-! ## Expressions -/

mutual
/-- An expression with other labels. -/
def Expr.relabel (m : Relabel) : Expr → Expr
  | .bool value span => .bool value (m.span span)
  | .int value span => .int value (m.span span)
  | .double bits span => .double bits (m.span span)
  | .string value span => .string value (m.span span)
  | .char value span => .char value (m.span span)
  | .symbol text span => .symbol text (m.span span)
  | .name name => .name (name.relabel m)
  | .negate value span => .negate (value.relabel m) (m.span span)
  | .binary operator left right span =>
    .binary operator (left.relabel m) (right.relabel m) (m.span span)
  | .call callee arguments span =>
    .call (callee.relabel m) (relabelExprs m arguments) (m.span span)
  | .index base position span => .index (base.relabel m) (position.relabel m) (m.span span)
  | .member base field span => .member (base.relabel m) field (m.span span)
  | .structLiteral isMutable fields span =>
    .structLiteral isMutable (relabelFields m fields) (m.span span)
  | .arrayLiteral values span => .arrayLiteral (relabelExprs m values) (m.span span)
/-- Expressions with other labels. -/
def relabelExprs (m : Relabel) : List Expr → List Expr
  | [] => []
  | first :: rest => first.relabel m :: relabelExprs m rest
/-- The fields of a structure literal with other labels. -/
def relabelFields (m : Relabel) : List (String × Expr) → List (String × Expr)
  | [] => []
  | (name, value) :: rest => (name, value.relabel m) :: relabelFields m rest
end

theorem relabelExprs_eq (m : Relabel) (values : List Expr) :
    relabelExprs m values = values.map (Expr.relabel m) := by
  induction values with
  | nil => rfl
  | cons first rest ih => rw [relabelExprs, ih, List.map_cons]

theorem relabelFields_eq (m : Relabel) (fields : List (String × Expr)) :
    relabelFields m fields = fields.map (Prod.map id (Expr.relabel m)) := by
  induction fields with
  | nil => rfl
  | cons first rest ih => rw [relabelFields, ih, List.map_cons, Prod.map, id]

@[simp] theorem Expr.span_relabel (m : Relabel) (value : Expr) :
    (value.relabel m).span = m.span value.span := by
  cases value with
  | name name => exact name.span_relabel m
  | _ => rfl

@[simp] theorem Expr.form_relabel (m : Relabel) (value : Expr) :
    (value.relabel m).form = value.form := by
  cases value <;> rfl

@[simp] theorem Expr.isAssignable_relabel (m : Relabel) (value : Expr) :
    (value.relabel m).isAssignable = value.isAssignable := by
  cases value <;> rfl

@[simp] theorem Expr.relabel_operation (m : Relabel) (operator : Operator) (left right : Expr) :
    (Expr.operation operator left right).relabel m =
      .operation operator (left.relabel m) (right.relabel m) := by
  rw [operation, operation, relabel, span_relabel, span_relabel]
  rfl

/-! ## Statements -/

mutual
/-- A statement with other labels. -/
def Stmt.relabel (m : Relabel) : Stmt → Stmt
  | .declare isMutable type isArray name initial span =>
    .declare isMutable (type.relabel m) isArray name (initial.relabel m) (m.span span)
  | .assign target value span => .assign (target.relabel m) (value.relabel m) (m.span span)
  | .evaluate value span => .evaluate (value.relabel m) (m.span span)
  | .breakLoop span => .breakLoop (m.span span)
  | .continueLoop span => .continueLoop (m.span span)
  | .loop condition body span => .loop (condition.relabel m) (relabelStmts m body) (m.span span)
  | .branch first others otherwise span =>
    .branch (first.relabel m) (relabelArms m others) (relabelStmts m otherwise) (m.span span)
  | .returnWith none span => .returnWith none (m.span span)
  | .returnWith (some value) span => .returnWith (some (value.relabel m)) (m.span span)
  | .select subject cases otherwise span =>
    .select (subject.relabel m) (relabelCases m cases) (relabelLast m otherwise) (m.span span)
/-- Statements with other labels. -/
def relabelStmts (m : Relabel) : List Stmt → List Stmt
  | [] => []
  | first :: rest => first.relabel m :: relabelStmts m rest
/-- An arm with other labels. -/
def Arm.relabel (m : Relabel) : Arm → Arm
  | .mk condition body => .mk (condition.relabel m) (relabelStmts m body)
/-- Arms with other labels. -/
def relabelArms (m : Relabel) : List Arm → List Arm
  | [] => []
  | first :: rest => first.relabel m :: relabelArms m rest
/-- A case with other labels. -/
def Case.relabel (m : Relabel) : Case → Case
  | .mk pattern body => .mk (pattern.relabel m) (body.relabel m)
/-- Cases with other labels. -/
def relabelCases (m : Relabel) : List Case → List Case
  | [] => []
  | first :: rest => first.relabel m :: relabelCases m rest
/-- What a pattern leads to, with other labels. -/
def CaseBody.relabel (m : Relabel) : CaseBody → CaseBody
  | .block body => .block (relabelStmts m body)
  | .value value => .value (value.relabel m)
/-- A last case with other labels. -/
def relabelLast (m : Relabel) : Option CaseBody → Option CaseBody
  | none => none
  | some body => some (body.relabel m)
end

theorem relabelStmts_eq (m : Relabel) (body : List Stmt) :
    relabelStmts m body = body.map (Stmt.relabel m) := by
  induction body with
  | nil => rfl
  | cons first rest ih => rw [relabelStmts, ih, List.map_cons]

theorem relabelArms_eq (m : Relabel) (arms : List Arm) :
    relabelArms m arms = arms.map (Arm.relabel m) := by
  induction arms with
  | nil => rfl
  | cons first rest ih => rw [relabelArms, ih, List.map_cons]

theorem relabelCases_eq (m : Relabel) (cases : List Case) :
    relabelCases m cases = cases.map (Case.relabel m) := by
  induction cases with
  | nil => rfl
  | cons first rest ih => rw [relabelCases, ih, List.map_cons]

theorem relabelLast_eq (m : Relabel) (last : Option CaseBody) :
    relabelLast m last = last.map (CaseBody.relabel m) := by
  cases last <;> rfl

theorem Stmt.relabel_returnWith (m : Relabel) (value : Option Expr) (span : Span) :
    (Stmt.returnWith value span).relabel m =
      .returnWith (value.map (Expr.relabel m)) (m.span span) := by
  cases value <;> rfl

/-! ## Declarations and files -/

/-- A path of an import or an export with other labels. -/
def ModulePath.relabel (m : Relabel) (path : ModulePath) : ModulePath :=
  ⟨path.texts, m.span path.span⟩

/-- A field with other labels. -/
def Field.relabel (m : Relabel) (f : Field) : Field :=
  ⟨f.isMutable, f.type.relabel m, f.isArray, f.name, f.initial.map (Expr.relabel m),
    m.span f.span⟩

mutual
/-- A structure with other labels. -/
def StructDecl.relabel (m : Relabel) : StructDecl → StructDecl
  | ⟨isClosed, name, parameters, bases, fields, inner, span⟩ =>
    ⟨isClosed, name, parameters.map (TypeParameter.relabel m), bases.map (Name.relabel m),
      fields.map (Field.relabel m), relabelStructs m inner, m.span span⟩
/-- Structures with other labels. -/
def relabelStructs (m : Relabel) : List StructDecl → List StructDecl
  | [] => []
  | first :: rest => first.relabel m :: relabelStructs m rest
end

theorem relabelStructs_eq (m : Relabel) (structs : List StructDecl) :
    relabelStructs m structs = structs.map (StructDecl.relabel m) := by
  induction structs with
  | nil => rfl
  | cons first rest ih => rw [relabelStructs, ih, List.map_cons]

/-- A parameter with other labels. -/
def Parameter.relabel (m : Relabel) (p : Parameter) : Parameter :=
  ⟨p.type.relabel m, p.isArray, p.name, m.span p.span⟩

/-- A returned type with other labels. -/
def ReturnType.relabel (m : Relabel) (o : ReturnType) : ReturnType :=
  ⟨o.type.relabel m, o.isArray⟩

/-- A function with other labels. -/
def FnDecl.relabel (m : Relabel) (f : FnDecl) : FnDecl :=
  ⟨f.isMutable, f.parameters.map (TypeParameter.relabel m), f.name.relabel m,
    f.inputs.map (Parameter.relabel m), f.output.relabel m, f.body.map (Stmt.relabel m),
    m.span f.span⟩

/-- A function of an interface with other labels. -/
def Method.relabel (m : Relabel) (f : Method) : Method :=
  ⟨f.isMutable, f.name, f.inputs.map (Parameter.relabel m), f.output.relabel m, m.span f.span⟩

/-- An interface with other labels. -/
def InterfaceDecl.relabel (m : Relabel) (d : InterfaceDecl) : InterfaceDecl :=
  ⟨d.name, d.parameters.map (TypeParameter.relabel m), d.methods.map (Method.relabel m),
    m.span d.span⟩

/-- A synonym with other labels. -/
def SynonymDecl.relabel (m : Relabel) (d : SynonymDecl) : SynonymDecl :=
  ⟨d.name, d.type.relabel m, m.span d.span⟩

/-- An enumeration with other labels. -/
def EnumDecl.relabel (m : Relabel) (d : EnumDecl) : EnumDecl :=
  ⟨d.name, d.values, m.span d.span⟩

/-- A declaration with other labels. -/
def Decl.relabel (m : Relabel) : Decl → Decl
  | .struct d => .struct (d.relabel m)
  | .function d => .function (d.relabel m)
  | .interface d => .interface (d.relabel m)
  | .synonym d => .synonym (d.relabel m)
  | .enum d => .enum (d.relabel m)

/-- **A file with other labels.** -/
def File.relabel (m : Relabel) (f : File) : File :=
  ⟨m.file f.file, f.imports.map (ModulePath.relabel m), f.declarations.map (Decl.relabel m),
    f.exports.map (ModulePath.relabel m)⟩

end FrontEnd

import FrontEnd.Proofs.Program.TypeName
import Mathlib.Data.List.Flatten
import Mathlib.Data.List.Perm.Basic

/-!
# All names of a program

Where a file writes a name whose segments are numbered: in type position, as the name of a function,
and in expressions, which stand in statements at every depth and in the initial values of fields.
A symbol has no segments, and what is declared without arguments is a text (`File.names`).

An assignment with an operator has its target twice, once as what is assigned to and once as the left
side of the operation assigned. The numbers of a program are therefore counted in two parts, those
that it is written with and those that such an assignment repeats.

**The law** (`File.ids_perm`): the numbers of a file are those that are written and those that are
copied, and every copied number is written.
-/

namespace FrontEnd

/-! ## Names in expressions -/

namespace Expr

mutual
/-- **The names in an expression**, in the order of the source. -/
def names : Expr → List Name
  | bool _ _ | int _ _ | double _ _ | string _ _ | char _ _ | symbol _ _ => []
  | name n => [n]
  | negate value _ => value.names
  | binary _ left right _ => left.names ++ right.names
  | call callee arguments _ => callee.names ++ namesOfList arguments
  | index base position _ => base.names ++ position.names
  | member base _ _ => base.names
  | structLiteral _ fields _ => namesOfFields fields
  | arrayLiteral values _ => namesOfList values
/-- The names in expressions. -/
def namesOfList : List Expr → List Name
  | [] => []
  | value :: rest => value.names ++ namesOfList rest
/-- The names in the values of fields. -/
def namesOfFields : List (String × Expr) → List Name
  | [] => []
  | (_, value) :: rest => value.names ++ namesOfFields rest
end

theorem namesOfList_eq (values : List Expr) : namesOfList values = values.flatMap names := by
  induction values with
  | nil => rfl
  | cons value rest ih => rw [namesOfList, ih, List.flatMap_cons]

theorem namesOfFields_eq (fields : List (String × Expr)) :
    namesOfFields fields = fields.flatMap fun field => field.2.names := by
  induction fields with
  | nil => rfl
  | cons field rest ih => rw [namesOfFields, ih, List.flatMap_cons]

end Expr

/-- The numbers of the segments of a name. -/
def Name.ids (name : Name) : List Nat :=
  name.parts.map Segment.id

/-- The numbers of a segment and of those in its arguments. -/
def Segment.ids (segment : Segment) : List Nat :=
  segment.parts.map Segment.id

theorem Name.ids_eq (name : Name) : name.ids = name.segments.flatMap Segment.ids := by
  rw [Name.ids, Name.parts_eq, partsOfSegments_eq, List.map_flatMap]
  rfl

theorem Segment.ids_eq (segment : Segment) :
    segment.ids = segment.id :: segment.arguments.flatMap Name.ids := by
  rw [Segment.ids, Segment.parts_eq, partsOfNames_eq, List.map_cons, List.map_flatMap]
  rfl

namespace Expr

/-- **The numbers of the names in an expression.** -/
def ids (value : Expr) : List Nat :=
  value.names.flatMap Name.ids

@[simp] theorem ids_symbol (text : String) (span : Span) : (symbol text span).ids = [] := rfl

@[simp] theorem ids_int (value : Int) (span : Span) : (int value span).ids = [] := rfl

@[simp] theorem ids_name (n : Name) : (name n).ids = n.ids :=
  List.flatMap_singleton ..

@[simp] theorem ids_negate (value : Expr) (span : Span) : (negate value span).ids = value.ids := rfl

@[simp] theorem ids_binary (operator : Operator) (left right : Expr) (span : Span) :
    (binary operator left right span).ids = left.ids ++ right.ids :=
  List.flatMap_append

@[simp] theorem ids_call (callee : Expr) (arguments : List Expr) (span : Span) :
    (call callee arguments span).ids = callee.ids ++ arguments.flatMap ids := by
  rw [ids, names, namesOfList_eq, List.flatMap_append, List.flatMap_assoc]
  rfl

@[simp] theorem ids_index (base position : Expr) (span : Span) :
    (index base position span).ids = base.ids ++ position.ids :=
  List.flatMap_append

@[simp] theorem ids_member (base : Expr) (field : String) (span : Span) :
    (member base field span).ids = base.ids := rfl

@[simp] theorem ids_structLiteral (isMutable : Bool) (fields : List (String × Expr))
    (span : Span) : (structLiteral isMutable fields span).ids = fields.flatMap (·.2.ids) := by
  rw [ids, names, namesOfFields_eq, List.flatMap_assoc]
  rfl

@[simp] theorem ids_arrayLiteral (values : List Expr) (span : Span) :
    (arrayLiteral values span).ids = values.flatMap ids := by
  rw [ids, names, namesOfList_eq, List.flatMap_assoc]
  rfl

/-- **The numbers of a target that the value of an assignment repeats**: those of the left side of an
operation, where they are the numbers of the target. -/
def copied (target : Expr) : Expr → List Nat
  | binary _ left _ _ => if left.ids = target.ids then left.ids else []
  | _ => []

/-- What a value repeats of a target stands at its front. -/
theorem copied_append_drop (target value : Expr) :
    target.copied value ++ value.ids.drop (target.copied value).length = value.ids := by
  unfold copied
  split
  next operator left right span =>
    split
    · rw [ids_binary, List.drop_left]
    · rw [List.length_nil, List.drop_zero, List.nil_append]
  next => rw [List.length_nil, List.drop_zero, List.nil_append]

theorem copied_eq (target value : Expr) : target.copied value = [] ∨
    target.copied value = target.ids := by
  unfold copied
  split
  · split
    next same => exact .inr same
    next => exact .inl rfl
  · exact .inl rfl

/-- A value that shares no number with a target repeats none of its numbers. -/
theorem copied_eq_nil {target value : Expr} (apart : ∀ id ∈ target.ids, id ∉ value.ids) :
    target.copied value = [] := by
  rcases target.copied_eq value with none | whole
  · exact none
  · rw [List.eq_nil_iff_forall_not_mem]
    intro id copies
    have inValue : id ∈ value.ids := by
      rw [← target.copied_append_drop value]
      exact List.mem_append_left _ copies
    exact apart id (whole ▸ copies) inValue

end Expr

/-! ## Names in statements -/

namespace Stmt

/-- The names of a statement outside its blocks. -/
def names (stmt : Stmt) : List Name :=
  stmt.declaredType?.toList ++ stmt.values.flatMap Expr.names

theorem ids_names (stmt : Stmt) : stmt.names.flatMap Name.ids =
    stmt.declaredType?.toList.flatMap Name.ids ++ stmt.values.flatMap Expr.ids := by
  rw [names, List.flatMap_append, List.flatMap_assoc]
  rfl

/-- The numbers that a statement repeats outside its blocks. -/
def copiedIds : Stmt → List Nat
  | assign target value _ => target.copied value
  | _ => []

/-- **The numbers that a statement is written with**, outside its blocks. -/
def writtenIds : Stmt → List Nat
  | assign target value _ => target.ids ++ value.ids.drop (target.copied value).length
  | stmt => stmt.names.flatMap Name.ids

/-- The numbers of a statement are those that are written and those that are copied. -/
theorem ids_perm (stmt : Stmt) :
    (stmt.names.flatMap Name.ids).Perm (stmt.writtenIds ++ stmt.copiedIds) := by
  cases stmt with
  | assign target value span =>
    have both : (assign target value span).names.flatMap Name.ids = target.ids ++ value.ids := by
      rw [ids_names]
      simp [declaredType?, values]
    rw [both, writtenIds, copiedIds, List.append_assoc]
    refine List.Perm.append_left target.ids ?_
    conv => lhs; rw [← target.copied_append_drop value]
    exact List.perm_append_comm
  | _ => rw [writtenIds, copiedIds, List.append_nil] <;> simp

/-- A number that a statement repeats is one that it is written with. -/
theorem copiedIds_sublist (stmt : Stmt) : stmt.copiedIds.Sublist stmt.writtenIds := by
  cases stmt with
  | assign target value span =>
    rw [copiedIds, writtenIds]
    rcases target.copied_eq value with none | whole
    · rw [none]
      exact List.nil_sublist _
    · rw [whole]
      exact List.sublist_append_left ..
  | _ => exact List.nil_sublist _

/-- The numbers of the type that a statement declares are among those that it is written with. -/
theorem declaredType_sublist (stmt : Stmt) :
    (stmt.declaredType?.toList.flatMap Name.ids).Sublist stmt.writtenIds := by
  cases stmt with
  | declare isMutable type isArray name initial span =>
    rw [writtenIds, ids_names]
    · exact List.sublist_append_left ..
    · nofun
  | _ => exact List.nil_sublist _

end Stmt

/-- What consists of two parts each time consists of the ones together and the others together. -/
theorem flatMap_perm_append {α β : Type} {whole one other : α → List β} (values : List α)
    (each : ∀ value ∈ values, (whole value).Perm (one value ++ other value)) :
    (values.flatMap whole).Perm (values.flatMap one ++ values.flatMap other) :=
  (List.Perm.flatMap_left values each).trans (List.flatMap_append_perm ..).symm

/-! ## Names in declarations and files -/

/-- The names that a structure writes by itself: its types and the names in the initial values of its
fields. -/
def StructDecl.ownNames (d : StructDecl) : List Name :=
  d.ownTypes ++ d.fields.flatMap fun field => field.initial.toList.flatMap Expr.names

/-- The names of a structure and of the structures inside it. -/
def StructDecl.names (d : StructDecl) : List Name :=
  (d.withInner []).flatMap fun (_, d) => d.ownNames

/-- The names of a function outside its body. -/
def FnDecl.headNames (d : FnDecl) : List Name :=
  d.name :: (boundsOf d.parameters ++ signatureTypes d.inputs d.output)

namespace Decl

/-- The statements of a declaration at every depth. -/
def statements : Decl → List Stmt
  | function d => FrontEnd.statements d.body
  | struct _ | interface _ | synonym _ | enum _ => []

/-- The names of a declaration outside statements. -/
def headNames : Decl → List Name
  | struct d => d.names
  | function d => d.headNames
  | interface d => d.types
  | synonym d => [d.type]
  | enum _ => []

/-- **The names of a declaration.** -/
def names (d : Decl) : List Name :=
  d.headNames ++ d.statements.flatMap Stmt.names

/-- The numbers that a declaration repeats. -/
def copiedIds (d : Decl) : List Nat :=
  d.statements.flatMap Stmt.copiedIds

/-- The numbers that a declaration is written with. -/
def writtenIds (d : Decl) : List Nat :=
  d.headNames.flatMap Name.ids ++ d.statements.flatMap Stmt.writtenIds

theorem ids_perm (d : Decl) : (d.names.flatMap Name.ids).Perm (d.writtenIds ++ d.copiedIds) := by
  rw [names, writtenIds, copiedIds, List.flatMap_append, List.flatMap_assoc, List.append_assoc]
  apply List.Perm.append_left
  exact flatMap_perm_append d.statements fun stmt _ => stmt.ids_perm

theorem copiedIds_sublist (d : Decl) : d.copiedIds.Sublist d.writtenIds := by
  have each : d.copiedIds.Sublist (d.statements.flatMap Stmt.writtenIds) :=
    List.Sublist.flatMap_right _ fun stmt _ => stmt.copiedIds_sublist
  exact each.trans (List.sublist_append_right ..)

end Decl

namespace File

/-- **The names of a file**: in type position, of functions and in expressions, at every depth. -/
def names (file : File) : List Name :=
  file.declarations.flatMap Decl.names

/-- **The numbers of the names of a file**, with those in arguments at every depth. -/
def ids (file : File) : List Nat :=
  file.names.flatMap Name.ids

/-- The statements of a file at every depth. -/
def statements (file : File) : List Stmt :=
  file.declarations.flatMap Decl.statements

/-- The numbers that the assignments of a file repeat. -/
def copiedIds (file : File) : List Nat :=
  file.statements.flatMap Stmt.copiedIds

/-- The numbers that a file is written with. -/
def writtenIds (file : File) : List Nat :=
  file.declarations.flatMap Decl.writtenIds

theorem copiedIds_eq (file : File) :
    file.copiedIds = file.declarations.flatMap Decl.copiedIds :=
  List.flatMap_assoc

/-- **The numbers of a file** are those that are written and those that are copied. -/
theorem ids_perm (file : File) : file.ids.Perm (file.writtenIds ++ file.copiedIds) := by
  rw [ids, names, List.flatMap_assoc, copiedIds_eq]
  exact flatMap_perm_append file.declarations fun d _ => d.ids_perm

/-- Every number that is copied is written. -/
theorem copiedIds_sublist (file : File) : file.copiedIds.Sublist file.writtenIds := by
  rw [copiedIds_eq]
  exact List.Sublist.flatMap_right _ fun d _ => d.copiedIds_sublist

end File

/-! ## The types among the names -/

/-- The numbers of names that are written in scopes. -/
def idsOf (occurrences : List (Path × Name)) : List Nat :=
  occurrences.flatMap fun occurrence => occurrence.2.ids

namespace StructDecl

mutual
/-- The structures inside a structure are the same wherever it stands. -/
theorem map_snd_withInner (owner other : Path) (d : StructDecl) :
    (d.withInner owner).map Prod.snd = (d.withInner other).map Prod.snd := by
  cases d with
  | mk isClosed name parameters bases fields inner span =>
    rw [withInner, withInner, List.map_cons, List.map_cons,
      map_snd_withInnerAll (owner ++ [name]) (other ++ [name]) inner]
theorem map_snd_withInnerAll (owner other : Path) (ds : List StructDecl) :
    (withInnerAll owner ds).map Prod.snd = (withInnerAll other ds).map Prod.snd := by
  cases ds with
  | nil => rfl
  | cons first rest =>
    rw [withInnerAll, withInnerAll, List.map_append, List.map_append,
      map_snd_withInner owner other first, map_snd_withInnerAll owner other rest]
end

theorem flatMap_withInner {α : Type} (f : StructDecl → List α) (owner other : Path)
    (d : StructDecl) :
    ((d.withInner owner).flatMap fun (_, d) => f d) = (d.withInner other).flatMap fun (_, d) => f d := by
  have same := congrArg (List.flatMap f) (map_snd_withInner owner other d)
  rwa [List.flatMap_map, List.flatMap_map] at same

/-- **The names of a structure** are those that it writes by itself and those of the structures
inside it. -/
theorem names_eq (d : StructDecl) : d.names = d.ownNames ++ d.inner.flatMap names := by
  cases d with
  | mk isClosed name parameters bases fields inner span =>
    have ofInner (d : StructDecl) :
        ((d.withInner ([] ++ [name])).flatMap fun (_, d) => d.ownNames) = d.names :=
      flatMap_withInner ownNames _ _ d
    rw [names, withInner, List.flatMap_cons, withInnerAll_eq, List.flatMap_assoc]
    simp only [ofInner]

end StructDecl

theorem idsOf_map (scope : Path) (names : List Name) :
    idsOf (names.map (scope, ·)) = names.flatMap Name.ids :=
  List.flatMap_map ..

theorem idsOf_flatMap {α : Type} (values : List α) (occurrences : α → List (Path × Name)) :
    idsOf (values.flatMap occurrences) = values.flatMap fun value => idsOf (occurrences value) :=
  List.flatMap_assoc

/-- The types of the variables of a body are among the names that it is written with. -/
theorem declaredTypes_sublist (body : List Stmt) :
    ((declaredTypes body).flatMap Name.ids).Sublist
      ((statements body).flatMap Stmt.writtenIds) := by
  have types : declaredTypes body = (statements body).flatMap fun stmt => stmt.declaredType?.toList := by
    rw [declaredTypes, List.filterMap_eq_flatMap_toList]
  rw [types, List.flatMap_assoc]
  exact List.Sublist.flatMap_right _ fun stmt _ => stmt.declaredType_sublist

/-- **The types of a declaration are among its names.** -/
theorem Decl.typeNames_sublist (module : Path) (d : Decl) :
    (idsOf (d.typeNames module)).Sublist d.writtenIds := by
  cases d with
  | struct d =>
    rw [typeNames, idsOf_flatMap, writtenIds, headNames, statements, StructDecl.names,
      List.flatMap_nil, List.append_nil, List.flatMap_assoc]
    simp only [idsOf_map]
    rw [StructDecl.flatMap_withInner (fun d => d.ownTypes.flatMap Name.ids) module []]
    apply List.Sublist.flatMap_right
    intro inner _
    rw [StructDecl.ownNames, List.flatMap_append]
    exact List.sublist_append_left ..
  | function d =>
    rw [typeNames, idsOf_map, FnDecl.types, List.flatMap_append, writtenIds, headNames,
      FnDecl.headNames, List.flatMap_cons]
    exact (List.sublist_append_right ..).append (declaredTypes_sublist d.body)
  | interface d =>
    rw [typeNames, idsOf_map, writtenIds]
    exact List.sublist_append_left ..
  | synonym d => exact List.sublist_append_left ..
  | enum d => exact List.nil_sublist _

/-- **The types of a file are among the names that it is written with.** -/
theorem File.typeNames_sublist (module : Path) (file : File) :
    (idsOf (file.typeNames module)).Sublist file.writtenIds := by
  rw [typeNames, idsOf_flatMap]
  exact List.Sublist.flatMap_right _ fun d _ => d.typeNames_sublist module

end FrontEnd

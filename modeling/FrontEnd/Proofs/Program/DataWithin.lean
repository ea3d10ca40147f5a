import FrontEnd.Proofs.Program.Data
import FrontEnd.Proofs.Program.Occurrence
import Mathlib.Data.Multiset.OrderedMonoid
import Mathlib.Tactic.Abel

/-!
# The data of what occurs in a file

The data of a tree are its own and those of what it is put together from. So whatever occurs in a
file, at any depth, has no data besides those of the file.

**The law** (`File.HasName.data_le`): the data of every name of a file are among those of the file.
-/

namespace FrontEnd

variable {name : Name}

section Total

variable {α β : Type} {data other : α → Multiset Datum} {members : List α}

/-- The data of one member are among those of all. -/
theorem le_total {member : α} (mem : member ∈ members) : data member ≤ total data members := by
  obtain ⟨front, back, rfl⟩ := List.append_of_mem mem
  rw [total_append, total_cons]
  exact le_add_left le_self_add

theorem total_map (f : β → α) (members : List β) :
    total data (members.map f) = total (fun member => data (f member)) members := by
  rw [total, List.map_map]
  rfl

/-- Data of two kinds are counted apart. -/
theorem total_add (members : List α) :
    total (fun member => data member + other member) members =
      total data members + total other members := by
  induction members with
  | nil => rfl
  | cons first rest ih =>
    rw [total_cons, total_cons, total_cons, ih]
    abel

theorem total_filterMap (f : β → Option α) (members : List β) :
    total data (members.filterMap f) =
      total (fun member => total data (f member).toList) members := by
  induction members with
  | nil => rfl
  | cons first rest ih =>
    rw [total_cons, ← ih, List.filterMap_cons]
    cases f first with
    | none => exact (zero_add _).symm
    | some found => rw [Option.toList_some, total_cons, total_cons, total_nil, add_zero]

end Total

/-! ## Expressions -/

namespace Expr

variable {value part : Expr}

/-- The data of an expression outside the expressions that it is put together from. -/
def ownData : Expr → Multiset Datum
  | .int value _ => {.int value}
  | .string value _ => {.string value}
  | .char value _ => {.char value}
  | .symbol text _ => {.word text}
  | .name name => name.data
  | .member _ field _ => {.word field}
  | .structLiteral _ fields _ => total (fun field => {.word field.1}) fields
  | .bool _ _ | .double _ _ | .negate _ _ | .binary _ _ _ _ | .call _ _ _ | .index _ _ _
  | .arrayLiteral _ _ => 0

/-- **The data of an expression** are its own and those of its parts. -/
theorem data_eq (value : Expr) : value.data = value.ownData + total data value.parts := by
  cases value with
  | call callee arguments span => simp [data, ownData, parts, dataOfValues_eq]
  | structLiteral isMutable fields span =>
    rw [data, ownData, parts, dataOfFieldValues_eq, total_add, total_map]
  | arrayLiteral values span => simp [data, ownData, parts, dataOfValues_eq]
  | member base field span => simp [data, ownData, parts, add_comm]
  | _ => simp [data, ownData, parts]

/-- The data of a part are among those of the whole. -/
theorem data_le_of_mem_parts (mem : part ∈ value.parts) : part.data ≤ value.data := by
  rw [data_eq value]
  exact le_add_left (le_total mem)

/-- A name in an expression is the expression or stands in a part of it. -/
theorem eq_name_or_mem_names (mem : name ∈ value.names) :
    value = .name name ∨ ∃ part ∈ value.parts, name ∈ part.names := by
  cases value with
  | name n => exact .inl (congrArg Expr.name (List.mem_singleton.1 mem).symm)
  | call callee arguments span =>
    exact .inr (by simpa [names, namesOfList_eq, parts] using mem)
  | structLiteral isMutable fields span =>
    rw [names, namesOfFields_eq] at mem
    obtain ⟨field, isField, mem⟩ := List.mem_flatMap.1 mem
    exact .inr ⟨field.2, List.mem_map_of_mem isField, mem⟩
  | arrayLiteral values span =>
    exact .inr (by simpa [names, namesOfList_eq, parts] using mem)
  | bool | int | double | string | char | symbol => cases mem
  | _ => exact .inr (by simpa [names, parts] using mem)

/-- The data of a name in an expression are among those of the expression. -/
theorem data_le_of_mem_names (value : Expr) (mem : name ∈ value.names) :
    name.data ≤ value.data := by
  rcases eq_name_or_mem_names mem with rfl | ⟨part, isPart, mem⟩
  · exact le_refl _
  · have := sizeOf_part_lt isPart
    exact le_trans (data_le_of_mem_names part mem) (data_le_of_mem_parts isPart)
termination_by value

end Expr

/-! ## Statements -/

theorem Arm.data_eq (arm : Arm) :
    arm.data = arm.condition.data + total Stmt.data arm.body := by
  cases arm with
  | mk condition body => rw [data, dataOfBody_eq, Arm.condition, Arm.body]

theorem Case.data_eq (c : Case) : c.data = c.pattern.data + c.body.data := by
  cases c
  rfl

/-- What a pattern leads to has the data of its statements, or of its value. -/
theorem CaseBody.data_eq (body : CaseBody) : body.data =
    total Expr.data body.value?.toList + total (total Stmt.data) body.block?.toList := by
  cases body with
  | block body => simp [data, value?, block?, dataOfBody_eq]
  | value value => simp [data, value?, block?]

namespace Stmt

variable {stmt inner : Stmt}

/-- The data of a statement outside its expressions and its blocks. -/
def ownData : Stmt → Multiset Datum
  | declare _ type _ name _ _ => type.data + {.word name}
  | _ => 0

/-- **The data of a statement** are its own, those of its expressions and those of its blocks. -/
theorem data_eq (stmt : Stmt) : stmt.data = stmt.ownData + total Expr.data stmt.values +
    total (fun block => total Stmt.data block.1) stmt.blocks := by
  cases stmt with
  | loop condition body span => simp [data, ownData, values, blocks, dataOfBody_eq]
  | branch first others otherwise span =>
    rw [data, dataOfArms_eq, dataOfBody_eq, funext Arm.data_eq, total_add]
    simp only [ownData, values, blocks, total_cons, total_append, total_map, total_nil]
    abel
  | select subject cases otherwise span =>
    rw [data, dataOfCases_eq, dataOfLast_eq, funext Case.data_eq, funext CaseBody.data_eq,
      total_add, total_add, total_add]
    simp only [ownData, values, blocks, total_cons, total_append, total_map, total_filterMap]
    abel
  | _ => simp [data, ownData, values, blocks]

/-- The data of a name of a statement are among those of the statement. -/
theorem data_le_of_mem_names (mem : name ∈ stmt.names) : name.data ≤ stmt.data := by
  rw [data_eq stmt]
  rcases List.mem_append.1 mem with mem | mem
  · cases stmt with
    | declare isMutable type isArray text initial span =>
      obtain rfl := List.mem_singleton.1 mem
      rw [ownData, add_assoc, add_assoc]
      exact le_self_add
    | _ => cases mem
  · obtain ⟨value, isValue, mem⟩ := List.mem_flatMap.1 mem
    refine le_add_right (le_add_left ?_)
    exact le_trans (value.data_le_of_mem_names mem) (le_total isValue)

/-- The data of a statement at any depth of a body are among those of the body. -/
theorem data_le_of_mem_statements {body : List Stmt} :
    ∀ stmt ∈ statements body, stmt.data ≤ total data body := by
  induction body using bodyInduction with
  | nil => simp [statements]
  | cons first rest blocks ih =>
    intro stmt mem
    rw [statements_cons, List.cons_append, List.mem_cons, List.mem_append, List.mem_flatMap] at mem
    rw [total_cons]
    rcases mem with rfl | ⟨⟨block, isLoop⟩, isBlock, mem⟩ | mem
    · exact le_self_add
    · refine le_add_right (le_trans (blocks block isLoop isBlock stmt mem) ?_)
      rw [data_eq first]
      exact le_add_left (@le_total _ (fun block => total data block.1) _ _ isBlock)
    · exact le_add_left (ih stmt mem)

end Stmt

/-! ## Declarations and files -/

theorem data_le_of_mem_boundsOf {parameters : List TypeParameter}
    (mem : name ∈ boundsOf parameters) : name.data ≤ total TypeParameter.data parameters := by
  obtain ⟨p, isParameter, bound⟩ := List.mem_filterMap.1 mem
  refine le_trans ?_ (le_total isParameter)
  rw [TypeParameter.data, bound]
  exact le_add_left (le_total (List.mem_singleton_self name))

theorem data_le_of_mem_signatureTypes {inputs : List Parameter} {output : ReturnType}
    (mem : name ∈ signatureTypes inputs output) :
    name.data ≤ total Parameter.data inputs + output.type.data := by
  rcases List.mem_append.1 mem with mem | mem
  · obtain ⟨p, isInput, rfl⟩ := List.mem_map.1 mem
    exact le_add_right (le_trans le_self_add (le_total isInput))
  · obtain rfl := List.mem_singleton.1 mem
    exact le_add_self

/-- The data of a name in the initial value of a field are among those of the field. -/
theorem Field.data_le_of_mem_names {f : Field}
    (mem : name ∈ f.initial.toList.flatMap Expr.names) : name.data ≤ f.data := by
  obtain ⟨value, isInitial, mem⟩ := List.mem_flatMap.1 mem
  rw [data]
  exact le_add_left (le_trans (value.data_le_of_mem_names mem) (le_total isInitial))

namespace StructDecl

/-- The data of a structure are those that it writes by itself and those of the structures in it. -/
theorem data_eq (d : StructDecl) : d.data = {.word d.name} + total TypeParameter.data d.parameters +
    total Name.data d.bases + total Field.data d.fields + total data d.inner := by
  cases d
  rw [data, dataOfStructs_eq]

/-- The data of a name that a structure writes by itself are among those of the structure. -/
theorem data_le_of_mem_ownNames {d : StructDecl} (mem : name ∈ d.ownNames) :
    name.data ≤ d.data := by
  rw [data_eq d]
  refine le_add_right ?_
  rcases List.mem_append.1 mem with mem | mem
  · rcases List.mem_append.1 mem with mem | mem
    · refine le_add_right ?_
      rcases List.mem_append.1 mem with mem | isBase
      · exact le_add_right (le_add_left (data_le_of_mem_boundsOf mem))
      · exact le_add_left (le_total isBase)
    · obtain ⟨f, isField, rfl⟩ := List.mem_map.1 mem
      refine le_add_left (le_trans ?_ (le_total isField))
      rw [Field.data, add_assoc]
      exact le_self_add
  · obtain ⟨f, isField, mem⟩ := List.mem_flatMap.1 mem
    exact le_add_left (le_trans (Field.data_le_of_mem_names mem) (le_total isField))

/-- The data of a name of a structure, or of one inside it, are among those of the structure. -/
theorem data_le_of_mem_names (d : StructDecl) (mem : name ∈ d.names) : name.data ≤ d.data := by
  rw [names_eq] at mem
  rcases List.mem_append.1 mem with mem | mem
  · exact data_le_of_mem_ownNames mem
  · obtain ⟨inner, isInner, mem⟩ := List.mem_flatMap.1 mem
    have smaller : sizeOf inner < sizeOf d := by
      cases d
      have := List.sizeOf_lt_of_mem isInner
      simp only [mk.sizeOf_spec] at this ⊢
      omega
    refine le_trans (data_le_of_mem_names inner mem) ?_
    rw [data_eq d]
    exact le_add_left (le_total isInner)
termination_by d

end StructDecl

/-- The data of a name of a function outside its body are among those of the function. -/
theorem FnDecl.data_le_of_mem_headNames {d : FnDecl} (mem : name ∈ d.headNames) :
    name.data ≤ d.data := by
  rw [data]
  refine le_add_right ?_
  rcases List.mem_cons.1 mem with rfl | mem
  · rw [add_assoc, add_assoc]
    exact le_add_left le_self_add
  · rcases List.mem_append.1 mem with mem | mem
    · rw [add_assoc, add_assoc]
      exact le_add_right (data_le_of_mem_boundsOf mem)
    · rw [add_assoc]
      exact le_add_left (data_le_of_mem_signatureTypes mem)

/-- The data of a name that an interface writes are among those of the interface. -/
theorem InterfaceDecl.data_le_of_mem_types {d : InterfaceDecl} (mem : name ∈ d.types) :
    name.data ≤ (Decl.interface d).data := by
  rw [Decl.data]
  rcases List.mem_append.1 mem with mem | mem
  · exact le_add_right (le_add_left (data_le_of_mem_boundsOf mem))
  · obtain ⟨method, isMethod, mem⟩ := List.mem_flatMap.1 mem
    refine le_add_left (le_trans ?_ (le_total isMethod))
    rw [Method.data, add_assoc]
    exact le_add_left (data_le_of_mem_signatureTypes mem)

/-- The data of a name of a declaration are among those of the declaration. -/
theorem Decl.data_le_of_mem_names {d : Decl} (mem : name ∈ d.names) : name.data ≤ d.data := by
  rcases List.mem_append.1 mem with mem | mem
  · cases d with
    | struct d => exact d.data_le_of_mem_names mem
    | function d => exact FnDecl.data_le_of_mem_headNames mem
    | interface d => exact InterfaceDecl.data_le_of_mem_types mem
    | synonym d =>
      obtain rfl := List.mem_singleton.1 mem
      exact le_add_self
    | enum d => cases mem
  · obtain ⟨stmt, isStmt, mem⟩ := List.mem_flatMap.1 mem
    refine le_trans (Stmt.data_le_of_mem_names mem) ?_
    cases d with
    | function d =>
      rw [Decl.data, FnDecl.data]
      exact le_add_left (Stmt.data_le_of_mem_statements stmt isStmt)
    | _ => cases isStmt

/-- The data of a name in a name are among those of the whole. -/
theorem Name.data_le_of_mem_inside {inner : Name} (mem : inner ∈ name.inside) :
    inner.data ≤ name.data := by
  refine inside_induction (motive := fun inner => inner.data ≤ name.data) (le_refl _) ?_ mem
  intro outer within segment isSegment a isArgument
  have inSegment : a.data ≤ segment.data := by
    rw [Segment.data_eq]
    exact le_add_left (le_total isArgument)
  refine le_trans inSegment (le_trans ?_ within)
  rw [data_eq outer]
  exact le_total isSegment

/-- **The data of a name of a file are among those of the file**, wherever the name is written. -/
theorem File.HasName.data_le {file : File} (has : file.HasName name) : name.data ≤ file.data := by
  obtain ⟨outer, isName, inside⟩ := has
  obtain ⟨d, isDecl, isName⟩ := List.mem_flatMap.1 isName
  refine le_trans (Name.data_le_of_mem_inside inside) ?_
  refine le_trans (Decl.data_le_of_mem_names isName) ?_
  rw [File.data]
  exact le_add_right (le_add_left (le_total isDecl))

end FrontEnd

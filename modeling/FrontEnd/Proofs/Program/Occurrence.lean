import FrontEnd.Proofs.Program.AllNames

/-!
# What occurs in a file

The expressions and the names that a file has at any depth. An expression of a file stands in a
statement, at any depth of a body, or is the initial value of a field, in a structure at any depth; or
it stands within such an expression (`File.HasExpr`). A name of a file is one that is written by
itself, in type position, as the name of a function or as an expression, or one among the arguments
of a name, at any depth (`File.HasName`).

**The law** (`Name.inside_induction`): what passes from a name to its arguments holds of every name
in it.
-/

namespace FrontEnd

/-! ## Expressions -/

mutual
/-- The initial values of the fields of a structure and of the structures inside it. -/
def StructDecl.initials : StructDecl → List Expr
  | ⟨_, _, _, _, fields, inner, _⟩ => fields.filterMap Field.initial ++ StructDecl.initialsOf inner
/-- The initial values of the fields of structures. -/
def StructDecl.initialsOf : List StructDecl → List Expr
  | [] => []
  | struct :: rest => struct.initials ++ StructDecl.initialsOf rest
end

theorem StructDecl.initialsOf_eq (ds : List StructDecl) :
    StructDecl.initialsOf ds = ds.flatMap StructDecl.initials := by
  induction ds with
  | nil => rfl
  | cons d rest ih => rw [initialsOf, ih, List.flatMap_cons]

/-- The initial values of the fields that a declaration declares. -/
def Decl.initials : Decl → List Expr
  | .struct d => d.initials
  | .function _ | .interface _ | .synonym _ | .enum _ => []

namespace File

/-- **The initial values of the fields of a file**, in structures at any depth. -/
def initials (file : File) : List Expr :=
  file.declarations.flatMap Decl.initials

/-- The expressions of a file that stand in no other. -/
def values (file : File) : List Expr :=
  file.statements.flatMap Stmt.values ++ file.initials

/-- **A file has an expression** when it stands in the file at any depth. -/
def HasExpr (file : File) (value : Expr) : Prop :=
  ∃ outer ∈ file.values, value.Within outer

end File

/-! ## Names -/

/-- **The names in a name**: the name itself and those among its arguments, at any depth. -/
def Name.inside (name : Name) : List Name :=
  name :: name.parts.flatMap Segment.arguments

/-- **A file has a name** when it is written in the file, by itself or in another. -/
def File.HasName (file : File) (name : Name) : Prop :=
  ∃ outer ∈ file.names, name ∈ outer.inside

namespace Name

variable {motive : Name → Prop} {name inner : Name}

/-- An argument is smaller than the name it stands in. -/
theorem sizeOf_argument_lt {segment : Segment} (isSegment : segment ∈ name.segments)
    (isArgument : inner ∈ segment.arguments) : sizeOf inner < sizeOf name := by
  obtain ⟨segments, span⟩ := name
  obtain ⟨id, text, arguments, place⟩ := segment
  have inSegments := List.sizeOf_lt_of_mem isSegment
  have inArguments := List.sizeOf_lt_of_mem isArgument
  simp only [Segment.mk.sizeOf_spec] at inSegments inArguments
  simp only [mk.sizeOf_spec]
  omega

/-- Every segment in a name is one of the segments of a name that has what passes to arguments. -/
theorem exists_of_mem_parts
    (below : ∀ name, motive name → ∀ segment ∈ name.segments, ∀ a ∈ segment.arguments, motive a)
    (name : Name) (here : motive name) {part : Segment} (mem : part ∈ name.parts) :
    ∃ owner, motive owner ∧ part ∈ owner.segments := by
  rw [parts_eq, partsOfSegments_eq, List.mem_flatMap] at mem
  obtain ⟨segment, isSegment, mem⟩ := mem
  rw [Segment.parts_eq, partsOfNames_eq] at mem
  rcases List.mem_cons.1 mem with rfl | mem
  · exact ⟨name, here, isSegment⟩
  · obtain ⟨a, isArgument, mem⟩ := List.mem_flatMap.1 mem
    have := sizeOf_argument_lt isSegment isArgument
    exact exists_of_mem_parts below a (below name here segment isSegment a isArgument) mem
termination_by name

/-- **Induction into a name**: what passes from a name to its arguments holds of every name in it. -/
theorem inside_induction (here : motive name)
    (below : ∀ name, motive name → ∀ segment ∈ name.segments, ∀ a ∈ segment.arguments, motive a)
    (mem : inner ∈ name.inside) : motive inner := by
  rcases List.mem_cons.1 mem with rfl | mem
  · exact here
  · obtain ⟨part, isPart, mem⟩ := List.mem_flatMap.1 mem
    obtain ⟨owner, holds, isSegment⟩ := exists_of_mem_parts below name here isPart
    exact below owner holds part isSegment inner mem

end Name

end FrontEnd

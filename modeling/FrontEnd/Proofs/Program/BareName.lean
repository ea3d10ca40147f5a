import FrontEnd.Proofs.Program.TypeName

/-!
# Names without arguments

Behind a name without arguments the parser has looked for a list of them and found none, or has not
looked. An expression has such names as its symbols and among the segments of its names, at every
depth of their arguments. Each is known by the stretch of the source that it takes (`Expr.bare`).
-/

namespace FrontEnd

/-- The segments without arguments in a segment: itself, or those in its arguments. -/
def Segment.bare (segment : Segment) : List Span :=
  (segment.parts.filter fun part => part.arguments.isEmpty).map Segment.span

/-- The segments without arguments in a name. -/
def Name.bare (name : Name) : List Span :=
  name.segments.flatMap Segment.bare

theorem Segment.bare_plain (id : Nat) (text : String) (span : Span) :
    Segment.bare ⟨id, text, [], span⟩ = [span] := rfl

theorem Name.bare_eq (name : Name) :
    name.bare = (name.parts.filter fun part => part.arguments.isEmpty).map Segment.span := by
  rw [Name.parts_eq, partsOfSegments_eq, List.filter_flatMap, List.map_flatMap]
  rfl

/-- What is without arguments in the arguments of a segment is so in the segment. -/
theorem Segment.bare_arguments_subset (segment : Segment) :
    segment.arguments.flatMap Name.bare ⊆ segment.bare := by
  intro span mem
  obtain ⟨name, isArgument, inName⟩ := List.mem_flatMap.1 mem
  rw [Name.bare_eq] at inName
  obtain ⟨part, isPart, rfl⟩ := List.mem_map.1 inName
  obtain ⟨among, isBare⟩ := List.mem_filter.1 isPart
  refine List.mem_map_of_mem (List.mem_filter.2 ⟨?_, isBare⟩)
  rw [Segment.parts_eq, partsOfNames_eq]
  exact List.mem_cons_of_mem _ (List.mem_flatMap.2 ⟨name, isArgument, among⟩)

namespace Expr

mutual
/-- **The names without arguments in an expression**: its symbols, and the segments of its names. -/
def bare : Expr → List Span
  | bool _ _ | int _ _ | double _ _ | string _ _ | char _ _ => []
  | symbol _ span => [span]
  | name n => n.bare
  | negate value _ => value.bare
  | binary _ left right _ => left.bare ++ right.bare
  | call callee arguments _ => callee.bare ++ bareOfList arguments
  | index base position _ => base.bare ++ position.bare
  | member base _ _ => base.bare
  | structLiteral _ fields _ => bareOfFields fields
  | arrayLiteral values _ => bareOfList values
/-- The names without arguments in expressions. -/
def bareOfList : List Expr → List Span
  | [] => []
  | value :: rest => value.bare ++ bareOfList rest
/-- The names without arguments in the values of fields. -/
def bareOfFields : List (String × Expr) → List Span
  | [] => []
  | (_, value) :: rest => value.bare ++ bareOfFields rest
end

theorem bareOfList_eq (values : List Expr) : bareOfList values = values.flatMap bare := by
  induction values with
  | nil => rfl
  | cons value rest ih => rw [bareOfList, ih, List.flatMap_cons]

theorem bareOfFields_eq (fields : List (String × Expr)) :
    bareOfFields fields = fields.flatMap fun field => field.2.bare := by
  induction fields with
  | nil => rfl
  | cons field rest ih => rw [bareOfFields, ih, List.flatMap_cons]

@[simp] theorem bare_operation (operator : Operator) (left right : Expr) :
    (operation operator left right).bare = left.bare ++ right.bare := by
  rw [operation, bare]

end Expr

end FrontEnd

import FrontEnd.Program.Expr

/-!
# Uses of names in expressions

The places of an expression where a name stands for a value: a symbol, or the first segment of a
dotted or applied name. Members and further segments are looked up in what stands before them, and
so are no uses of their own.
-/

namespace FrontEnd

/-- **A use of a name** in an expression. A qualified use is the first segment of a dotted or
applied name. -/
structure Use where
  name : String
  position : Position
  isQualified : Bool
deriving DecidableEq, Repr

namespace Expr

mutual
/-- **The uses in an expression**, in the order of the source. -/
def uses : Expr → List Use
  | bool _ _ | int _ _ | double _ _ | string _ _ | char _ _ => []
  | symbol text span => [⟨text, span.start, false⟩]
  | name n => n.segments.head?.toList.map fun segment => ⟨segment.text, segment.span.start, true⟩
  | negate value _ => value.uses
  | binary _ left right _ => left.uses ++ right.uses
  | call callee arguments _ => callee.uses ++ usesOfList arguments
  | index base position _ => base.uses ++ position.uses
  | member base _ _ => base.uses
  | structLiteral _ fields _ => usesOfFields fields
  | arrayLiteral values _ => usesOfList values
/-- The uses in expressions. -/
def usesOfList : List Expr → List Use
  | [] => []
  | value :: rest => value.uses ++ usesOfList rest
/-- The uses in the values of fields. -/
def usesOfFields : List (String × Expr) → List Use
  | [] => []
  | (_, value) :: rest => value.uses ++ usesOfFields rest
end

end Expr

end FrontEnd

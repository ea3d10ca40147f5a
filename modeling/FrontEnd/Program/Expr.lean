import FrontEnd.Program.Name

/-!
# Expressions

The expressions of the language as a tree. Prefixed arithmetic has no form of its own: a sign is
kept as the operation that it stands for. A double is its 64 bits, so equal trees are equal values.
-/

namespace FrontEnd

/-- **The operators with two operands.** -/
inductive Operator where
  | multiply | divide | add | subtract
  | greater | greaterOrEqual | smaller | smallerOrEqual | equal | notEqual
  | and | or
deriving DecidableEq

/-- The written form of an operator. -/
def Operator.text : Operator → String
  | .multiply => "*"
  | .divide => "/"
  | .add => "+"
  | .subtract => "-"
  | .greater => ">"
  | .greaterOrEqual => ">="
  | .smaller => "<"
  | .smallerOrEqual => "<="
  | .equal => "=="
  | .notEqual => "!="
  | .and => "&&"
  | .or => "||"

/-- **The expressions.** -/
inductive Expr where
  | bool (value : Bool) (span : Span)
  | int (value : Int) (span : Span)
  | double (bits : UInt64) (span : Span)
  | string (value : String) (span : Span)
  | char (value : String) (span : Span)
  /-- A name of one segment without arguments. -/
  | symbol (text : String) (span : Span)
  /-- A name that is dotted or carries arguments. -/
  | name (name : Name)
  | negate (value : Expr) (span : Span)
  | binary (operator : Operator) (left right : Expr) (span : Span)
  | call (callee : Expr) (arguments : List Expr) (span : Span)
  | index (base position : Expr) (span : Span)
  | member (base : Expr) (field : String) (span : Span)
  | structLiteral (isMutable : Bool) (fields : List (String × Expr)) (span : Span)
  | arrayLiteral (values : List Expr) (span : Span)

namespace Expr

instance : Inhabited Expr := ⟨.bool false default⟩

/-- The stretch of the source that an expression takes. -/
def span : Expr → Span
  | bool _ s | int _ s | double _ s | string _ s | char _ s | symbol _ s => s
  | name n => n.span
  | negate _ s | binary _ _ _ s | call _ _ s | index _ _ s | member _ _ s => s
  | structLiteral _ _ s | arrayLiteral _ s => s

/-- The name of the form of an expression, as messages give it. -/
def form : Expr → String
  | bool _ _ => "Bool"
  | int _ _ => "Int"
  | double _ _ => "Double"
  | string _ _ => "String"
  | char _ _ => "Char"
  | symbol _ _ => "Symbol"
  | name _ => "GenericName"
  | negate _ _ => "Negate"
  | binary _ _ _ _ => "Binary"
  | call _ _ _ | index _ _ _ | member _ _ _ => "Postfix"
  | structLiteral _ _ _ => "StructLiteral"
  | arrayLiteral _ _ => "ArrayLiteral"

/-- An operation on two expressions takes the source from the start of the one to the end of the
other. -/
def operation (operator : Operator) (left right : Expr) : Expr :=
  .binary operator left right ⟨left.span.start, right.span.stop⟩

/-- **What can be assigned to**: names, elements and members. -/
def isAssignable : Expr → Bool
  | symbol _ _ | name _ | index _ _ _ | member _ _ _ => true
  | _ => false

end Expr

end FrontEnd

import FrontEnd.Program.Expr

/-!
# Statements

The statements of a function body as a tree. An assignment with an operator has no form of its own:
its value is the operation on its target.
-/

namespace FrontEnd

mutual
/-- **The statements.** -/
inductive Stmt where
  /-- A variable with its first value. -/
  | declare (isMutable : Bool) (type : Name) (isArray : Bool) (name : String)
      (initial : Expr) (span : Span)
  /-- A new value for a name, an element or a member. -/
  | assign (target value : Expr) (span : Span)
  /-- An expression on its own. -/
  | evaluate (value : Expr) (span : Span)
  /-- The end of the loop around it. -/
  | breakLoop (span : Span)
  /-- The next round of the loop around it. -/
  | continueLoop (span : Span)
  /-- A body that is repeated while a condition holds. -/
  | loop (condition : Expr) (body : List Stmt) (span : Span)
  /-- A condition with its body, further conditions tried in order, and a last body, which is empty
  when none is written. -/
  | branch (first : Arm) (others : List Arm) (otherwise : List Stmt) (span : Span)
  /-- The end of the function, with its value if it has one. -/
  | returnWith (value : Option Expr) (span : Span)
  /-- A subject that is held against patterns in order, and what every other subject leads to. -/
  | select (subject : Expr) (cases : List Case) (otherwise : Option CaseBody) (span : Span)
/-- **A condition and the statements it guards.** -/
inductive Arm where
  | mk (condition : Expr) (body : List Stmt)
/-- **A pattern of a selection and what it leads to.** -/
inductive Case where
  | mk (pattern : Expr) (body : CaseBody)
/-- **What a pattern leads to**: statements, or one expression. -/
inductive CaseBody where
  | block (body : List Stmt)
  | value (value : Expr)
end

/-- The stretch of the source that a statement takes. -/
def Stmt.span : Stmt → Span
  | .declare _ _ _ _ _ s | .assign _ _ s | .evaluate _ s | .breakLoop s | .continueLoop s
  | .loop _ _ s | .branch _ _ _ s | .returnWith _ s | .select _ _ _ s => s

end FrontEnd

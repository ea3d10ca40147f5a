import FrontEnd.Fault
import FrontEnd.Source.Position

/-!
# Diagnostics

A diagnostic is a fault at a position. A run that gives no result halts, either with a diagnostic
or because the budget of a recursion ran out; keeping the two apart is what lets a theorem say that
the second never happens.
-/

namespace FrontEnd

/-- **A fault and where it was found.** -/
structure Diagnostic where
  fault : Fault
  position : Position
deriving DecidableEq, Repr

/-- The detail of the fault with its file and line. -/
def Diagnostic.message (d : Diagnostic) : String :=
  d.fault.detail ++ " at " ++ d.position.file ++ ":" ++ d.position.line.repr

/-- **Why a run gave no result**: the program is at fault, or the budget of a recursion was too
small for its input. -/
inductive Halt where
  | fault (diagnostic : Diagnostic)
  | exhausted
deriving DecidableEq, Repr

end FrontEnd

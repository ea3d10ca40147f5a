import FrontEnd.Grammar.Decl
import FrontEnd.Program.Relabel

/-!
# Numbers of 32 bits

The numbers of segments are words of 32 bits, and so is the number that a file is parsed from. The
parser counts without bound, and what it parses does not depend on the count: a number is drawn, put
into a segment, and never looked at. So a run whose count stays below the last word is as it is
without bound, and of a run that counts further only two things can become (`Overflow`), which are
read off the run without bound (`File.ofTokens32?`).
-/

namespace FrontEnd

/-- **What becomes of a count that goes past the last word**: where sums are checked the run ends
there, and where they are not the count starts over at zero. -/
inductive Overflow where
  | ends
  | wraps
deriving DecidableEq, Repr

/-- Every number is cut down to a word. -/
def Relabel.wrap : Relabel :=
  ⟨(· % UInt32.size), fun p => p, fun f => f⟩

namespace File

/-- **How far a run counts**: the first number that is left over where it ends, well or not. -/
def countedTo (tokens : List Token) (firstId : Nat) : Nat :=
  match (Parse.file .standard).run (.ofTokens tokens firstId) with
  | .ok _ c | .error _ c => c.nextId

/-- **The file that a sequence of tokens writes, numbered in words**, and the word left over. There is
no answer, not even a fault, where the count goes too far and that ends the run. -/
def ofTokens32? (overflow : Overflow) (tokens : List Token) (firstId : UInt32) :
    Option (Except Halt (File × UInt32)) :=
  let counted := ofTokens tokens firstId.toNat
  if countedTo tokens firstId.toNat < UInt32.size then
    some (counted.map fun (file, nextId) => (file, .ofNat nextId))
  else
    match overflow with
    | .ends => none
    | .wraps => some (counted.map fun (file, nextId) => (file.relabel .wrap, .ofNat nextId))

end File

end FrontEnd

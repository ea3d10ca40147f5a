import FrontEnd.Source.Slice

/-!
# A reader over a source text

A reader stands at a position of a text. It is moved by a number of bytes, and a request past the end
stops at the end. A place in a text is a size of 64 bits: where a request is made at a place that is
so far on that their sum is none, there is no answer, and neither is there one where a request stops
inside a character.

Moving and asking for a span each add and stop by themselves. **The law** (`Reader.spanOf?_eq`): the
span of the next `n` bytes ends where moving by `n` bytes arrives, and is missing where that fails.
-/

namespace FrontEnd

/-- The sum of two sizes of 64 bits, if it is one. -/
def addSizes? (a b : Nat) : Option Nat :=
  if a + b < UInt64.size then some (a + b) else none

theorem addSizes?_of_lt {a b : Nat} (fits : a + b < UInt64.size) : addSizes? a b = some (a + b) :=
  if_pos fits

theorem addSizes?_eq_none {a b : Nat} (exceeds : ¬ a + b < UInt64.size) : addSizes? a b = none :=
  if_neg exceeds

/-- **A place in a text**: the text and the position reached in it. -/
structure Reader where
  text : List Char
  here : Position
deriving DecidableEq, Repr

namespace Reader

/-- A reader at the start of a text. -/
def ofText (file : String) (text : List Char) : Reader :=
  ⟨text, .first file⟩

/-- Whether nothing is left to read. -/
def atEnd (r : Reader) : Bool :=
  byteLength r.text ≤ r.here.offset

/-- What is left to read. -/
def remainder? (r : Reader) : Option (List Char) :=
  sliceFrom? r.text r.here.offset

/-- **Moves past the next `n` bytes**, or to the end when fewer are left. -/
def advance? (r : Reader) (n : Nat) : Option Reader := do
  let stop := min (← addSizes? r.here.offset n) (byteLength r.text)
  let passed ← slice? r.text r.here.offset stop
  return ⟨r.text, ⟨stop, r.here.line + newlines passed, r.here.file⟩⟩

/-- **The span of the next `n` bytes**, or of all that is left when fewer are. -/
def spanOf? (r : Reader) (n : Nat) : Option Span := do
  let stop := min (← addSizes? r.here.offset n) (byteLength r.text)
  let lines := newlines (← slice? r.text r.here.offset stop)
  return ⟨r.here, ⟨stop, r.here.line + lines, r.here.file⟩⟩

/-- **A span predicts a move**: it ends where moving by as many bytes arrives. -/
theorem spanOf?_eq (r : Reader) (n : Nat) :
    r.spanOf? n = (r.advance? n).map fun next => ⟨r.here, next.here⟩ := by
  unfold spanOf? advance?
  cases addSizes? r.here.offset n with
  | none => rfl
  | some sum =>
    cases passed : slice? r.text r.here.offset (min sum (byteLength r.text)) with
    | none => simp [passed]
    | some _ => simp [passed]

end Reader

end FrontEnd

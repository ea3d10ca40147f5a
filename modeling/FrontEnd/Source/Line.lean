import FrontEnd.Source.Position

/-!
# The line of an offset

A text is cut into lines, each with the newline that ends it; the last line may have none.
`lineAt?` finds the line that a byte offset falls in and the column inside it, in bytes. The offset
just past the text falls in the last line when that line is open, and otherwise in an empty line
after it. An offset beyond that has no line.

**The law** (`flatten_lines`): the lines put together are the text.
-/

namespace FrontEnd

/-- **The line of an offset**: its number counted from one, its text with the newline that ends
it, and the column of the offset in bytes from the start of the line. -/
structure Line where
  number : Nat
  text : List Char
  column : Nat
deriving DecidableEq, Repr

/-- A text as lines, each with the newline that ends it. -/
def lines : List Char → List (List Char)
  | [] => []
  | c :: cs =>
    if c = '\n' then [c] :: lines cs
    else
      match lines cs with
      | [] => [[c]]
      | line :: rest => (c :: line) :: rest

/-- Whether a column stands in a line: before its end, or at the end of a line still open. -/
def inLine (line : List Char) (column : Nat) : Bool :=
  column < byteLength line || (column == byteLength line && line.getLast? != some '\n')

/-- The line of an offset among the lines numbered from `number` on. -/
def lineAmong (number : Nat) (offset : Nat) : List (List Char) → Option Line
  | [] => if offset = 0 then some ⟨number, [], 0⟩ else none
  | line :: rest =>
    if inLine line offset then some ⟨number, line, offset⟩
    else lineAmong (number + 1) (offset - byteLength line) rest

/-- **The line of a byte offset**, or `none` when the offset lies past the end of the text. -/
def lineAt? (text : List Char) (offset : Nat) : Option Line :=
  lineAmong 1 offset (lines text)

/-- The lines put together are the text. -/
theorem flatten_lines (text : List Char) : (lines text).flatten = text := by
  induction text with
  | nil => rfl
  | cons c cs ih =>
    unfold lines
    split
    · simp [ih]
    · split <;> simp_all

end FrontEnd

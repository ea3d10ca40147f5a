/-!
# Positions in a source text

A position is a byte offset, a line counted from one, and the name of the file. Text is a list of
characters, and `Position.past` moves a position over a text: the offset grows by the bytes of the
text in UTF-8, the line by its newlines. Offsets and lines are counted without bound; a source has
them all in words of 32 bits as long as its bytes are fewer (`FrontEnd.compile_in_words`).

**The law** (`Position.past_append`): moving over two texts in turn is moving over their
concatenation, so a position depends only on the text before it and not on how that text was cut.
-/

namespace FrontEnd

/-- The number of bytes that a text takes in UTF-8. -/
def byteLength (text : List Char) : Nat :=
  text.foldr (fun c bytes => c.utf8Size + bytes) 0

/-- The number of newlines in a text. -/
def newlines (text : List Char) : Nat :=
  text.count '\n'

/-- The name of a file that has none of its own. -/
def unnamedFile : String :=
  "shell"

/-- **A point in a source text**: the byte offset, the line counted from one, and the file. -/
structure Position where
  offset : Nat
  line : Nat
  file : String
deriving DecidableEq, Repr, Inhabited

/-- **A stretch of a source text**, from the start of its first character to the end of its last. -/
structure Span where
  start : Position
  stop : Position
deriving DecidableEq, Repr, Inhabited

namespace Position

/-- The start of a file. -/
def first (file : String) : Position :=
  ⟨0, 1, file⟩

/-- The position of what stands in no file. -/
def nowhere : Position :=
  ⟨0, 0, "<null>"⟩

/-- **The position past a text**: the offset grows by its bytes, the line by its newlines. -/
def past (p : Position) (text : List Char) : Position :=
  ⟨p.offset + byteLength text, p.line + newlines text, p.file⟩

end Position

/-! ## How lengths and positions compose -/

@[simp] theorem byteLength_nil : byteLength [] = 0 := rfl

@[simp] theorem byteLength_cons (c : Char) (text : List Char) :
    byteLength (c :: text) = c.utf8Size + byteLength text := rfl

@[simp] theorem byteLength_append (a b : List Char) :
    byteLength (a ++ b) = byteLength a + byteLength b := by
  induction a with
  | nil => simp
  | cons c rest ih => rw [List.cons_append, byteLength_cons, ih, byteLength_cons, Nat.add_assoc]

@[simp] theorem newlines_nil : newlines [] = 0 := rfl

@[simp] theorem newlines_append (a b : List Char) :
    newlines (a ++ b) = newlines a + newlines b := by
  simp [newlines]

namespace Position

@[simp] theorem past_nil (p : Position) : p.past [] = p := rfl

/-- Moving over two texts in turn is moving over their concatenation. -/
theorem past_append (p : Position) (a b : List Char) : p.past (a ++ b) = (p.past a).past b := by
  simp [past, Nat.add_assoc]

end Position

end FrontEnd

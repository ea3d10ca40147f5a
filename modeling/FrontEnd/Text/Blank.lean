import FrontEnd.Text.Ranges

/-!
# Blank characters

The twenty-five characters with the Unicode property `White_Space`. They separate lexemes and are
dropped at the end of a quoted source line.
-/

namespace FrontEnd

/-- The code points with the property `White_Space`. -/
def blanks : CharClass :=
  ⟨[(0x9, 0xd), (0x20, 0x20), (0x85, 0x85), (0xa0, 0xa0), (0x1680, 0x1680), (0x2000, 0x200a),
   (0x2028, 0x2029), (0x202f, 0x202f), (0x205f, 0x205f), (0x3000, 0x3000)],
    by decide⟩

/-- Whether a character is blank. -/
def isBlank (c : Char) : Bool :=
  blanks.contains c

/-- A text without the blanks that end it. -/
def trimRight (text : List Char) : List Char :=
  (text.reverse.dropWhile isBlank).reverse

end FrontEnd

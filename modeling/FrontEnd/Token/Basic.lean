import FrontEnd.Token.Kind
import FrontEnd.Source.Position

/-!
# Tokens

A token is a kind, a text and a span. The text of a literal or comment is what stands between or
after its delimiters; every other text is the lexeme itself. Every sequence of tokens that the
lexical rules produce ends with a token of the end, whose span is empty.
-/

namespace FrontEnd

/-- **A token**: its kind, its text, and the stretch of the source that its lexeme takes. -/
structure Token where
  kind : Token.Kind
  text : String
  span : Span
deriving DecidableEq, Repr, Inhabited

namespace Token

/-- The token of the end of a text, at the given position. -/
def ending (here : Position) : Token :=
  ⟨.eof, "EOF", ⟨here, here⟩⟩

/-- A token as it is shown: its kind, and its text where the kind does not fix it. -/
def display (t : Token) : String :=
  if t.kind.isOpen then t.kind.name ++ " (" ++ t.text ++ ")" else t.kind.name

end Token

end FrontEnd

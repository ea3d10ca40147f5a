import FrontEnd.Diagnostic.Basic
import FrontEnd.Source.Line
import FrontEnd.Text.Blank

/-!
# Rendered diagnostics

A diagnostic is shown with the line of the source that it points into and a caret under the column.
The line is printed without the spaces and tabs that begin it and the blanks that end it; its number
stands before it, and the caret line is indented to the width of that number. Columns are counted in
bytes. A position that lies past the end of the source has no line, and then the message stands in
its place.
-/

namespace FrontEnd

/-- Whether a character indents a line. -/
def isIndent (c : Char) : Bool :=
  c == ' ' || c == '\t'

/-- A mark at the end of a field of the given width, after as many fillers as it takes. -/
def padded (filler : Char) (width : Nat) (mark : String) : String :=
  String.ofList (List.replicate (width - mark.length) filler) ++ mark

namespace Line

/-- How far the caret of a line stands from the start of the printed text, counted from one. -/
def caret (line : Line) : Nat :=
  line.column - (line.text.takeWhile isIndent).length + 1

/-- **A source line with its number, and a caret below it.** -/
def render (line : Line) : String :=
  let number := line.number.repr
  let margin := padded ' ' (number.length + 2) "|"
  let shown := String.ofList (trimRight (line.text.dropWhile isIndent))
  margin ++ "\n" ++
    number ++ " | " ++ shown ++ "\n" ++
    margin ++ " " ++ padded '-' line.caret "^" ++ "\n"

end Line

namespace Diagnostic

/-- The first line of a rendered diagnostic: the name of the fault, and the tip if there is one. -/
def headline (d : Diagnostic) : String :=
  match d.fault.tip? with
  | none => "Error: " ++ d.fault.name
  | some tip => "Error: " ++ d.fault.name ++ " (" ++ tip ++ ")"

/-- **A diagnostic as it is shown to the author of the source.** -/
def render (d : Diagnostic) (source : String) : String :=
  d.headline ++ "\n" ++ "-> " ++ d.position.file ++ "\n" ++
    match lineAt? source.toList d.position.offset with
    | none => d.message ++ "\n"
    | some line => line.render

end Diagnostic

end FrontEnd

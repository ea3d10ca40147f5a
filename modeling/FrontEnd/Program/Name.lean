import FrontEnd.Source.Position

/-!
# Names

A name is a dotted chain of segments, and each segment may carry names as its arguments, as in
`geometry.Pair<int, Box<string>>`. Every segment has a number of its own, which the resolution of
types uses as its key.
-/

namespace FrontEnd

mutual
/-- **A dotted name.** -/
structure Name where
  segments : List Segment
  span : Span
/-- **One segment of a name** with its arguments. -/
structure Segment where
  id : Nat
  text : String
  arguments : List Name
  span : Span
end

instance : Inhabited Name := ⟨⟨[], default⟩⟩

namespace Name

/-- The texts of the segments, their arguments left out. -/
def path (name : Name) : List String :=
  name.segments.map Segment.text

/-- A name of one segment that carries no arguments. -/
def single (id : Nat) (text : String) (span : Span) : Name :=
  ⟨[⟨id, text, [], span⟩], span⟩

end Name

/-! ## The written form -/

mutual
/-- **The written form of a name**: its segments with points between them. -/
def Name.text : Name → String
  | ⟨segments, _⟩ => ".".intercalate (segmentTexts segments)
/-- The written forms of segments. -/
def segmentTexts : List Segment → List String
  | [] => []
  | segment :: rest => segment.written :: segmentTexts rest
/-- The written form of a segment: its text, and its arguments in angle brackets. -/
def Segment.written : Segment → String
  | ⟨_, text, [], _⟩ => text
  | ⟨_, text, argument :: rest, _⟩ =>
    text ++ "<" ++ ", ".intercalate (argument.text :: nameTexts rest) ++ ">"
/-- The written forms of names. -/
def nameTexts : List Name → List String
  | [] => []
  | name :: rest => name.text :: nameTexts rest
end

/-- **A declared type parameter**, with the type that bounds it if there is one. -/
structure TypeParameter where
  name : String
  bound : Option Name
  span : Span

end FrontEnd

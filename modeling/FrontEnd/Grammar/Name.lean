import FrontEnd.Grammar.Lookahead
import FrontEnd.Grammar.Parse
import FrontEnd.Program.Name

/-!
# Parsing names

Names with their arguments, declared type parameters, and the brackets of an array type. The number
of a segment is taken when its text is known, before the numbers of its arguments.

Names nest through their arguments. The actions for the parts of a name take the action for a whole
name as a parameter, and `nameUpTo` closes the circle with a bound on the depth; since a name inside
another stands behind an identifier and a bracket, the tokens left bound the depth.
-/

namespace FrontEnd

/-- **An identifier in an expression**: plain, or with arguments and then a segment of its own. -/
inductive Identifier where
  | plain (text : String) (span : Span)
  | applied (segment : Segment)

namespace Parse

open Token

/-- A list of type arguments in angle brackets. -/
def typeArguments (name : Parse Name) : Parse (List Name) := do
  let _ ← expect .less
  let names ← separated .greater name
  let _ ← expect .greater
  return names

/-- **An identifier**, with the arguments behind it if a list of them follows. -/
def identifierOf (name : Parse Name) : Parse Identifier := do
  let token ← expect .identifier
  if (← get).opensArguments then
    let id ← freshId
    let arguments ← typeArguments name
    let span ← spanFrom token.span.start
    return .applied ⟨id, token.text, arguments, span⟩
  else
    return .plain token.text token.span

/-- One segment of a name. -/
def segmentOf (name : Parse Name) : Parse Segment := do
  match ← identifierOf name with
  | .plain text span => return ⟨← freshId, text, [], span⟩
  | .applied segment => return segment

/-- A name whose arguments nest at most to a depth. -/
def nameUpTo : Nat → Parse Name
  | 0 => exhausted
  | n + 1 => do
    let start ← here
    let first ← segmentOf (nameUpTo n)
    let rest ← repeatWhile (fun c => c.kind = .dot) do
      let _ ← advance
      segmentOf (nameUpTo n)
    return ⟨first :: rest, ← spanFrom start⟩

/-- **A name**: segments with points between them, each with its arguments. -/
def name : Parse Name := do
  nameUpTo (← get).left.length

/-- An identifier, plain or with arguments. -/
def identifier : Parse Identifier :=
  identifierOf name

/-- One segment of a name. -/
def segment : Parse Segment :=
  segmentOf name

/-- A declared type parameter, with the separator behind it. -/
def typeParameter : Parse TypeParameter := do
  let token ← expect .identifier
  let bounded ← consume .colon
  let bound ← if bounded then some <$> name else pure none
  separator .greater
  return ⟨token.text, bound, token.span⟩

/-- **The type parameters of a declaration** in angle brackets; none where no bracket opens. -/
def typeParameters : Parse (List TypeParameter) := do
  if ← consume .less then
    let parameters ← repeatUntil .greater typeParameter
    let _ ← expect .greater
    return parameters
  else
    return []

/-- Whether the brackets of an array type follow; an opening bracket calls for the closing one. -/
def arrayMark : Parse Bool := do
  if ← consume .openBracket then
    let _ ← expect .closeBracket
    return true
  else
    return false

end Parse

end FrontEnd

import FrontEnd.Diagnostic.Basic
import FrontEnd.Grammar.Cursor

/-!
# Parsing actions

A parsing action moves a cursor and gives a value or halts; where it halts, the cursor stays at the
place of the failure. The actions here take one token or repeat another action.

A repetition is bounded by the tokens that are left, so an action that takes at least one token each
time is repeated as often as it has to be. The bound is met only by an action that takes nothing.
-/

namespace FrontEnd

/-- **A parsing action.** -/
abbrev Parse (α : Type) :=
  EStateM Halt Cursor α

namespace Parse

/-- Halts with a fault at a position. -/
def fail {α : Type} (fault : Fault) (position : Position) : Parse α :=
  throw (.fault ⟨fault, position⟩)

/-- Halts for want of budget. -/
def exhausted {α : Type} : Parse α :=
  throw .exhausted

end Parse

/-- The diagnostic that the current token is not what was expected. -/
def Cursor.unexpected (c : Cursor) (expected : String) : Diagnostic :=
  ⟨.unexpectedToken expected c.kind.name c.current.text, c.here⟩

namespace Parse

/-- Halts because the current token is not what was expected. -/
def unexpected {α : Type} (expected : String) : Parse α := do
  throw (.fault ((← get).unexpected expected))

/-- The kind of the current token. -/
def kind : Parse Token.Kind :=
  return (← get).kind

/-- The start of the current token. -/
def here : Parse Position :=
  return (← get).here

/-- The span from a position to the end of the last token taken. -/
def spanFrom (start : Position) : Parse Span :=
  return ⟨start, (← get).reached⟩

/-- **Takes the current token**, whatever it is. -/
def advance : Parse Token := do
  let c ← get
  set c.next
  return c.current

/-- Takes the current token if it is of a kind, and says whether it was. -/
def consume (kind : Token.Kind) : Parse Bool := do
  if (← get).kind = kind then
    let _ ← advance
    return true
  else
    return false

/-- **Takes a token of a kind**, or halts with the given diagnostic, or else with the diagnostic
that the kind was expected. -/
def expectOr (kind : Token.Kind) (other : Option Diagnostic) : Parse Token := do
  if (← get).kind = kind then advance
  else
    match other with
    | some diagnostic => throw (.fault diagnostic)
    | none => unexpected kind.name

/-- Takes a token of a kind. -/
def expect (kind : Token.Kind) : Parse Token :=
  expectOr kind none

/-- **Takes the comma between two elements of a list**, or leaves the closing token in place. -/
def separator (closing : Token.Kind) : Parse Unit := do
  let c ← get
  if c.kind = .comma then
    let _ ← advance
  else if c.kind = closing then
    return ()
  else
    unexpected (Token.Kind.comma.name ++ " or " ++ closing.name)

/-- A number that no segment has yet. There is always one here; what becomes of the count where
numbers are words is read off a run afterwards, since no action looks at it. -/
def freshId : Parse Nat :=
  modifyGet fun c => (c.nextId, { c with nextId := c.nextId + 1 })

/-! ## Repetition -/

/-- Repeats an action while a condition on the cursor holds, at most a number of times. -/
def repeatUpTo {α : Type} (holds : Cursor → Bool) (item : Parse α) : Nat → Parse (List α)
  | 0 => do
    if holds (← get) then exhausted else return []
  | n + 1 => do
    if holds (← get) then
      let first ← item
      let rest ← repeatUpTo holds item n
      return first :: rest
    else
      return []

/-- **Repeats an action while a condition on the cursor holds**, and gives the values in order. -/
def repeatWhile {α : Type} (holds : Cursor → Bool) (item : Parse α) : Parse (List α) := do
  repeatUpTo holds item (← get).left.length

/-- Repeats an action until the current token is of a kind. -/
def repeatUntil {α : Type} (closing : Token.Kind) (item : Parse α) : Parse (List α) :=
  repeatWhile (fun c => c.kind ≠ closing) item

/-- **The elements of a list up to its closing token**, with a comma between them and, if the source
has one, behind the last. -/
def separated {α : Type} (closing : Token.Kind) (item : Parse α) : Parse (List α) :=
  repeatUntil closing do
    let value ← item
    separator closing
    return value

/-- Replaces a value by a further action while a condition on the cursor holds, at most a number of
times. -/
def growUpTo {α : Type} (holds : Cursor → Bool) (step : α → Parse α) : Nat → α → Parse α
  | 0, value => do
    if holds (← get) then exhausted else return value
  | n + 1, value => do
    if holds (← get) then growUpTo holds step n (← step value) else return value

/-- **Replaces a value by a further action while a condition on the cursor holds.** -/
def growWhile {α : Type} (holds : Cursor → Bool) (step : α → Parse α) (value : α) : Parse α := do
  growUpTo holds step (← get).left.length value

end Parse

end FrontEnd

import FrontEnd.Grammar.Name
import FrontEnd.Grammar.Table
import FrontEnd.Number.Binary64

/-!
# Parsing expressions

Operator precedence. An expression begins with what its first token leads to; then, as long as the
current token binds tighter than the precedence asked for, it is taken into a longer expression
whose left part is the one so far. A `[` directly before a `]` is the mark of an array type and
never an index.

A sign is read as the operation that it stands for: `-x` is `x * -1`, `++x` is `x + 1` and `--x` is
`x - 1`, the number taking the span of the sign. A point behind a name lengthens the name; behind
anything else it selects a member.

The actions for the leads and follows take the action for an inner expression as a parameter, and
`exprUpTo` closes the circle with a bound on the depth. Every inner expression stands behind a token
of the outer one, so the tokens left bound the depth.
-/

namespace FrontEnd.Parse

open Token

/-! ## What begins an expression -/

/-- A literal whose text may have no value. -/
def literal {α : Type} (read : String → Option α) (build : α → Span → Expr) : Parse Expr := do
  let token ← advance
  match read token.text with
  | some value => return build value token.span
  | none => fail (.numberParseError token.text) token.span.start

/-- A literal whose text is its value. -/
def textLiteral (build : String → Span → Expr) : Parse Expr := do
  let token ← advance
  return build token.text token.span

/-- **A literal or an identifier.** -/
def primary : Parse Expr := do
  match ← kind with
  | .int => literal integer? .int
  | .double => literal Binary64.ofText? .double
  | .trueWord => return .bool true (← advance).span
  | .falseWord => return .bool false (← advance).span
  | .string => textLiteral .string
  | .char => textLiteral .char
  | .identifier =>
    match ← identifier with
    | .plain text span => return .symbol text span
    | .applied segment => return .name ⟨[segment], segment.span⟩
  | _ => unexpected "expression"

/-- **A sign and its operand**, as the operation that the sign stands for. -/
def sign (expr : Precedence → Parse Expr) : Parse Expr := do
  let token ← advance
  let operand ← expr .unary
  match token.kind with
  | .not => return .negate operand ⟨token.span.start, operand.span.stop⟩
  | .dash => return .operation .multiply operand (.int (-1) token.span)
  | .plusPlus => return .operation .add operand (.int 1 token.span)
  | .minusMinus => return .operation .subtract operand (.int 1 token.span)
  | _ => fail (.expectedExpression token.kind.name token.text) token.span.start

/-- An expression in parentheses is the expression itself. -/
def group (expr : Precedence → Parse Expr) : Parse Expr := do
  let _ ← advance
  let inner ← expr .loosest
  let _ ← expect .closeParen
  return inner

/-- **A field of a structure literal.** A field without a value has the value of the symbol of its
name. -/
def fieldValue (expr : Precedence → Parse Expr) : Parse (String × Expr) := do
  let _ ← expect .dot
  let token ← expect .identifier
  match ← kind with
  | .comma | .closeCurly => return (token.text, .symbol token.text token.span)
  | _ =>
    let _ ← expect .assignment
    return (token.text, ← expr .loosest)

/-- A structure with its fields in braces. -/
def structLiteral (expr : Precedence → Parse Expr) : Parse Expr := do
  let start ← here
  let isMutable ← consume .mutWord
  let _ ← expect .openCurly
  let fields ← separated .closeCurly (fieldValue expr)
  let _ ← expect .closeCurly
  return .structLiteral isMutable fields (← spanFrom start)

/-- An array with its values in brackets. -/
def arrayLiteral (expr : Precedence → Parse Expr) : Parse Expr := do
  let start ← here
  let _ ← expect .openBracket
  let values ← separated .closeBracket (expr .loosest)
  let _ ← expect .closeBracket
  return .arrayLiteral values (← spanFrom start)

/-- **The expression that a lead begins.** -/
def lead (expr : Precedence → Parse Expr) : Lead → Parse Expr
  | .primary => primary
  | .sign => sign expr
  | .group => group expr
  | .structLiteral => structLiteral expr
  | .arrayLiteral => arrayLiteral expr

/-! ## What continues an expression -/

/-- **An operator and its right operand**, which binds tighter than the operator, so operators of
one precedence associate to the left. -/
def binary (expr : Precedence → Parse Expr) (left : Expr) (precedence : Precedence) :
    Parse Expr := do
  let token ← advance
  match Operator.ofKind? token.kind with
  | none => fail (.unexpectedToken "binary operator" token.kind.name token.text) token.span.start
  | some operator => return .operation operator left (← expr precedence)

/-- The arguments of a call in parentheses. -/
def call (expr : Precedence → Parse Expr) (left : Expr) : Parse Expr := do
  let _ ← advance
  let arguments ← separated .closeParen (expr .loosest)
  let _ ← expect .closeParen
  return .call left arguments (← spanFrom left.span.start)

/-- An index in brackets. -/
def index (expr : Precedence → Parse Expr) (left : Expr) : Parse Expr := do
  let _ ← advance
  let position ← expr .loosest
  let _ ← expect .closeBracket
  return .index left position (← spanFrom left.span.start)

/-- **A point**: behind a name it adds a segment to the name, behind anything else it selects a
member. -/
def member (left : Expr) : Parse Expr := do
  let _ ← advance
  match left with
  | .symbol text span =>
    let first : Segment := ⟨← freshId, text, [], span⟩
    let second ← segment
    return .name ⟨[first, second], ← spanFrom span.start⟩
  | .name name =>
    let next ← segment
    return .name ⟨name.segments ++ [next], ← spanFrom name.span.start⟩
  | left =>
    let token ← expect .identifier
    return .member left token.text (← spanFrom left.span.start)

/-- **The longer expression that a follow makes** of the expression so far. -/
def follow (expr : Precedence → Parse Expr) (form : Follow) (left : Expr)
    (precedence : Precedence) : Parse Expr :=
  match form with
  | .binary => binary expr left precedence
  | .call => call expr left
  | .index => index expr left
  | .member => member left

/-! ## Expressions -/

/-- **Whether the current token continues an expression** parsed at a precedence: it binds tighter,
has a follow, and is not the mark of an array type. -/
def continues (g : Grammar) (precedence : Precedence) (c : Cursor) : Bool :=
  !(c.kind == .openBracket && c.peek 1 == .closeBracket) &&
    precedence.rank < (g.binding c.kind).rank && (g.follow c.kind).isSome

/-- Takes the current token into a longer expression; an expression that nothing continues stays. -/
def extend (g : Grammar) (expr : Precedence → Parse Expr) (left : Expr) : Parse Expr := do
  let kind ← kind
  match g.follow kind with
  | some form => follow expr form left (g.binding kind)
  | none => return left

/-- What the current token begins, if it begins an expression. -/
def opening (g : Grammar) (expr : Precedence → Parse Expr) : Parse Expr := do
  let c ← get
  match g.lead c.kind with
  | some form => lead expr form
  | none => fail (.expectedExpression c.kind.name c.current.text) c.here

/-- An expression that nests at most to a depth. -/
def exprUpTo (g : Grammar) : Nat → Precedence → Parse Expr
  | 0, _ => exhausted
  | n + 1, precedence => do
    let first ← opening g (exprUpTo g n)
    growWhile (continues g precedence) (extend g (exprUpTo g n)) first

/-- **An expression** of tokens that bind tighter than a precedence. -/
def expr (g : Grammar) (precedence : Precedence) : Parse Expr := do
  exprUpTo g (← get).left.length precedence

end FrontEnd.Parse

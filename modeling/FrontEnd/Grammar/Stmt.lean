import FrontEnd.Grammar.Expr
import FrontEnd.Program.Stmt

/-!
# Parsing statements

A statement with a word of its own is told by that word. Every other statement begins with an
expression: when the expression is a bare name and an identifier follows, perhaps behind the mark of
an array type, the name is a type and the statement declares a variable; otherwise it is an
assignment or an expression on its own.

An assignment with an operator assigns the operation on the target and the right side, which is one
operand whatever operators it holds.

Statements nest through blocks. The actions take the action for a block as a parameter, and
`stmtUpTo` closes the circle with a bound on the depth, which the tokens left bound in turn.
-/

namespace FrontEnd.Parse

open Token

/-- **Statements in braces.** The end of the file ends the statements too, and is then found where
the closing brace should be. -/
def blockOf (stmt : Parse Stmt) : Parse (List Stmt) := do
  let _ ← expect .openCurly
  let body ← repeatWhile (fun c => c.kind ≠ .closeCurly && c.kind ≠ .eof) stmt
  let _ ← expect .closeCurly
  return body

/-- An expression in parentheses, as the condition or subject of a statement. -/
def condition (g : Grammar) : Parse Expr := do
  let _ ← expect .openParen
  let value ← expr g .loosest
  let _ ← expect .closeParen
  return value

/-! ## Statements that begin with an expression -/

/-- A declaration of a variable from behind its type on. -/
def declaration (g : Grammar) (isMutable : Bool) (type : Name) (start : Position) : Parse Stmt := do
  let isArray ← arrayMark
  let token ← expect .identifier
  let _ ← expect .assignment
  let initial ← expr g .loosest
  let _ ← expect .semicolon
  return .declare isMutable type isArray token.text initial (← spanFrom start)

/-- Whether an identifier follows, perhaps behind the mark of an array type. -/
def declares (c : Cursor) : Bool :=
  c.kind == .identifier ||
    (c.kind == .openBracket && c.peek 1 == .closeBracket && c.peek 2 == .identifier)

/-- What an assignment token makes of the two sides: the right side, or an operation on both. -/
def assignedValue? : Kind → Option (Expr → Expr → Expr)
  | .assignment => some fun _ value => value
  | .plusEquals => some (.operation .add)
  | .minusEquals => some (.operation .subtract)
  | .starEquals => some (.operation .multiply)
  | .slashEquals => some (.operation .divide)
  | _ => none

/-- What assigns is the token that assigns the right side, or one of those that assign an operation
on both sides. -/
theorem assignedValue?_cases {k : Kind} {assigned : Expr → Expr → Expr}
    (h : assignedValue? k = some assigned) :
    (k = .assignment ∧ assigned = fun _ value => value) ∨
      (k ∈ [.plusEquals, .minusEquals, .starEquals, .slashEquals] ∧
        ∃ operator, assigned = .operation operator) := by
  unfold assignedValue? at h
  split at h
  · exact .inl ⟨rfl, (Option.some.inj h).symm⟩
  · exact .inr ⟨by decide, _, (Option.some.inj h).symm⟩
  · exact .inr ⟨by decide, _, (Option.some.inj h).symm⟩
  · exact .inr ⟨by decide, _, (Option.some.inj h).symm⟩
  · exact .inr ⟨by decide, _, (Option.some.inj h).symm⟩
  · cases h

/-- **An assignment or an expression on its own**, from behind its first expression on. -/
def assignment (g : Grammar) (target : Expr) (start : Position) : Parse Stmt := do
  match assignedValue? (← kind) with
  | none =>
    let _ ← expect .semicolon
    return .evaluate target (← spanFrom start)
  | some assigned =>
    if target.isAssignable then
      let _ ← advance
      let value ← expr g .loosest
      let _ ← expect .semicolon
      return .assign target (assigned target value) (← spanFrom start)
    else
      fail (.invalidAssignmentTarget target.form) target.span.start

/-- **A statement that begins with an expression.** -/
def simple (g : Grammar) : Parse Stmt := do
  let start ← here
  let first ← expr g .loosest
  if declares (← get) then
    match first with
    | .symbol text span => declaration g false (.single (← freshId) text span) start
    | .name type => declaration g false type start
    | other => assignment g other start
  else
    assignment g first start

/-! ## Statements with a word of their own -/

/-- A loop and its condition. -/
def loop (g : Grammar) (block : Parse (List Stmt)) : Parse Stmt := do
  let start := (← advance).span.start
  let condition ← condition g
  let body ← block
  return .loop condition body (← spanFrom start)

/-- A condition and the block it guards. -/
def arm (g : Grammar) (block : Parse (List Stmt)) : Parse Arm := do
  let condition ← condition g
  return .mk condition (← block)

/-- **A branch**: a first arm, further arms, and a last block. -/
def branch (g : Grammar) (block : Parse (List Stmt)) : Parse Stmt := do
  let start := (← advance).span.start
  let first ← arm g block
  let others ← repeatWhile (fun c => c.kind = .elseWord && c.peek 1 = .ifWord) do
    let _ ← advance
    let _ ← advance
    arm g block
  let otherwise ← if ← consume .elseWord then block else pure []
  return .branch first others otherwise (← spanFrom start)

/-- A return, with a value unless the semicolon follows at once. -/
def returnWith (g : Grammar) : Parse Stmt := do
  let start := (← advance).span.start
  let value ← if (← kind) = .semicolon then pure none else some <$> expr g .loosest
  let _ ← expect .semicolon
  return .returnWith value (← spanFrom start)

/-- What a pattern leads to: a block where a brace opens, and otherwise an expression. -/
def caseBody (g : Grammar) (block : Parse (List Stmt)) : Parse CaseBody := do
  if (← kind) = .openCurly then .block <$> block else .value <$> expr g .loosest

/-- A pattern and what it leads to, with the separator behind it. -/
def case (g : Grammar) (block : Parse (List Stmt)) : Parse Case := do
  let pattern ← expr g .loosest
  let _ ← expect .colonColon
  let body ← caseBody g block
  separator .closeCurly
  return .mk pattern body

/-- The last case of a selection, which stands for every other pattern, if there is one. -/
def lastCase (g : Grammar) (block : Parse (List Stmt)) : Parse (Option CaseBody) := do
  if ← consume .elseWord then
    let _ ← expect .colonColon
    let body ← caseBody g block
    separator .closeCurly
    return some body
  else
    return none

/-- **A selection**: a subject, patterns, and a last case, which closes the list. -/
def select (g : Grammar) (block : Parse (List Stmt)) : Parse Stmt := do
  let start := (← advance).span.start
  let subject ← condition g
  let _ ← expect .openCurly
  let cases ← repeatWhile (fun c => c.kind ≠ .closeCurly && c.kind ≠ .elseWord) (case g block)
  let otherwise ← lastCase g block
  let _ ← expect .closeCurly
  return .select subject cases otherwise (← spanFrom start)

/-- A word that is a statement with its semicolon. -/
def control (build : Span → Stmt) : Parse Stmt := do
  let start := (← advance).span.start
  let _ ← expect .semicolon
  return build (← spanFrom start)

/-- A declaration of a variable that may change. -/
def declareMutable (g : Grammar) : Parse Stmt := do
  let start := (← advance).span.start
  let type ← name
  declaration g true type start

/-! ## Statements -/

/-- **The statement that a form begins.** -/
def formStmt (g : Grammar) (block : Parse (List Stmt)) : StmtForm → Parse Stmt
  | .loop => loop g block
  | .branch => branch g block
  | .returnWith => returnWith g
  | .select => select g block
  | .breakLoop => control .breakLoop
  | .continueLoop => control .continueLoop
  | .declareMutable => declareMutable g

/-- A statement whose blocks nest at most to a depth. -/
def stmtUpTo (g : Grammar) : Nat → Parse Stmt
  | 0 => exhausted
  | n + 1 => do
    match g.stmt (← kind) with
    | some form => formStmt g (blockOf (stmtUpTo g n)) form
    | none => simple g

/-- **A statement.** -/
def stmt (g : Grammar) : Parse Stmt := do
  stmtUpTo g (← get).left.length

/-- **A block of statements.** -/
def block (g : Grammar) : Parse (List Stmt) :=
  blockOf (stmt g)

end FrontEnd.Parse

import FrontEnd.Text.Quoted

/-!
# Faults

A fault is the reason why a program is refused, with what a message says of it. Every fault belongs
to one stage of the front end, has a name, a detail, and in most cases a tip. The wording of all of
them stands here; the rest of the library speaks of the constructors.
-/

namespace FrontEnd

/-- **The stages of the front end** that find faults. -/
inductive Stage where
  | lexing | parsing | symbols | scopes
deriving DecidableEq, Repr

/-- The name of a stage, as diagnostics give it. -/
def Stage.name : Stage → String
  | .lexing => "LexError"
  | .parsing => "ParseError"
  | .symbols => "SymbolError"
  | .scopes => "ScopeError"

/-- **The reasons to refuse a program.** -/
inductive Fault where
  /-- A character that begins no lexeme. -/
  | unrecognisedToken (text : String)
  /-- Half of an operator that is written with two equal characters. -/
  | incompleteOperator (expected found : String)
  /-- A number with more than one point. -/
  | twoDotsInDouble (text : String)
  /-- A string literal without its closing quote. -/
  | unterminatedString
  /-- A character literal without its closing quote. -/
  | unterminatedChar
  /-- A token where another was called for. -/
  | unexpectedToken (expected foundKind found : String)
  /-- A token that begins no expression, where one was called for. -/
  | expectedExpression (foundKind found : String)
  /-- A number that has no value. -/
  | numberParseError (text : String)
  /-- A second block of exports. -/
  | duplicateExport
  /-- An assignment to what holds no value. -/
  | invalidAssignmentTarget (target : String)
  /-- Two different declarations of one path. -/
  | duplicateDeclaration (path : String)
  /-- A type name that leads to no type. -/
  | undefinedSymbol (name : String)
  /-- A type with more or fewer arguments than it takes. -/
  | genericArgumentMismatch (name : String) (expected received : Nat)
  /-- A name used where it is not visible. -/
  | nameNotDeclared (name : String)
  /-- A loop control that stands in no loop. -/
  | controlOutsideLoop (keyword : String)
deriving DecidableEq, Repr

namespace Fault

/-- The stage that finds a fault. -/
def stage : Fault → Stage
  | unrecognisedToken _ | incompleteOperator _ _ | twoDotsInDouble _ | unterminatedString
  | unterminatedChar => .lexing
  | unexpectedToken _ _ _ | expectedExpression _ _ | numberParseError _ | duplicateExport
  | invalidAssignmentTarget _ => .parsing
  | duplicateDeclaration _ | undefinedSymbol _ | genericArgumentMismatch _ _ _ => .symbols
  | nameNotDeclared _ | controlOutsideLoop _ => .scopes

/-- The name of a fault. -/
def name : Fault → String
  | unrecognisedToken _ => "UnrecognisedToken"
  | incompleteOperator _ _ => "IncompleteOperator"
  | twoDotsInDouble _ => "TwoDotsInDouble"
  | unterminatedString => "UnterminatedString"
  | unterminatedChar => "UnterminatedChar"
  | unexpectedToken _ _ _ => "UnexpectedToken"
  | expectedExpression _ _ => "ExpectedExpression"
  | numberParseError _ => "NumberParseError"
  | duplicateExport => "DuplicateExport"
  | invalidAssignmentTarget _ => "InvalidAssignmentTarget"
  | duplicateDeclaration _ => "DuplicateDeclaration"
  | undefinedSymbol _ => "UndefinedSymbol"
  | genericArgumentMismatch _ _ _ => "GenericArgumentMismatch"
  | nameNotDeclared _ => "NameNotDeclared"
  | controlOutsideLoop _ => "ControlOutsideLoop"

/-- **What is wrong**, in one line. A text taken from the program is quoted where it may hold
anything, and stands bare where it is a name. -/
def detail : Fault → String
  | unrecognisedToken text => "unrecognised character: " ++ quoted text
  | incompleteOperator expected found =>
    "found " ++ quoted found ++ ", expected " ++ quoted expected
  | twoDotsInDouble text => "two dots in a double: " ++ quoted text
  | unterminatedString => "unterminated string literal"
  | unterminatedChar => "unterminated char literal"
  | unexpectedToken expected foundKind found =>
    "expected " ++ expected ++ " but found " ++ foundKind ++ " " ++ quoted found
  | expectedExpression foundKind found =>
    "expecting expression, found " ++ foundKind ++ " " ++ quoted found
  | numberParseError text => "error parsing number: " ++ quoted text
  | duplicateExport => "only one export block is allowed per file"
  | invalidAssignmentTarget target => "cannot assign to " ++ target
  | duplicateDeclaration path => "symbol `" ++ path ++ "` declared twice"
  | undefinedSymbol name => "Undefined Symbol used: " ++ name ++ "."
  | genericArgumentMismatch name expected received =>
    "generic arguments of `" ++ name ++ "` do not match: expected " ++ expected.repr ++
      ", received " ++ received.repr
  | nameNotDeclared name => "Name " ++ name ++ " not declared before use."
  | controlOutsideLoop keyword => "`" ++ keyword ++ "` used outside of a loop"

/-- **What to do about it**, where there is something to say. -/
def tip? : Fault → Option String
  | unrecognisedToken _ => none
  | incompleteOperator expected _ => some ("Did you mean `" ++ expected ++ "`?")
  | twoDotsInDouble text =>
    some ("Invalid number: `" ++ text ++ "`, a double can only contain one `.`")
  | unterminatedString => some "Missing closing `\"` of string literal"
  | unterminatedChar => some "Missing closing `\x27` of char literal"
  | unexpectedToken expected _ found =>
    some ("Expected " ++ expected ++ ", found `" ++ found ++ "`")
  | expectedExpression _ found => some ("Expected an expression, found `" ++ found ++ "`")
  | numberParseError text =>
    some ("Invalid number: `" ++ text ++ "`, is it above the integer limit?")
  | duplicateExport => some "Merge the exported names into a single `export \x7b ... \x7d` block"
  | invalidAssignmentTarget _ => some "Only names, fields and indexed values can be assigned to"
  | duplicateDeclaration path => some ("`" ++ path ++ "` is already declared")
  | undefinedSymbol name => some ("Declare `" ++ name ++ "` or check its spelling")
  | genericArgumentMismatch name expected received =>
    some ("`" ++ name ++ "` takes " ++ expected.repr ++ " generic arguments, received " ++
      received.repr)
  | nameNotDeclared name => some ("Declare `" ++ name ++ "` before using it")
  | controlOutsideLoop keyword => some ("`" ++ keyword ++ "` can only be used inside a loop")

end Fault

end FrontEnd

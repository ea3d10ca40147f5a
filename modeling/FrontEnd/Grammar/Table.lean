import FrontEnd.Program.Expr
import FrontEnd.Token.Kind

/-!
# Grammars as tables

An expression is parsed by operator precedence. A token that may begin an expression has a *lead*; a
token that may continue one has a *follow* and a precedence. Statements and declarations are told
apart by their first token. A grammar is the tables that say which token does what, so it can be
changed token by token; `Grammar.standard` is the grammar of the language.
-/

namespace FrontEnd

/-- **How tightly a token binds** the expression before it, from the loosest to the tightest. -/
inductive Precedence where
  | loosest | logicalOr | logicalAnd | equality | relational | additive | multiplicative | unary
  | access | tightest
deriving DecidableEq, Repr

/-- The place of a precedence in the order, from the loosest on. -/
def Precedence.rank : Precedence → Nat
  | .loosest => 0
  | .logicalOr => 1
  | .logicalAnd => 2
  | .equality => 3
  | .relational => 4
  | .additive => 5
  | .multiplicative => 6
  | .unary => 7
  | .access => 8
  | .tightest => 9

/-- **The ways to begin an expression.** -/
inductive Lead where
  /-- A literal or an identifier. -/
  | primary
  /-- A sign before its operand. -/
  | sign
  /-- An expression in parentheses. -/
  | group
  /-- A structure with its fields in braces. -/
  | structLiteral
  /-- An array with its values in brackets. -/
  | arrayLiteral
deriving DecidableEq, Repr

/-- **The ways to continue an expression.** -/
inductive Follow where
  /-- An operator and its right operand. -/
  | binary
  /-- Arguments in parentheses. -/
  | call
  /-- An index in brackets. -/
  | index
  /-- A point and a segment or a member. -/
  | member
deriving DecidableEq, Repr

/-- **The statements that their first token tells.** -/
inductive StmtForm where
  | loop | branch | returnWith | select | breakLoop | continueLoop | declareMutable
deriving DecidableEq, Repr

/-- **The declarations**, told by their first token. -/
inductive DeclForm where
  | struct | function | interface | synonym | enum
deriving DecidableEq, Repr

/-- **A grammar**: what each kind of token begins or continues. -/
structure Grammar where
  lead : Token.Kind → Option Lead
  follow : Token.Kind → Option Follow
  precedence : Token.Kind → Option Precedence
  stmt : Token.Kind → Option StmtForm
  decl : Token.Kind → Option DeclForm

namespace Grammar

/-- The grammar in which no token has a meaning. -/
def empty : Grammar :=
  ⟨fun _ => none, fun _ => none, fun _ => none, fun _ => none, fun _ => none⟩

/-- The grammar in which a kind of token begins an expression in a further way. -/
def withLead (g : Grammar) (kind : Token.Kind) (lead : Lead) : Grammar :=
  { g with lead := fun k => if k = kind then some lead else g.lead k }

/-- The grammar in which a kind of token continues an expression in a further way. -/
def withFollow (g : Grammar) (kind : Token.Kind) (precedence : Precedence) (follow : Follow) :
    Grammar :=
  { g with
    follow := fun k => if k = kind then some follow else g.follow k
    precedence := fun k => if k = kind then some precedence else g.precedence k }

/-- How tightly a kind of token binds; one without a precedence binds loosest. -/
def binding (g : Grammar) (kind : Token.Kind) : Precedence :=
  (g.precedence kind).getD .loosest

/-! ## The grammar of the language -/

/-- What begins an expression. -/
def standardLead : Token.Kind → Option Lead
  | .int | .double | .string | .char | .trueWord | .falseWord | .identifier => some .primary
  | .openParen => some .group
  | .mutWord | .openCurly => some .structLiteral
  | .openBracket => some .arrayLiteral
  | .not | .dash | .plusPlus | .minusMinus => some .sign
  | _ => none

/-- What continues an expression, and how tightly it binds. -/
def standardFollow : Token.Kind → Option (Precedence × Follow)
  | .or => some (.logicalOr, .binary)
  | .and => some (.logicalAnd, .binary)
  | .equals | .notEquals => some (.equality, .binary)
  | .less | .lessEquals | .greater | .greaterEquals => some (.relational, .binary)
  | .plus | .dash => some (.additive, .binary)
  | .star | .slash => some (.multiplicative, .binary)
  | .openParen => some (.access, .call)
  | .openBracket => some (.access, .index)
  | .dot => some (.access, .member)
  | _ => none

/-- The statements that their first token tells. -/
def standardStmt : Token.Kind → Option StmtForm
  | .loopWord => some .loop
  | .ifWord => some .branch
  | .returnWord => some .returnWith
  | .whenWord => some .select
  | .breakWord => some .breakLoop
  | .continueWord => some .continueLoop
  | .mutWord => some .declareMutable
  | _ => none

/-- The declarations, told by their first token. -/
def standardDecl : Token.Kind → Option DeclForm
  | .closedWord | .structWord => some .struct
  | .mutWord | .fnWord => some .function
  | .interfaceWord => some .interface
  | .aliasWord => some .synonym
  | .enumWord => some .enum
  | _ => none

/-- **The grammar of the language.** -/
def standard : Grammar where
  lead := standardLead
  follow kind := (standardFollow kind).map Prod.snd
  precedence kind := (standardFollow kind).map Prod.fst
  stmt := standardStmt
  decl := standardDecl

end Grammar

/-- The operator that a kind of token writes between two operands. -/
def Operator.ofKind? : Token.Kind → Option Operator
  | .star => some .multiply
  | .slash => some .divide
  | .plus => some .add
  | .dash => some .subtract
  | .greater => some .greater
  | .greaterEquals => some .greaterOrEqual
  | .less => some .smaller
  | .lessEquals => some .smallerOrEqual
  | .equals => some .equal
  | .notEquals => some .notEqual
  | .and => some .and
  | .or => some .or
  | _ => none

end FrontEnd

/-!
# Kinds of token

The kinds of token of the language: eighteen reserved words, the punctuation and operators, the
kinds whose text varies, the end of the file, and the mark of a lexical fault. A reserved word is
told from an identifier by its spelling alone.
-/

namespace FrontEnd.Token

/-- **The kinds of token.** -/
inductive Kind where
  | aliasWord | breakWord | closedWord | continueWord | elseWord | enumWord | exportWord
  | falseWord | fnWord | ifWord | importWord | interfaceWord | loopWord | mutWord | returnWord
  | structWord | trueWord | whenWord
  | openCurly | closeCurly | openBracket | closeBracket | openParen | closeParen | semicolon
  | dot | comma | colonColon | colon | or | and | equals | assignment | plusPlus | plusEquals
  | plus | minusMinus | minusEquals | dash | starEquals | star | slashEquals | slash | notEquals
  | not | greaterEquals | greater | lessEquals | less
  | comment | string | char | int | double | identifier | eof | error
deriving DecidableEq, Repr, Inhabited

namespace Kind

/-- The reserved words with their kinds, in alphabetical order. -/
def reserved : List (String × Kind) :=
  [("alias", .aliasWord), ("break", .breakWord), ("closed", .closedWord),
   ("continue", .continueWord), ("else", .elseWord), ("enum", .enumWord),
   ("export", .exportWord), ("false", .falseWord), ("fn", .fnWord), ("if", .ifWord),
   ("import", .importWord), ("interface", .interfaceWord), ("loop", .loopWord),
   ("mut", .mutWord), ("return", .returnWord), ("struct", .structWord), ("true", .trueWord),
   ("when", .whenWord)]

/-- The punctuation and operators with their kinds. A spelling comes before every spelling that it
continues, so the first that fits is the longest that fits. -/
def fixed : List (String × Kind) :=
  [("\x7b", .openCurly), ("\x7d", .closeCurly), ("[", .openBracket), ("]", .closeBracket),
   ("(", .openParen), (")", .closeParen), (";", .semicolon), (".", .dot), (",", .comma),
   ("::", .colonColon), (":", .colon), ("||", .or), ("&&", .and), ("==", .equals),
   ("=", .assignment), ("++", .plusPlus), ("+=", .plusEquals), ("+", .plus),
   ("--", .minusMinus), ("-=", .minusEquals), ("-", .dash), ("*=", .starEquals), ("*", .star),
   ("/=", .slashEquals), ("/", .slash), ("!=", .notEquals), ("!", .not), (">=", .greaterEquals),
   (">", .greater), ("<=", .lessEquals), ("<", .less)]

/-- The kind of a word: a reserved word has its own, every other word is an identifier. -/
def ofWord (word : String) : Kind :=
  (reserved.lookup word).getD .identifier

/-- The spelling of a kind whose text never varies. -/
def spelling? (kind : Kind) : Option String :=
  ((reserved ++ fixed).find? (·.2 = kind)).map (·.1)

/-- **The name of a kind**, as messages give it. -/
def name : Kind → String
  | .aliasWord => "Alias"
  | .breakWord => "Break"
  | .closedWord => "Closed"
  | .continueWord => "Continue"
  | .elseWord => "Else"
  | .enumWord => "Enum"
  | .exportWord => "Export"
  | .falseWord => "False"
  | .fnWord => "Fn"
  | .ifWord => "If"
  | .importWord => "Import"
  | .interfaceWord => "Interface"
  | .loopWord => "Loop"
  | .mutWord => "Mut"
  | .returnWord => "Return"
  | .structWord => "Struct"
  | .trueWord => "True"
  | .whenWord => "When"
  | .openCurly => "OpenCurly"
  | .closeCurly => "CloseCurly"
  | .openBracket => "OpenBracket"
  | .closeBracket => "CloseBracket"
  | .openParen => "OpenParen"
  | .closeParen => "CloseParen"
  | .semicolon => "Semicolon"
  | .dot => "Dot"
  | .comma => "Comma"
  | .colonColon => "ColonColon"
  | .colon => "Colon"
  | .or => "Or"
  | .and => "And"
  | .equals => "Equals"
  | .assignment => "Assignment"
  | .plusPlus => "PlusPlus"
  | .plusEquals => "PlusEquals"
  | .plus => "Plus"
  | .minusMinus => "MinusMinus"
  | .minusEquals => "MinusEquals"
  | .dash => "Dash"
  | .starEquals => "StarEquals"
  | .star => "Star"
  | .slashEquals => "SlashEquals"
  | .slash => "Slash"
  | .notEquals => "NotEquals"
  | .not => "Not"
  | .greaterEquals => "GreaterEquals"
  | .greater => "Greater"
  | .lessEquals => "LessEquals"
  | .less => "Less"
  | .comment => "Comment"
  | .string => "String"
  | .char => "Char"
  | .int => "Int"
  | .double => "Double"
  | .identifier => "Identifier"
  | .eof => "EOF"
  | .error => "Error"

/-- Every kind. -/
def all : List Kind :=
  (reserved ++ fixed).map (·.2) ++
    [.comment, .string, .char, .int, .double, .identifier, .eof, .error]

/-- The kind of a name. -/
def ofName? (name : String) : Option Kind :=
  all.find? (·.name = name)

/-- The kinds whose text varies, so that a token of them is shown with its text. -/
def isOpen : Kind → Bool
  | .string | .char | .int | .double | .identifier | .comment | .error => true
  | _ => false

end Kind

end FrontEnd.Token

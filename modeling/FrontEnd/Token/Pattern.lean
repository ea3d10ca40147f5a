import FrontEnd.Fault
import FrontEnd.Text.Blank
import FrontEnd.Token.Kind

/-!
# Lexical patterns

The forms that a lexeme may have. A pattern says how many characters it takes at the beginning of a
text (`Pattern.extent?`) and what the characters taken amount to (`Pattern.reading`): nothing, a
token, or a fault. The patterns stand in an order, and the first that takes anything is the one that
counts; an operator stands before every operator that begins it, and a whole literal before its
opening quote.

**The law** (`Pattern.first?_pos`): a pattern that fits takes at least one character, so a text is
read through.
-/

namespace FrontEnd.Token

/-- **The forms of a lexeme.** -/
inductive Pattern where
  /-- Blank characters. -/
  | blank
  /-- Two slashes and the rest of the line. -/
  | comment
  /-- ASCII letters and underscores. -/
  | word
  /-- A digit, then digits and points. -/
  | number
  /-- A text between double quotes. -/
  | quoted
  /-- A double quote that nothing closes. -/
  | openQuote
  /-- A character between single quotes, alone or after a backslash. -/
  | character
  /-- A single quote that begins no character literal. -/
  | openCharacter
  /-- Punctuation or an operator. -/
  | fixed (text : String) (kind : Kind)
  /-- Half of an operator that is written twice. -/
  | half
deriving DecidableEq, Repr

/-- **What a lexeme amounts to.** -/
inductive Reading where
  | skip
  | token (kind : Kind) (text : String)
  | fault (fault : Fault)
deriving DecidableEq, Repr

/-- Whether a character may stand in a word. -/
def isWordChar (c : Char) : Bool :=
  c.isAlpha || c == '_'

/-- Whether a character may stand in a number after its first digit. -/
def isNumberChar (c : Char) : Bool :=
  c.isDigit || c == '.'

namespace Pattern

/-- The number of characters that a class takes, if it takes any. -/
def run? (p : Char → Bool) (text : List Char) : Option Nat :=
  match (text.takeWhile p).length with
  | 0 => none
  | n + 1 => some (n + 1)

/-- The number of characters of a character literal: a character that is neither a quote nor a
backslash, or a backslash and a character that is no newline, between single quotes. -/
def characterExtent? : List Char → Option Nat
  | '\'' :: '\\' :: c :: '\'' :: _ => if c = '\n' then none else some 4
  | '\'' :: c :: '\'' :: _ => if c = '\'' ∨ c = '\\' then none else some 3
  | _ => none

/-- **How many characters a pattern takes** at the beginning of a text, if it fits there. -/
def extent? : Pattern → List Char → Option Nat
  | blank, text => run? isBlank text
  | comment, '/' :: '/' :: rest => some ((rest.takeWhile (· != '\n')).length + 2)
  | comment, _ => none
  | word, text => run? isWordChar text
  | number, c :: rest =>
    if c.isDigit then some ((rest.takeWhile isNumberChar).length + 1) else none
  | number, [] => none
  | quoted, '"' :: rest =>
    let body := (rest.takeWhile (· != '"')).length
    if body < rest.length then some (body + 2) else none
  | quoted, _ => none
  | openQuote, '"' :: _ => some 1
  | openQuote, _ => none
  | character, text => characterExtent? text
  | openCharacter, '\'' :: _ => some 1
  | openCharacter, _ => none
  | fixed spelling _, text =>
    if spelling.toList.isPrefixOf text then some spelling.length else none
  | half, c :: _ => if c = '|' ∨ c = '&' then some 1 else none
  | half, [] => none

/-- A lexeme without its first and its last character. -/
def inside (lexeme : List Char) : String :=
  String.ofList lexeme.tail.dropLast

/-- A number: an integer without a point, a double with one, and a fault with more. -/
def numberReading (lexeme : List Char) : Reading :=
  match lexeme.count '.' with
  | 0 => .token .int (String.ofList lexeme)
  | 1 => .token .double (String.ofList lexeme)
  | _ => .fault (.twoDotsInDouble (String.ofList lexeme))

/-- **What the characters that a pattern took amount to.** -/
def reading : Pattern → List Char → Reading
  | blank, _ => .skip
  | comment, lexeme => .token .comment (String.ofList (lexeme.drop 2))
  | word, lexeme => .token (Kind.ofWord (String.ofList lexeme)) (String.ofList lexeme)
  | number, lexeme => numberReading lexeme
  | quoted, lexeme => .token .string (inside lexeme)
  | openQuote, _ => .fault .unterminatedString
  | character, lexeme => .token .char (inside lexeme)
  | openCharacter, _ => .fault .unterminatedChar
  | fixed spelling kind, _ => .token kind spelling
  | half, lexeme =>
    .fault (.incompleteOperator (String.ofList (lexeme ++ lexeme)) (String.ofList lexeme))

/-- **The patterns in their order.** -/
def table : List Pattern :=
  [blank, comment, word, number, quoted, openQuote, character, openCharacter] ++
    Kind.fixed.map (fun (spelling, kind) => fixed spelling kind) ++ [half]

/-- **The first pattern that fits** the beginning of a text, with the number of characters it
takes. -/
def first? (text : List Char) : Option (Pattern × Nat) :=
  table.findSome? fun pattern => (pattern.extent? text).map (pattern, ·)

/-! ## Progress -/

/-- A class that takes anything takes a character. -/
theorem run?_pos {p : Char → Bool} {text : List Char} {n : Nat} (h : run? p text = some n) :
    0 < n := by
  unfold run? at h
  split at h <;> grind

/-- A character literal has characters. -/
theorem characterExtent?_pos {text : List Char} {n : Nat} (h : characterExtent? text = some n) :
    0 < n := by
  unfold characterExtent? at h
  grind

/-- The spelling of an operator has a character. -/
theorem length_pos_of_fixed_mem {spelling : String} {kind : Kind}
    (mem : fixed spelling kind ∈ table) : 0 < spelling.length := by
  have spelled : ∀ entry ∈ Kind.fixed, 0 < entry.1.length := by decide
  exact spelled (spelling, kind) (by simpa [table] using mem)

/-- **A pattern of the table takes at least one character** where it fits. -/
theorem extent?_pos {pattern : Pattern} (mem : pattern ∈ table) {text : List Char} {n : Nat}
    (h : pattern.extent? text = some n) : 0 < n := by
  have taken := @run?_pos
  have quotes := @characterExtent?_pos
  have spelled := @length_pos_of_fixed_mem
  revert h
  fun_cases extent? pattern text <;> grind

/-- The first pattern that fits is one of the table, and it fits. -/
theorem extent?_of_first? {text : List Char} {pattern : Pattern} {n : Nat}
    (h : first? text = some (pattern, n)) : pattern ∈ table ∧ pattern.extent? text = some n := by
  obtain ⟨found, mem, fits⟩ := List.exists_of_findSome?_eq_some h
  obtain ⟨m, extent, same⟩ := Option.map_eq_some_iff.1 fits
  cases same
  exact ⟨mem, extent⟩

/-- The first pattern that fits takes a character. -/
theorem first?_pos {text : List Char} {pattern : Pattern} {n : Nat}
    (h : first? text = some (pattern, n)) : 0 < n := by
  obtain ⟨mem, extent⟩ := extent?_of_first? h
  exact extent?_pos mem extent

end Pattern

end FrontEnd.Token

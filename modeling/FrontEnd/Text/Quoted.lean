import FrontEnd.Text.Extending
import FrontEnd.Text.Unprintable

/-!
# Quoted text

The form in which a message shows a text: between double quotes, with the quote and the backslash
escaped by a backslash, the five usual controls by a letter or a zero, and every character that
cannot be read alone by its code point. A single quote stands as it is.
-/

namespace FrontEnd

/-- A natural number in hexadecimal, in lower case and without leading zeros. -/
def hexadecimal (n : Nat) : String :=
  String.ofList (Nat.toDigits 16 n)

/-- **One character of a quoted text.** -/
def quotedChar (c : Char) : String :=
  match c with
  | '\x00' => "\\0"
  | '\t' => "\\t"
  | '\r' => "\\r"
  | '\n' => "\\n"
  | '"' => "\\\""
  | '\\' => "\\\\"
  | _ =>
    if isExtending c || isUnprintable c then "\\u\x7b" ++ hexadecimal c.toNat ++ "\x7d"
    else c.toString

/-- **A text between double quotes**, with what cannot be read alone escaped. -/
def quoted (text : String) : String :=
  "\"" ++ String.join (text.toList.map quotedChar) ++ "\""

end FrontEnd

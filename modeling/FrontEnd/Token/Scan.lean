import FrontEnd.Diagnostic.Basic
import FrontEnd.Token.Basic
import FrontEnd.Token.Pattern

/-!
# The tokens of a text

A text is cut into lexemes from its start: at each place the first pattern that fits takes its
characters, and scanning goes on behind them. A lexeme that amounts to a token is kept with the span
that it takes, blanks are dropped, and the first fault ends the scan. The last token is the end of
the text.

The recursion is on the text itself. The characters of a lexeme already read are passed over one by
one, which `scan_skip` states as dropping them.
-/

namespace FrontEnd.Token

/-- The tokens of a text whose first `passed` characters were read already, `here` being the
position behind those characters. -/
def scan (here : Position) : List Char → Nat → Except Diagnostic (List Token)
  | [], _ => .ok [ending here]
  | _ :: rest, passed + 1 => scan here rest passed
  | c :: rest, 0 =>
    match Pattern.first? (c :: rest) with
    | none => .error ⟨.unrecognisedToken c.toString, here⟩
    | some (pattern, count) =>
      let lexeme := (c :: rest).take count
      let next := here.past lexeme
      match pattern.reading lexeme with
      | .fault fault => .error ⟨fault, here⟩
      | .skip => scan next rest (count - 1)
      | .token kind text => (scan next rest (count - 1)).map (⟨kind, text, ⟨here, next⟩⟩ :: ·)

/-- **The tokens of a text.** -/
def ofText (file : String) (text : String) : Except Diagnostic (List Token) :=
  scan (.first file) text.toList 0

/-- Characters read already are dropped. -/
theorem scan_skip (here : Position) (text : List Char) (passed : Nat) :
    scan here text passed = scan here (text.drop passed) 0 := by
  induction text generalizing passed with
  | nil => simp [scan]
  | cons c rest ih =>
    cases passed with
    | zero => rfl
    | succ n => simpa [scan] using ih n

end FrontEnd.Token

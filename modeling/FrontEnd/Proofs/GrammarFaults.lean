import FrontEnd.Proofs.Grammar.TracingFile
import FrontEnd.Proofs.Grammar.ProgressFile
import FrontEnd.Proofs.Grammar.Entering

/-!
# The token that a fault names

A sequence of tokens is entered without its comments, and with a token of the end behind it where it
has none (`entered`). Where it cannot be parsed, the cursor stands on one of these tokens, and has
passed all in front of it. A diagnostic of the grammar stands at the start of one of them, and one
that says which token was found says it of the token that the cursor stands on.

The grammar has two answers for a token that an expression is opened or continued with and that no
action is made for. The standard grammar opens and continues expressions only with tokens that it has
an action for, so it never gives these answers.

**The law** (`File.ofTokens_reports`): so it is for every sequence of tokens that is not parsed, and
there is a diagnostic of the grammar each time.
-/

namespace FrontEnd

open Token

/-! ## The tokens that are entered -/

/-- **The tokens that are parsed**: those of a sequence that are no comments, with a token of the end
behind the last unless it is one. -/
def entered (tokens : List Token) : List Token :=
  match (uncommented tokens).getLast? with
  | none => [.ending (.first (Cursor.fileOf tokens))]
  | some last =>
    if last.kind = .eof then uncommented tokens else uncommented tokens ++ [.ending last.span.stop]

/-- **A cursor is entered over the tokens that are parsed.** -/
theorem Cursor.tokens_ofTokens_eq (tokens : List Token) (firstId : Nat) :
    (ofTokens tokens firstId).tokens = entered tokens := by
  rw [tokens_eq_left, entered]
  rcases List.eq_nil_or_concat (uncommented tokens) with none | ⟨front, last, same⟩
  · unfold ofTokens
    rw [← uncommented, none]
    rfl
  · rw [List.concat_eq_append] at same
    rw [left_ofTokens_of_uncommented same, same, List.getLast?_concat]
    by_cases isEnd : last.kind = .eof
    · simp [closed_of_eof isEnd, isEnd]
    · simp [closed_of_ne_eof isEnd, isEnd]

/-! ## Diagnostics of the grammar -/

/-- What the grammar asks for is never an expression at large, nor an operator at large. -/
theorem Demanded.ne_fallback {expected : String} (demanded : Demanded expected) :
    expected ≠ "binary operator" ∧ expected ≠ "expression" := by
  cases demanded with
  | kind k => cases k <;> decide
  | separator closing => cases closing <;> decide
  | declaration => decide

/-- **A diagnostic reports where a cursor stands.** It is one of parsing, at the start of a token that
the cursor runs over; where it says which token was found, that is the token that the cursor stands
on, and what was called for is neither of the answers for a token that no action is made for. -/
structure Diagnostic.Reports (c : Cursor) (d : Diagnostic) : Prop where
  stage : d.fault.stage = .parsing
  starts : StartsIn c.tokens d.position
  unexpected : ∀ expected foundKind found, d.fault = .unexpectedToken expected foundKind found →
    foundKind = c.current.kind.name ∧ found = c.current.text ∧
      d.position = c.current.span.start ∧ expected ≠ "binary operator" ∧ expected ≠ "expression"
  noExpression : ∀ foundKind found, d.fault = .expectedExpression foundKind found →
    foundKind = c.current.kind.name ∧ found = c.current.text ∧ d.position = c.current.span.start

/-- The current token is one that the cursor runs over. -/
theorem Cursor.startsIn_here (c : Cursor) : StartsIn c.tokens c.here :=
  ⟨c.current, c.current_mem, rfl⟩

/-- **A diagnostic that an action stops with** reports where the cursor stands then. -/
theorem Refusal.reports {d : Diagnostic} {c : Cursor} (refusal : Refusal (.fault d) c) :
    d.Reports c := by
  cases refusal with
  | unexpected demanded =>
    refine ⟨rfl, c.startsIn_here, ?_, nofun⟩
    intro expected foundKind found same
    obtain ⟨rfl, rfl, rfl⟩ := Fault.unexpectedToken.inj same
    exact ⟨rfl, rfl, rfl, demanded.ne_fallback⟩
  | noExpression =>
    refine ⟨rfl, c.startsIn_here, nofun, ?_⟩
    intro foundKind found same
    obtain ⟨rfl, rfl⟩ := Fault.expectedExpression.inj same
    exact ⟨rfl, rfl, rfl⟩
  | number mem => exact ⟨rfl, ⟨_, mem, rfl⟩, nofun, nofun⟩
  | furtherExports => exact ⟨rfl, c.startsIn_here, nofun, nofun⟩
  | target starts => exact ⟨rfl, starts, nofun, nofun⟩

namespace File

/-- **Where a sequence of tokens is not parsed**, there is a diagnostic, and a cursor that has walked
to the token it stands on over all in front of it: these, the token and those behind it are the tokens
that are parsed. The diagnostic reports where the cursor stands. -/
theorem ofTokens_reports {tokens : List Token} {firstId : Nat} {halt : Halt}
    (failed : ofTokens tokens firstId = .error halt) :
    ∃ d c, halt = .fault d ∧
      (Parse.file .standard).run (.ofTokens tokens firstId) = .error (.fault d) c ∧
      (Cursor.ofTokens tokens firstId).Walks c ∧
      entered tokens = c.behind.reverse ++ c.current :: c.ahead ∧ d.Reports c := by
  have sound : (Cursor.ofTokens tokens firstId).Sound (entered tokens) := by
    refine ⟨Cursor.tokens_ofTokens_eq tokens firstId, ?_⟩
    rw [Cursor.behind_ofTokens]
    exact List.forall_mem_nil _
  have moved := Parse.moves_file Grammar.leavesEnd_standard (Cursor.ends_ofTokens tokens firstId)
  have traced := Parse.traces_file Grammar.fitting_standard sound
  unfold ofTokens at failed
  cases run : (Parse.file .standard).run (.ofTokens tokens firstId) with
  | ok file c =>
    rw [run] at failed
    cases failed
  | error stopped c =>
    rw [run] at failed
    obtain rfl := Except.error.inj failed
    rw [EStateM.run] at run
    rw [run] at moved traced
    cases moved with
    | halted walks notBudget =>
      cases traced with
      | halted stops =>
        obtain ⟨same, refusal⟩ := stops
        cases stopped with
        | exhausted => exact absurd rfl notBudget
        | fault d => exact ⟨d, c, rfl, rfl, walks, same.symm, refusal.reports⟩

/-- A function that is cut off behind its name, with a comment, and without a token of the end. -/
def cutOff : List Token :=
  [⟨.fnWord, "fn", ⟨⟨0, 1, "m"⟩, ⟨2, 1, "m"⟩⟩⟩, ⟨.comment, "area", ⟨⟨3, 1, "m"⟩, ⟨9, 1, "m"⟩⟩⟩,
    ⟨.identifier, "f", ⟨⟨10, 2, "m"⟩, ⟨11, 2, "m"⟩⟩⟩]

/-- A text with a sum that has no second part, and a comment. -/
def halfSum : String :=
  "fn f(): int \x7b return 1 + ; // sum\n\x7d"

/-- The end that is added is what is found behind the name; the tokens of a text are read up to a
semicolon that begins no expression. -/
theorem ofTokens_reports_cutOff :
    (∃ c : Cursor, ofTokens cutOff 0 =
          .error (.fault ⟨.unexpectedToken "OpenParen" "EOF" "EOF", ⟨11, 2, "m"⟩⟩) ∧
        entered cutOff = c.behind.reverse ++ c.current :: c.ahead ∧
        c.current.kind.name = "EOF" ∧ c.current.span.start = ⟨11, 2, "m"⟩) ∧
      ∃ (tokens : List Token) (c : Cursor), Token.ofText "m" halfSum = .ok tokens ∧
        ofTokens tokens 0 = .error (.fault ⟨.expectedExpression "Semicolon" ";", ⟨25, 1, "m"⟩⟩) ∧
        entered tokens = c.behind.reverse ++ c.current :: c.ahead ∧ c.current.text = ";" := by
  constructor
  · have refused : ((faultOf? (ofTokens cutOff 0)).any fun d =>
        d = ⟨.unexpectedToken "OpenParen" "EOF" "EOF", ⟨11, 2, "m"⟩⟩) = true := by
      decide +kernel
    obtain ⟨d, failed, same⟩ := exists_fault_of_any refused
    obtain rfl := of_decide_eq_true same
    obtain ⟨d, c, same, -, -, parts, reports⟩ := ofTokens_reports failed
    cases same
    obtain ⟨kind, -, place, -⟩ := reports.unexpected _ _ _ rfl
    exact ⟨c, failed, parts, kind.symm, place.symm⟩
  · have refused : ((Token.ofText "m" halfSum).toOption.any fun tokens =>
        (faultOf? (ofTokens tokens 0)).any fun d =>
          d = ⟨.expectedExpression "Semicolon" ";", ⟨25, 1, "m"⟩⟩) = true := by
      decide +kernel
    obtain ⟨tokens, scanned, refused⟩ := exists_ok_of_any refused
    obtain ⟨d, failed, same⟩ := exists_fault_of_any refused
    obtain rfl := of_decide_eq_true same
    obtain ⟨d, c, same, -, -, parts, reports⟩ := ofTokens_reports failed
    cases same
    obtain ⟨-, text, -⟩ := reports.noExpression _ _ rfl
    exact ⟨tokens, c, scanned, failed, parts, text.symm⟩

end File

end FrontEnd

import FrontEnd.Grammar.Cursor

/-!
# Entering a sequence of tokens

What a cursor stands on where a sequence of tokens is entered: the tokens of the sequence without its
comments, and the end behind them, which is added unless the last of the tokens is one.
-/

namespace FrontEnd

open Token

/-- The tokens of a sequence that the parser sees. -/
def uncommented (tokens : List Token) : List Token :=
  tokens.filter (·.kind ≠ .comment)

theorem uncommented_append (front behind : List Token) :
    uncommented (front ++ behind) = uncommented front ++ uncommented behind :=
  List.filter_append ..

theorem uncommented_cons {token : Token} (seen : token.kind ≠ .comment) (tokens : List Token) :
    uncommented (token :: tokens) = token :: uncommented tokens :=
  List.filter_cons_of_pos (decide_eq_true seen)

theorem uncommented_concat {last : Token} (seen : last.kind ≠ .comment) (tokens : List Token) :
    uncommented (tokens ++ [last]) = uncommented tokens ++ [last] := by
  rw [uncommented_append, uncommented_cons seen]
  rfl

namespace Cursor

/-- What follows the last token does not depend on the tokens in front of it. -/
theorem closed_concat (first : Token) (rest : List Token) (last : Token) :
    closed first (rest ++ [last]) = rest ++ last :: closed last [] := by
  induction rest generalizing first with
  | nil => rfl
  | cons token rest ih => exact congrArg (token :: ·) (ih token)

theorem closed_of_eof {last : Token} (isEnd : last.kind = .eof) : closed last [] = [] :=
  if_pos isEnd

theorem closed_of_ne_eof {last : Token} (notEnd : last.kind ≠ .eof) :
    closed last [] = [.ending last.span.stop] :=
  if_neg notEnd

/-- **A sequence is entered at its first token**, with what closes it behind the last token that the
parser sees. -/
theorem left_ofTokens_of_uncommented {tokens front : List Token} {last : Token}
    (seen : uncommented tokens = front ++ [last]) (firstId : Nat) :
    (ofTokens tokens firstId).left = front ++ last :: closed last [] := by
  unfold ofTokens
  rw [← uncommented, seen]
  cases front with
  | nil => rfl
  | cons first rest => exact congrArg (first :: ·) (closed_concat first rest last)

/-- **A sequence is entered with the end behind it**, when its last token is no end and no comment. -/
theorem left_ofTokens {last : Token} (seen : last.kind ≠ .comment) (notEnd : last.kind ≠ .eof)
    (tokens : List Token) (firstId : Nat) :
    (ofTokens (tokens ++ [last]) firstId).left =
      uncommented tokens ++ [last, .ending last.span.stop] := by
  rw [left_ofTokens_of_uncommented (uncommented_concat seen tokens), closed_of_ne_eof notEnd]

/-- **A sequence that has its end is entered as it is**, up to its comments. -/
theorem left_ofTokens_ended {last : Token} (isEnd : last.kind = .eof) (tokens : List Token)
    (firstId : Nat) :
    (ofTokens (tokens ++ [last]) firstId).left = uncommented tokens ++ [last] := by
  have seen : last.kind ≠ .comment := by
    rw [isEnd]
    nofun
  rw [left_ofTokens_of_uncommented (uncommented_concat seen tokens), closed_of_eof isEnd]

/-- Nothing stands behind the cursor that enters a sequence. -/
theorem behind_ofTokens (tokens : List Token) (firstId : Nat) :
    (ofTokens tokens firstId).behind = [] := by
  unfold ofTokens
  split <;> rfl

theorem nextId_ofTokens (tokens : List Token) (firstId : Nat) :
    (ofTokens tokens firstId).nextId = firstId := by
  unfold ofTokens
  split <;> rfl

/-- All tokens of a sequence are left where it is entered. -/
theorem tokens_eq_left (tokens : List Token) (firstId : Nat) :
    (ofTokens tokens firstId).tokens = (ofTokens tokens firstId).left := by
  unfold ofTokens
  split <;> rfl

end Cursor

end FrontEnd

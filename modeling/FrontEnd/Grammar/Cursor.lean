import FrontEnd.Token.Basic

/-!
# A cursor over tokens

A cursor stands on a token: it holds the tokens behind it, the token it stands on, and those ahead.
So there is always a current token, and the place of the cursor is always one of the sequence. The
cursor also holds the number that the next segment of a name will get.

A sequence of tokens is entered without its comments and with a token of the end, which is added
where it is missing (`Cursor.ofTokens`). The cursor never moves past the last token.
-/

namespace FrontEnd

/-- **A place in a sequence of tokens.** The tokens behind stand in reverse, the nearest first. -/
structure Cursor where
  behind : List Token
  current : Token
  ahead : List Token
  nextId : Nat
  file : String

namespace Cursor

/-- The tokens that follow a token, with a token of the end behind them unless the last one is such
a token already. -/
def closed : Token → List Token → List Token
  | last, [] => if last.kind = .eof then [] else [.ending last.span.stop]
  | _, token :: rest => token :: closed token rest

/-- The file of a sequence of tokens: that of its first token. -/
def fileOf : List Token → String
  | [] => unnamedFile
  | token :: _ => token.span.start.file

/-- **The cursor at the start of a sequence of tokens**, from which the comments are left out and
behind which a token of the end stands. -/
def ofTokens (tokens : List Token) (firstId : Nat) : Cursor :=
  let file := fileOf tokens
  match tokens.filter (·.kind ≠ .comment) with
  | [] => ⟨[], .ending (.first file), [], firstId, file⟩
  | token :: rest => ⟨[], token, closed token rest, firstId, file⟩

/-- The tokens that a cursor runs over, in their order. -/
def tokens (c : Cursor) : List Token :=
  c.behind.reverse ++ c.current :: c.ahead

/-- The tokens from the current one on. -/
def left (c : Cursor) : List Token :=
  c.current :: c.ahead

/-- The index of the current token. -/
def index (c : Cursor) : Nat :=
  c.behind.length

/-- The kind of the current token. -/
def kind (c : Cursor) : Token.Kind :=
  c.current.kind

/-- The kind of the token `n` places ahead, the end where there is none. -/
def peek (c : Cursor) (n : Nat) : Token.Kind :=
  (c.left[n]?).elim .eof Token.kind

/-- The start of the current token. -/
def here (c : Cursor) : Position :=
  c.current.span.start

/-- The end of the token behind, or of the first token where none is behind. -/
def reached (c : Cursor) : Position :=
  (c.behind.headD c.current).span.stop

/-- **The next place**, or the same place on the last token. -/
def next (c : Cursor) : Cursor :=
  match c.ahead with
  | [] => c
  | token :: rest => { c with behind := c.current :: c.behind, current := token, ahead := rest }

/-- Moving on leaves the sequence as it is. -/
theorem tokens_next (c : Cursor) : c.next.tokens = c.tokens := by
  unfold next
  split <;> simp_all [tokens]

/-- A step ahead is a step in the index, except on the last token. -/
theorem index_next (c : Cursor) : c.next.index = if c.ahead = [] then c.index else c.index + 1 := by
  unfold next
  split <;> simp_all [index]

end Cursor

end FrontEnd

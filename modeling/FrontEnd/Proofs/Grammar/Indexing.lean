import FrontEnd.Proofs.Grammar.ProgressFile

/-!
# Places by index

A place in a sequence of tokens can be kept as the whole sequence and a number. A token is then read
at an index, and it is missing where the index is past the end. A desk is such a place (`Desk`): the
tokens are laid out with a token of the end behind them, the current one and the last one taken are
read by index, and a step moves the index unless it stands on the last token.

Every cursor is a desk, and an action on cursors is one on desks (`Parse.onDesk`), which needs the
token at the index before it can do anything. Actions in a row need it again between them
(`Parse.onDesk_bind`), so an action on desks is put together from its single steps, as the action on
cursors is; and the single steps are reads by index (`Parse.StepsByIndex`).

**The law** (`Cursor.indexed`): at a cursor nothing that is read by index is missing, and a step of
the index is a step of the cursor. So an action on the desk of a cursor is never without its token
(`Parse.onDesk_eq`).
-/

namespace FrontEnd

/-- **A place in a sequence of tokens by its index.** -/
structure Desk where
  tokens : List Token
  index : Nat
  nextId : Nat
  file : String

namespace Desk

/-- **The desk at the start of a sequence of tokens**: the comments are left out, and a token of the
end is put behind the last one unless that is one itself. -/
def enter (tokens : List Token) (firstId : Nat) : Desk :=
  let file := Cursor.fileOf tokens
  let kept := tokens.filter (·.kind ≠ .comment)
  let laid :=
    match kept.getLast? with
    | none => [.ending (.first file)]
    | some last => if last.kind = .eof then kept else kept ++ [.ending last.span.stop]
  ⟨laid, 0, firstId, file⟩

variable (d : Desk)

/-- The token at the index. -/
def current? : Option Token :=
  d.tokens[d.index]?

/-- **Takes the token at the index**, and moves on unless it is the last. -/
def advance? : Option (Token × Desk) := do
  let token ← d.tokens[d.index]?
  let next := if d.index + 1 < d.tokens.length then d.index + 1 else d.index
  return (token, { d with index := next })

/-- The end of the token before the index, or of the first where none is before it. -/
def reached? : Option Position :=
  (d.tokens[d.index - 1]?).map (·.span.stop)

/-- The kind of the token `n` places behind the index, the end where there is none. -/
def peek (n : Nat) : Token.Kind :=
  (d.tokens[d.index + n]?).elim .eof Token.kind

/-- The cursor on the token at the index. -/
def cursor? : Option Cursor := do
  let current ← d.tokens[d.index]?
  return ⟨(d.tokens.take d.index).reverse, current, d.tokens.drop (d.index + 1), d.nextId, d.file⟩

end Desk

/-! ## Cursors by index -/

namespace Cursor

variable (c : Cursor)

/-- The place of a cursor by its index. -/
def desk : Desk :=
  ⟨c.tokens, c.index, c.nextId, c.file⟩

/-- **Nothing is missing at a cursor**: the current token and the last one taken are at their
indices, the kinds ahead are those behind the index, and a step of the index is a step of the
cursor. -/
structure Indexed : Prop where
  current : c.desk.current? = some c.current
  reached : c.desk.reached? = some c.reached
  peek : ∀ n, c.desk.peek n = c.peek n
  advance : c.desk.advance? = some (c.current, c.next.desk)

theorem reached?_desk : c.desk.reached? = some c.reached := by
  obtain ⟨behind, current, ahead, nextId, file⟩ := c
  cases behind with
  | nil => simp [Desk.reached?, desk, tokens, index, reached]
  | cons last before => simp [Desk.reached?, desk, tokens, index, reached]

theorem peek_desk (n : Nat) : c.desk.peek n = c.peek n := by
  show (c.tokens[c.index + n]?).elim _ _ = (c.left[n]?).elim _ _
  rw [c.left_eq, List.getElem?_drop]

/-- **A step of the index is a step of the cursor.** -/
theorem advance?_desk : c.desk.advance? = some (c.current, c.next.desk) := by
  have here : c.desk.tokens[c.desk.index]? = some c.current := c.current_eq
  have room : c.index + 1 < c.tokens.length ↔ c.ahead ≠ [] := by
    rw [← List.length_pos_iff]
    simp only [tokens, index, List.length_append, List.length_reverse, List.length_cons]
    omega
  have moved : (if c.index + 1 < c.tokens.length then c.index + 1 else c.index) = c.next.index := by
    rw [c.index_next]
    by_cases last : c.ahead = [] <;> simp [room, last]
  have kept : c.next.nextId = c.nextId ∧ c.next.file = c.file := by
    unfold next
    split <;> exact ⟨rfl, rfl⟩
  rw [Desk.advance?, here]
  simp only [Option.bind_eq_bind, Option.bind_some, Option.pure_def]
  show some (c.current, (⟨c.tokens, if c.index + 1 < c.tokens.length then c.index + 1 else c.index,
    c.nextId, c.file⟩ : Desk)) = _
  rw [moved, ← c.tokens_next, ← kept.1, ← kept.2]
  rfl

/-- **At every cursor all that is read by index is there.** -/
theorem indexed : c.Indexed where
  current := c.current_eq
  reached := c.reached?_desk
  peek := c.peek_desk
  advance := c.advance?_desk

/-- The desk of a cursor has the token of the cursor, and the cursor can be had back from it. -/
theorem cursor?_desk : c.desk.cursor? = some c := by
  have here : c.desk.tokens[c.desk.index]? = some c.current := c.current_eq
  have behind : (c.tokens.take c.index).reverse = c.behind := by simp [tokens, index]
  rw [Desk.cursor?, here]
  show some (⟨(c.tokens.take c.index).reverse, c.current, c.tokens.drop (c.index + 1),
    c.nextId, c.file⟩ : Cursor) = some c
  rw [behind, ← c.ahead_eq]

/-- Closing tokens behind a first one looks at the last of them. -/
theorem cons_closed (first : Token) (rest : List Token) :
    first :: closed first rest =
      if ((first :: rest).getLast (List.cons_ne_nil _ _)).kind = .eof then first :: rest
      else (first :: rest) ++ [.ending ((first :: rest).getLast (List.cons_ne_nil _ _)).span.stop] := by
  induction rest generalizing first with
  | nil => by_cases isEnd : first.kind = .eof <;> simp [closed, isEnd]
  | cons token rest ih =>
    rw [closed, ih token]
    by_cases isEnd : ((token :: rest).getLast (List.cons_ne_nil _ _)).kind = .eof <;> simp [isEnd]

end Cursor

/-- **The desk at the start of a sequence is that of the cursor there.** -/
theorem Desk.enter_eq (tokens : List Token) (firstId : Nat) :
    enter tokens firstId = (Cursor.ofTokens tokens firstId).desk := by
  unfold enter Cursor.ofTokens
  cases kept : tokens.filter (·.kind ≠ .comment) with
  | nil => rfl
  | cons first rest =>
    have laid := Cursor.cons_closed first rest
    simp only [List.getLast?_eq_some_getLast (List.cons_ne_nil first rest)]
    rw [← laid]
    rfl

/-! ## Actions by index -/

namespace Parse

variable {α β : Type}

/-- A result on a cursor as one on its desk. -/
def deskResult : EStateM.Result Halt Cursor α → EStateM.Result Halt Desk α
  | .ok value c => .ok value c.desk
  | .error halt c => .error halt c.desk

/-- **An action on desks**: it needs the token at the index. -/
def onDesk (action : Parse α) (d : Desk) : Option (EStateM.Result Halt Desk α) :=
  d.cursor?.map fun c => deskResult (action c)

/-- **On the desk of a cursor an action does what it does at the cursor**, and no token is missing
for it. -/
theorem onDesk_eq (action : Parse α) (c : Cursor) :
    onDesk action c.desk = some (deskResult (action c)) := by
  rw [onDesk, c.cursor?_desk, Option.map_some]

/-- **Actions in a row need the token at the index each time.** -/
theorem onDesk_bind (action : Parse α) (next : α → Parse β) (d : Desk) :
    onDesk (action >>= next) d = (onDesk action d).bind fun
      | .ok value between => onDesk (next value) between
      | .error halt between => some (.error halt between) := by
  unfold onDesk
  cases d.cursor? with
  | none => rfl
  | some c =>
    rw [Option.map_some, Option.map_some, Option.bind_some]
    show some (deskResult (EStateM.bind action next c)) = _
    unfold EStateM.bind
    cases action c with
    | ok value between =>
      show some (deskResult (next value between)) = onDesk (next value) between.desk
      rw [onDesk_eq]
    | error halt between => rfl

/-- **Single steps are reads by index**, at a cursor: to take a token is to take the one at the
index, what is looked at is that token or the one so many places behind it, and a span ends with the
token before the index. -/
structure StepsByIndex (c : Cursor) : Prop where
  advance : onDesk advance c.desk = c.desk.advance?.map fun (token, next) => .ok token next
  kind : onDesk kind c.desk = c.desk.current?.map fun token => .ok token.kind c.desk
  here : onDesk here c.desk = c.desk.current?.map fun token => .ok token.span.start c.desk
  peek : ∀ n, onDesk (return (← get).peek n) c.desk = some (.ok (c.desk.peek n) c.desk)
  spanFrom : ∀ start, onDesk (spanFrom start) c.desk =
    c.desk.reached?.map fun stop => .ok ⟨start, stop⟩ c.desk

/-- At every cursor single steps are reads by index. -/
theorem stepsByIndex (c : Cursor) : StepsByIndex c where
  advance := by
    rw [onDesk_eq, c.advance?_desk]
    rfl
  kind := by
    rw [onDesk_eq, c.indexed.current]
    rfl
  here := by
    rw [onDesk_eq, c.indexed.current]
    rfl
  peek := by
    intro n
    rw [onDesk_eq, c.indexed.peek]
    rfl
  spanFrom := by
    intro start
    rw [onDesk_eq, c.indexed.reached]
    rfl

end Parse

end FrontEnd

import FrontEnd.Proofs.Grammar.Judging
import FrontEnd.Proofs.Grammar.Progress

/-!
# What parsing takes

An action that ends well has taken some of the tokens that were left, and the tokens taken fit the
value that it gives (`Consumes`). In contrast to the judgements that start from a word and say
that it is read, this one starts from a run and says what was read: it holds of every action, and of
tokens that are the words of nothing it says nothing.

The rules are those of runs from a cursor (`Meets`), with the tokens taken told from the start of each
action. Those taken by an action behind another come behind those that the first has taken, so what
has to fit at the end is carried along (`Consumes.behind`).
-/

namespace FrontEnd

open Token

/-- No more tokens are left behind those that were taken. -/
theorem Cursor.length_left_le {c c' : Cursor} {taken : List Token}
    (left : c.left = taken ++ c'.left) : c'.left.length ≤ c.left.length := by
  rw [left, List.length_append]
  exact Nat.le_add_left ..

/-- Where few tokens are left, few are left behind those that are taken. -/
theorem Cursor.few_of_left {n : Nat} {c c' : Cursor} {taken : List Token}
    (few : c.left.length ≤ n) (left : c.left = taken ++ c'.left) : c'.left.length ≤ n :=
  Nat.le_trans (length_left_le left) few

/-- **An action consumes tokens that fit** the value it gives: they stand at the front of what was
left, and what is left behind them is the rest. -/
def Consumes {α : Type} (action : Parse α) (fits : List Token → α → Prop) (c : Cursor) : Prop :=
  Meets (.keeping Cursor.Ends) action
    (fun value c' => ∃ taken, c.left = taken ++ c'.left ∧ fits taken value) c

namespace Consumes

variable {α β : Type} {action other : Parse α} {fits mid wider : List Token → α → Prop}
  {final : List Token → β → Prop} {c c' : Cursor}

theorem of_runs (runs : c.Ends → ∀ value c', action c = .ok value c' →
    c'.Ends ∧ ∃ taken, c.left = taken ++ c'.left ∧ fits taken value) : Consumes action fits c := by
  refine Meets.of_runs fun ends value c' run => ?_
  obtain ⟨endsThen, consumed⟩ := runs ends value c' run
  exact ⟨endsThen, trivial, consumed⟩

/-- What was taken by a run that ends well. -/
theorem of_eq_ok {value : α} (consumes : Consumes action fits c) (ends : c.Ends)
    (run : action c = .ok value c') :
    c'.Ends ∧ ∃ taken, c.left = taken ++ c'.left ∧ fits taken value := by
  obtain ⟨endsThen, -, consumed⟩ := Meets.of_eq_ok consumes ends run
  exact ⟨endsThen, consumed⟩

theorem pure {value : α} (h : fits [] value) : Consumes (Pure.pure value) fits c :=
  Meets.pure ⟨[], rfl, h⟩

theorem halt {halt : Halt} : Consumes (throw halt) fits c :=
  Meets.halt

/-- **What is consumed behind tokens that were taken** is consumed with them. -/
theorem behind {taken : List Token} (left : c.left = taken ++ c'.left)
    (here : Consumes action (fun more => fits (taken ++ more)) c') :
    Meets (.keeping Cursor.Ends) action
      (fun value last => ∃ taken, c.left = taken ++ last.left ∧ fits taken value) c' := by
  refine Meets.weaken here fun value last ⟨more, leftThen, fit⟩ => ⟨taken ++ more, ?_, fit⟩
  rw [left, leftThen, List.append_assoc]

/-- **An action behind another** takes the tokens behind those that the first has taken. -/
theorem bind {next : α → Parse β} (here : Consumes action mid c)
    (next_consumes : ∀ value c' taken, c.left = taken ++ c'.left → mid taken value →
      Consumes (next value) (fun more => final (taken ++ more)) c') :
    Consumes (action >>= next) final c :=
  Meets.bind here fun value c' ⟨taken, left, fit⟩ =>
    behind left (next_consumes value c' taken left fit)

theorem weaken (h : Consumes action fits c)
    (implies : ∀ taken value, fits taken value → wider taken value) : Consumes action wider c :=
  Meets.weaken h fun value _ ⟨taken, left, fit⟩ => ⟨taken, left, implies taken value fit⟩

theorem map {f : α → β} (h : Consumes action fits c)
    (implies : ∀ taken value, fits taken value → final taken (f value)) :
    Consumes (f <$> action) final c :=
  Meets.map h fun value _ ⟨taken, left, fit⟩ => ⟨taken, left, implies taken value fit⟩

theorem ite {p : Prop} [Decidable p] (yes : p → Consumes action fits c)
    (no : ¬ p → Consumes other fits c) : Consumes (if p then action else other) fits c :=
  Meets.ite yes no

/-- An action that looks at the cursor. -/
theorem look {next : Cursor → Parse β} (here : Consumes (next c) final c) :
    Consumes (get >>= next) final c :=
  Meets.look here

/-- An action that looks at the kind of the current token. -/
theorem onKind {next : Kind → Parse β} (here : Consumes (next c.kind) final c) :
    Consumes (Parse.kind >>= next) final c :=
  Meets.onKind here

/-- An action behind a token that is taken whatever it is. -/
theorem advance {next : Token → Parse β} (notEnd : c.kind ≠ .eof)
    (next_consumes : c.left = c.current :: c.next.left → c.next.kind = c.peek 1 →
      Consumes (next c.current) (fun more => final (c.current :: more)) c.next) :
    Consumes (Parse.advance >>= next) final c := by
  refine Meets.token Cursor.Ends.next trivial fun ends => ?_
  have more := ends.ahead_ne_nil notEnd
  have left : c.left = [c.current] ++ c.next.left := Cursor.left_next more
  exact behind left (next_consumes left (Cursor.kind_next more))

/-- An action behind a number that is taken. -/
theorem number {next : Nat → Parse β}
    (here : Consumes (next c.nextId) final { c with nextId := c.nextId + 1 }) :
    Consumes (Parse.freshId >>= next) final c :=
  Meets.drawn id trivial here

/-- What is taken as a word has what the word promises, besides what is known of it. -/
theorem of_takes {good : α → Prop} {word rest : List Kind} (h : Consumes action fits c)
    (taken : Takes action word rest good) (kinds : c.left.map Token.kind = word ++ rest) :
    Consumes action (fun tokens value => fits tokens value ∧ tokens.map Token.kind = word ∧
      good value) c := by
  refine of_runs fun ends value c' run => ?_
  obtain ⟨endsThen, tokens, left, fit⟩ := h.of_eq_ok ends run
  obtain ⟨found, between, foundRun, same, moved, isGood⟩ := taken.run kinds
  rw [foundRun] at run
  cases run
  refine ⟨endsThen, tokens, left, fit, ?_, isGood⟩
  have behind : c'.left.map Token.kind = rest := by
    rw [Cursor.left_of_index same moved, List.map_drop, kinds, List.drop_left]
  rw [left, List.map_append, behind] at kinds
  exact List.append_cancel_right kinds

end Consumes

namespace Parse

variable {α : Type} {fits : List Token → α → Prop} {c : Cursor}

/-! ## Single tokens -/

theorem consumes_here : Consumes here (fun taken _ => taken = []) c := .pure rfl

theorem consumes_spanFrom (start : Position) :
    Consumes (spanFrom start) (fun taken _ => taken = []) c := .pure rfl

theorem consumes_unexpected (expected : String) : Consumes (unexpected expected) fits c :=
  .look .halt

theorem consumes_freshId : Consumes freshId (fun taken _ => taken = []) c := by
  rw [← bind_pure freshId]
  exact .number (.pure rfl)

/-- A token of a kind that is no end is taken by itself. -/
theorem consumes_expect {k : Kind} (notEnd : k ≠ .eof) :
    Consumes (expect k) (fun taken token => taken = [token] ∧ token.kind = k) c := by
  refine .look (.ite (fun here => ?_) fun _ => consumes_unexpected _)
  rw [← bind_pure advance]
  exact .advance (here ▸ notEnd) fun _ _ => .pure ⟨rfl, here⟩

/-! ## Repetition -/

section Repetition

variable {holds : Cursor → Bool} {item : Parse α} {step : α → Parse α}

/-- **Tokens in a row** fit the values that they were taken for one after the other. -/
inductive InRow (fits : List Token → α → Prop) : List Token → List α → Prop
  | nil : InRow fits [] []
  | cons {taken more : List Token} {value : α} {values : List α} : fits taken value →
    InRow fits more values → InRow fits (taken ++ more) (value :: values)

section Keeping

variable {keeps : Cursor → Prop}
  (stays : ∀ {c c' : Cursor} {taken : List Token}, keeps c → c.left = taken ++ c'.left → keeps c')

include stays

/-- **A repetition takes tokens in a row**, where the action does that is repeated. -/
theorem consumes_repeatWhile (kept : keeps c)
    (each : ∀ c : Cursor, keeps c → holds c = true → Consumes item fits c) :
    Consumes (repeatWhile holds item) (InRow fits) c := by
  refine .look (Meets.repeatUpTo keeps
    (fun c values c' => ∃ taken, c.left = taken ++ c'.left ∧ InRow fits taken values)
    (fun _ _ => trivial) (fun c _ => ⟨[], rfl, .nil⟩) (fun c kept goesOn => ?_) _ kept)
  refine Meets.weaken (each c kept goesOn) fun value c' ⟨taken, left, fit⟩ => ⟨stays kept left, ?_⟩
  rintro rest last ⟨more, leftThen, row⟩
  exact ⟨taken ++ more, by rw [left, leftThen, List.append_assoc], .cons fit row⟩

/-- **A value that grows fits all that was taken** for it, where each step keeps it so. -/
theorem consumes_growWhile (fits : List Token → α → Prop) (kept : keeps c)
    (each : ∀ (value : α) (before : List Token) (c : Cursor), keeps c → holds c = true →
      fits before value → Consumes (step value) (fun taken next => fits (before ++ taken) next) c)
    {value : α} {before : List Token} (fit : fits before value) :
    Consumes (growWhile holds step value) (fun taken grown => fits (before ++ taken) grown) c := by
  have still : fits (before ++ []) value := (List.append_nil before).symm ▸ fit
  refine Meets.growWhile (fun _ _ => trivial) (fun value c' goesOn ⟨taken, left, fit⟩ => ?_)
    ⟨[], rfl, still⟩
  refine Consumes.behind left ((each value _ c' (stays kept left) goesOn fit).weaken ?_)
  intro more grown fit
  rwa [← List.append_assoc]

end Keeping

end Repetition

end Parse

end FrontEnd

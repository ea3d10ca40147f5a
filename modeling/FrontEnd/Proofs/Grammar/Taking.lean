import FrontEnd.Grammar.Parse
import FrontEnd.Proofs.Action
import FrontEnd.Proofs.Grammar.Judging

/-!
# Actions that take a word

What a parsing action does on tokens of given kinds: where the kinds from the current token on are a
word and then some rest, the action gives a value and moves the cursor to just behind the word
(`Takes`). This says that the action ends well, which is what a grammar promises of its parser. The
rules follow the actions, and a word is put together as its actions are.

The cursor does not move on the last token, so a token is only taken where something follows it.
-/

namespace FrontEnd

namespace Cursor

theorem left_eq (c : Cursor) : c.left = c.tokens.drop c.index := by
  rw [tokens, index, List.drop_left' (List.length_reverse ..), left]

theorem ahead_eq (c : Cursor) : c.ahead = c.tokens.drop (c.index + 1) := by
  rw [← List.drop_drop, ← left_eq]
  rfl

/-- Where more is ahead, a step takes the current token. -/
theorem left_next {c : Cursor} (more : c.ahead ≠ []) : c.left = c.current :: c.next.left := by
  obtain ⟨behind, current, ahead, nextId, file⟩ := c
  cases ahead with
  | nil => exact absurd rfl more
  | cons token rest => rfl

/-- The tokens left at a later place of a sequence. -/
theorem left_of_index {c c' : Cursor} {n : Nat} (same : c'.tokens = c.tokens)
    (moved : c'.index = c.index + n) : c'.left = c.left.drop n := by
  rw [left_eq, left_eq, same, moved, List.drop_drop]

theorem kind_of_left {c : Cursor} {k : Token.Kind} {rest : List Token.Kind}
    (kinds : c.left.map Token.kind = k :: rest) : c.kind = k :=
  (List.cons.inj kinds).1

end Cursor

/-- **An action takes a word** that stands in front of `rest`, and its value is good. -/
def Takes {α : Type} (action : Parse α) (word rest : List Token.Kind) (good : α → Prop) : Prop :=
  ∀ c : Cursor, c.left.map Token.kind = word ++ rest → Meets .sure action (fun value c' =>
    c'.tokens = c.tokens ∧ c'.index = c.index + word.length ∧ good value) c

namespace Takes

open Token

variable {α β : Type} {action : Parse α} {next : α → Parse β} {u v word rest : List Kind}
  {mid good : α → Prop} {final : β → Prop}

/-- **A word that is there is taken.** -/
theorem run (takes : Takes action word rest good) {c : Cursor}
    (kinds : c.left.map Token.kind = word ++ rest) : ∃ value c', action c = .ok value c' ∧
      c'.tokens = c.tokens ∧ c'.index = c.index + word.length ∧ good value :=
  (takes c kinds).exists_ok

theorem pure {value : α} (h : good value) : Takes (Pure.pure value) [] rest good :=
  fun _ _ => .pure ⟨rfl, rfl, h⟩

/-- **An action behind another** takes the word behind that of the first. -/
theorem bind (here : Takes action u (v ++ rest) mid)
    (behind : ∀ value, mid value → Takes (next value) v rest final) :
    Takes (action >>= next) (u ++ v) rest final := by
  intro c kinds
  rw [List.append_assoc] at kinds
  refine (here c kinds).bind fun value between ⟨same, moved, isMid⟩ => ?_
  have left : between.left.map Token.kind = v ++ rest := by
    rw [Cursor.left_of_index same moved, List.map_drop, kinds, List.drop_left]
  refine (behind value isMid between left).weaken fun _ _ ⟨sameOn, movedOn, isGood⟩ => ?_
  refine ⟨sameOn.trans same, ?_, isGood⟩
  rw [movedOn, moved, List.length_append, Nat.add_assoc]

/-- An action that takes nothing leaves the word to the one behind it. -/
theorem still (here : Takes action [] (v ++ rest) mid)
    (behind : ∀ value, mid value → Takes (next value) v rest final) :
    Takes (action >>= next) v rest final :=
  bind here behind

/-- An action that takes the whole word leaves nothing to the one behind it. -/
theorem whole (here : Takes action word rest mid)
    (behind : ∀ value, mid value → Takes (next value) [] rest final) :
    Takes (action >>= next) word rest final := by
  rw [← List.append_nil word]
  exact bind here behind

theorem token {k : Kind} (here : Takes action [k] (v ++ rest) mid)
    (behind : ∀ value, mid value → Takes (next value) v rest final) :
    Takes (action >>= next) (k :: v) rest final :=
  bind here behind

/-- An action that looks at the cursor may use what kinds are left. -/
theorem look {next : Cursor → Parse β}
    (behind : ∀ c : Cursor, c.left.map Token.kind = word ++ rest → Takes (next c) word rest final) :
    Takes (get >>= next) word rest final :=
  fun c kinds => .look (behind c kinds c kinds)

theorem weaken {wider : α → Prop} (h : Takes action word rest good)
    (implies : ∀ value, good value → wider value) : Takes action word rest wider :=
  fun c kinds => (h c kinds).weaken fun value _ ⟨same, moved, isGood⟩ =>
    ⟨same, moved, implies value isGood⟩

end Takes

namespace Parse

open Token

variable {rest : List Kind}

theorem takes_advance {k : Kind} (more : rest ≠ []) :
    Takes advance [k] rest fun token => token.kind = k := by
  intro c kinds
  have ahead : c.ahead ≠ [] := by
    intro none
    rw [Cursor.left, none] at kinds
    exact more (List.cons.inj kinds).2.symm
  rw [← bind_pure advance]
  refine .token id trivial fun _ => .pure ⟨c.tokens_next, ?_, Cursor.kind_of_left kinds⟩
  rw [c.index_next, if_neg ahead, List.length_singleton]

theorem takes_expect {k : Kind} (more : rest ≠ []) :
    Takes (expect k) [k] rest fun token => token.kind = k := by
  refine .look fun c kinds => ?_
  rw [if_pos (Cursor.kind_of_left kinds)]
  exact takes_advance more

theorem takes_separator_comma {closing : Kind} (more : rest ≠ []) :
    Takes (separator closing) [.comma] rest fun _ => True := by
  refine .look fun c kinds => ?_
  rw [if_pos (Cursor.kind_of_left kinds)]
  exact .token (takes_advance more) fun _ _ => .pure trivial

theorem takes_separator_closing {closing : Kind} (other : closing ≠ .comma) :
    Takes (separator closing) [] (closing :: rest) fun _ => True := by
  refine .look fun c kinds => ?_
  have here := Cursor.kind_of_left kinds
  rw [if_neg (here ▸ other), if_pos here]
  exact .pure trivial

theorem takes_here : Takes here [] rest fun _ => True :=
  .look fun _ _ => .pure trivial

theorem takes_spanFrom (start : Position) : Takes (spanFrom start) [] rest fun _ => True :=
  .look fun _ _ => .pure trivial

theorem takes_freshId : Takes freshId [] rest fun _ => True := by
  intro c _
  rw [← bind_pure freshId]
  exact .drawn id trivial (.pure ⟨rfl, rfl, trivial⟩)

/-! ## Repetition -/

variable {α : Type} {holds : Cursor → Bool} {item : Parse α} {n : Nat}

/-- A repetition ends where its condition fails. -/
theorem takes_repeatUpTo_nil
    (fails : ∀ c : Cursor, c.left.map Token.kind = rest → holds c = false) :
    Takes (repeatUpTo holds item n) [] rest fun values => values = [] := by
  cases n with
  | zero =>
    refine .look fun c kinds => ?_
    rw [fails c kinds]
    exact .pure rfl
  | succ n =>
    refine .look fun c kinds => ?_
    rw [fails c kinds]
    exact .pure rfl

/-- A repetition takes what its action takes and then goes on. -/
theorem takes_repeatUpTo_cons {u v : List Kind} {mid : α → Prop} {final : List α → Prop}
    (goesOn : ∀ c : Cursor, c.left.map Token.kind = u ++ v ++ rest → holds c = true)
    (here : Takes item u (v ++ rest) mid) (behind : Takes (repeatUpTo holds item n) v rest final) :
    Takes (repeatUpTo holds item (n + 1)) (u ++ v) rest fun values =>
      ∃ first later, values = first :: later ∧ mid first ∧ final later := by
  refine .look fun c kinds => ?_
  rw [goesOn c kinds]
  refine .bind here fun first isMid => ?_
  exact .whole behind fun later isFinal => .pure ⟨first, later, rfl, isMid, isFinal⟩

/-! ## Runs of repetitions -/

section Runs

variable {α : Type} {holds : Cursor → Bool} {item : Parse α} {step : α → Parse α}
  {c between c' : Cursor} {n : Nat}

theorem run_repeatUpTo_nil (stops : holds c = false) :
    repeatUpTo holds item n c = .ok [] c := by
  cases n with
  | zero | succ n =>
    unfold repeatUpTo
    rw [get_bind, stops]
    rfl

theorem run_repeatUpTo_cons {first : α} {rest : List α} (goes : holds c = true)
    (here : item c = .ok first between) (behind : repeatUpTo holds item n between = .ok rest c') :
    repeatUpTo holds item (n + 1) c = .ok (first :: rest) c' := by
  unfold repeatUpTo
  rw [get_bind, goes]
  exact bind_eq_ok.2 ⟨first, between, here, bind_eq_ok.2 ⟨rest, c', behind, rfl⟩⟩

/-- A value that nothing makes grow stays. -/
theorem run_growWhile_none {value : α} (stops : holds c = false) :
    growWhile holds step value c = .ok value c := by
  change growUpTo holds step (c.ahead.length + 1) value c = _
  unfold growUpTo
  rw [get_bind, stops]
  rfl

/-- A value that grows once. -/
theorem run_growWhile_once {value longer : α} (goes : holds c = true)
    (here : step value c = .ok longer c') (stops : holds c' = false) :
    growWhile holds step value c = .ok longer c' := by
  change growUpTo holds step (c.ahead.length + 1) value c = _
  unfold growUpTo
  rw [get_bind, goes]
  refine bind_eq_ok.2 ⟨longer, c', here, ?_⟩
  cases c.ahead.length with
  | zero | succ n =>
    unfold growUpTo
    rw [get_bind, stops]
    rfl

end Runs

end Parse

end FrontEnd

import FrontEnd.Proofs.Grammar.Agreement
import FrontEnd.Proofs.Program.Printable
import FrontEnd.Program.Relabel

/-!
# What parsing yields from lexemes

Where the lexemes from the current token on are a word and then some rest, an action yields a good
value when it gives one and leaves the rest (`Yields`). In contrast to the kinds alone, the lexemes
say what the value is: all of a syntax tree that they fix is the tree without numbers and positions,
so a value is compared with the tree that was written after both are erased (`Relabel.erase`).

The rules follow the actions, and a word is put together as it is written. The cursor does not move
on the last token, so some rest always stands behind a word.

This module has the rules, and what the actions for names yield.
-/

namespace FrontEnd

open Token Lexeme

/-- The kind of the first lexeme. -/
def Lexeme.first (word : List Lexeme) : Option Kind :=
  word.head?.map Prod.fst

namespace Lexeme

variable {word behind : List Lexeme} {k : Kind}

theorem first_append (h : first word = some k) : first (word ++ behind) = some k := by
  cases word with
  | nil => cases h
  | cons l word => exact h

theorem ne_of_first {l : Kind} (h : first word = some k) (other : k ≠ l) :
    first word ≠ some l := by
  rw [h]
  exact fun same => other (Option.some.inj same)

/-- A word that begins in one of two ways begins in no third. -/
theorem ne_of_either {l m : Kind} (h : first word = some k ∨ first word = some m)
    (other : k ≠ l ∧ m ≠ l) : first word ≠ some l := by
  rcases h with h | h
  · exact ne_of_first h other.1
  · exact ne_of_first h other.2

theorem ne_nil_of_first (h : first word = some k) : word ≠ [] := by
  rintro rfl
  cases h

/-- A word is no longer than the words that it is joined with. -/
theorem length_le_joined {mark : Kind} {words : List (List Lexeme)} (mem : word ∈ words) :
    word.length ≤ (joined mark words).length := by
  cases words with
  | nil => cases mem
  | cons first rest =>
    rw [joined, List.length_append]
    rcases List.mem_cons.1 mem with rfl | mem
    · exact Nat.le_add_right ..
    · obtain ⟨front, back, rfl⟩ := List.append_of_mem mem
      rw [List.flatMap_append, List.flatMap_cons]
      simp only [List.length_append, List.length_cons]
      omega

/-- There are no more words than lexemes in them, if none is empty. -/
theorem length_le_flatMap {γ : Type} {xs : List γ} {word : γ → List Lexeme}
    (some : ∀ x ∈ xs, word x ≠ []) : xs.length ≤ (xs.flatMap word).length := by
  induction xs with
  | nil => exact Nat.le_refl _
  | cons x xs ih =>
    obtain ⟨here, later⟩ := List.forall_mem_cons.1 some
    have one := List.length_pos_iff.2 here
    have rest := ih later
    rw [List.flatMap_cons, List.length_append, List.length_cons]
    omega

/-- There are no more words than lexemes in their joined word, if none is empty. -/
theorem length_le_joined_map {γ : Type} {xs : List γ} {word : γ → List Lexeme} {mark : Kind}
    (some : ∀ x ∈ xs, word x ≠ []) : xs.length ≤ (joined mark (xs.map word)).length := by
  cases xs with
  | nil => exact Nat.le_refl _
  | cons x xs =>
    have one := List.length_pos_iff.2 (some x (List.mem_cons_self ..))
    have rest : xs.length ≤ ((xs.map word).flatMap (mark.lexeme :: ·)).length := by
      rw [List.flatMap_map]
      exact length_le_flatMap fun _ _ => List.cons_ne_nil _ _
    rw [List.map_cons, joined, List.length_append, List.length_cons]
    omega

end Lexeme

namespace Cursor

variable {c : Cursor} {word rest : List Lexeme} {k : Kind}

theorem first_left (c : Cursor) : first (c.left.map Token.lexeme) = some c.kind := rfl

theorem kind_of_lexemes (lexemes : c.left.map Token.lexeme = word) (h : first word = some k) :
    c.kind = k := by
  rw [← lexemes, first_left] at h
  exact Option.some.inj h

theorem ne_of_lexemes (lexemes : c.left.map Token.lexeme = word) (h : first word ≠ some k) :
    c.kind ≠ k := by
  rintro rfl
  rw [← lexemes] at h
  exact h c.first_left

theorem peek_of_lexemes (lexemes : c.left.map Token.lexeme = word) (n : Nat) :
    c.peek n = (word[n]?).elim .eof Prod.fst := by
  rw [← lexemes, List.getElem?_map, peek]
  cases c.left[n]? <;> rfl

theorem kinds_of_lexemes (lexemes : c.left.map Token.lexeme = word) :
    c.left.map Token.kind = word.map Prod.fst := by
  rw [← lexemes, List.map_map]
  rfl

theorem length_of_lexemes (lexemes : c.left.map Token.lexeme = word) :
    c.left.length = word.length := by
  rw [← lexemes, List.length_map]

/-- A bound read off the cursor is long enough for the word in front of it. -/
theorem length_le_of_lexemes (lexemes : c.left.map Token.lexeme = word ++ rest) :
    word.length ≤ c.left.length := by
  rw [length_of_lexemes lexemes, List.length_append]
  exact Nat.le_add_right ..

end Cursor

/-- **An action yields a good value** from a word that stands in front of some rest, and leaves the
rest. -/
def Yields {α : Type} (action : Parse α) (word rest : List Lexeme) (good : α → Prop) : Prop :=
  rest ≠ [] → ∀ c : Cursor, c.left.map Token.lexeme = word ++ rest →
    Meets .sure action (fun value c' => c'.left.map Token.lexeme = rest ∧ good value) c

namespace Yields

variable {α β : Type} {action other : Parse α} {next : α → Parse β} {u v word rest : List Lexeme}
  {mid good wider : α → Prop} {final : β → Prop}

/-- **A word that is there is yielded from.** -/
theorem run (yields : Yields action word rest good) (some : rest ≠ []) {c : Cursor}
    (lexemes : c.left.map Token.lexeme = word ++ rest) : ∃ value c', action c = .ok value c' ∧
      c'.left.map Token.lexeme = rest ∧ good value :=
  (yields some c lexemes).exists_ok

theorem pure {value : α} (h : good value) : Yields (Pure.pure value) [] rest good :=
  fun _ _ lexemes => .pure ⟨lexemes, h⟩

/-- **An action behind another** yields from the word behind that of the first. -/
theorem bind (here : Yields action u (v ++ rest) mid)
    (behind : ∀ value, mid value → Yields (next value) v rest final) :
    Yields (action >>= next) (u ++ v) rest final := by
  intro some c lexemes
  rw [List.append_assoc] at lexemes
  have someBehind : v ++ rest ≠ [] := by simp [some]
  exact (here someBehind c lexemes).bind fun value between ⟨left, isMid⟩ =>
    behind value isMid some between left

/-- An action that takes nothing leaves the word to the one behind it. -/
theorem still (here : Yields action [] (v ++ rest) mid)
    (behind : ∀ value, mid value → Yields (next value) v rest final) :
    Yields (action >>= next) v rest final :=
  bind here behind

/-- An action that takes the whole word leaves nothing to the one behind it. -/
theorem whole (here : Yields action word rest mid)
    (behind : ∀ value, mid value → Yields (next value) [] rest final) :
    Yields (action >>= next) word rest final := by
  rw [← List.append_nil word]
  exact bind here behind

theorem token {l : Lexeme} (here : Yields action [l] (v ++ rest) mid)
    (behind : ∀ value, mid value → Yields (next value) v rest final) :
    Yields (action >>= next) (l :: v) rest final :=
  bind here behind

/-- An action that looks at the cursor may use what lexemes are left. -/
theorem look {next : Cursor → Parse β}
    (behind : ∀ c : Cursor, c.left.map Token.lexeme = word ++ rest →
      Yields (next c) word rest final) :
    Yields (get >>= next) word rest final :=
  fun some c lexemes => .look (behind c lexemes some c lexemes)

/-- An action that looks at the kind of the current token. -/
theorem onKind {next : Kind → Parse β} {k : Kind} (here : first (word ++ rest) = some k)
    (behind : Yields (next k) word rest final) : Yields (Parse.kind >>= next) word rest final := by
  refine .look fun c lexemes => ?_
  rw [Cursor.kind_of_lexemes lexemes here]
  exact behind

theorem weaken (h : Yields action word rest good) (implies : ∀ value, good value → wider value) :
    Yields action word rest wider :=
  fun some c lexemes => (h some c lexemes).weaken fun value _ ⟨left, isGood⟩ =>
    ⟨left, implies value isGood⟩

theorem map {f : α → β} (h : Yields action word rest good)
    (implies : ∀ value, good value → final (f value)) : Yields (f <$> action) word rest final :=
  fun some c lexemes => (h some c lexemes).map fun value _ ⟨left, isGood⟩ =>
    ⟨left, implies value isGood⟩

end Yields

namespace Parse

variable {rest : List Lexeme} {k closing : Kind} {text : String}

/-! ## Single tokens -/

theorem yields_here : Yields here [] rest fun _ => True :=
  .look fun _ _ => .pure trivial

theorem yields_spanFrom (start : Position) : Yields (spanFrom start) [] rest fun _ => True :=
  .look fun _ _ => .pure trivial

theorem yields_freshId : Yields freshId [] rest fun _ => True := by
  intro _ c lexemes
  rw [← bind_pure freshId]
  exact .drawn id trivial (.pure ⟨lexemes, trivial⟩)

theorem yields_advance {l : Lexeme} : Yields advance [l] rest fun token => token.lexeme = l := by
  intro some c lexemes
  obtain ⟨behind, current, ahead, nextId, file⟩ := c
  obtain ⟨here, later⟩ := List.cons.inj lexemes
  cases ahead with
  | nil => exact absurd later.symm some
  | cons token more =>
    rw [← bind_pure advance]
    exact .token id trivial fun _ => .pure ⟨later, here⟩

theorem yields_expect : Yields (expect k) [(k, text)] rest fun token => token.text = text := by
  refine .look fun c lexemes => ?_
  rw [if_pos (Cursor.kind_of_lexemes lexemes rfl)]
  exact yields_advance.weaken fun token same => congrArg Prod.snd same

/-- A mark is taken. -/
theorem yields_mark : Yields (expect k) [k.lexeme] rest fun _ => True :=
  yields_expect.weaken fun _ _ => trivial

theorem yields_consume_true : Yields (consume k) [(k, text)] rest fun taken => taken = true := by
  refine .look fun c lexemes => ?_
  rw [if_pos (Cursor.kind_of_lexemes lexemes rfl)]
  exact .token yields_advance fun _ _ => .pure rfl

theorem yields_consume_false (other : first rest ≠ some k) :
    Yields (consume k) [] rest fun taken => taken = false := by
  refine .look fun c lexemes => ?_
  rw [if_neg (Cursor.ne_of_lexemes lexemes other)]
  exact .pure rfl

/-- **A mark that stands there or not** is taken if it does. -/
theorem yields_optional (stands : Bool) (other : first rest ≠ some k) :
    Yields (consume k) (optional k stands) rest fun taken => taken = stands := by
  cases stands with
  | true => exact yields_consume_true
  | false => exact yields_consume_false other

theorem yields_separator_comma :
    Yields (separator closing) [Kind.comma.lexeme] rest fun _ => True := by
  refine .look fun c lexemes => ?_
  have isComma : c.kind = .comma := Cursor.kind_of_lexemes lexemes rfl
  rw [if_pos isComma]
  exact .token yields_advance fun _ _ => .pure trivial

theorem yields_separator_closing (notComma : closing ≠ .comma) (here : first rest = some closing) :
    Yields (separator closing) [] rest fun _ => True := by
  refine .look fun c lexemes => ?_
  have isClosing : c.kind = closing := Cursor.kind_of_lexemes lexemes here
  rw [if_neg (isClosing ▸ notComma), if_pos isClosing]
  exact .pure trivial

theorem yields_arrayMark (isArray : Bool) (other : first rest ≠ some .openBracket) :
    Yields arrayMark (arraySuffix isArray) rest fun marked => marked = isArray := by
  cases isArray with
  | true =>
    refine .token yields_consume_true fun taken isTaken => ?_
    rw [if_pos isTaken]
    exact .token yields_mark fun _ _ => .pure rfl
  | false =>
    refine .still (yields_consume_false other) fun taken notTaken => ?_
    rw [if_neg (by simp [notTaken])]
    exact .pure rfl

/-! ## Repetition -/

section Repetition

variable {α β γ : Type} {holds : Cursor → Bool} {item : Parse α} {xs : List γ}
  {word : γ → List Lexeme} {f : α → β} {g : γ → β} {n : Nat}

theorem yields_repeatUpTo_nil
    (stops : ∀ c : Cursor, c.left.map Token.lexeme = rest → holds c = false) :
    Yields (repeatUpTo holds item n) [] rest fun values => values.map f = ([] : List γ).map g := by
  cases n with
  | zero =>
    refine .look fun c lexemes => ?_
    rw [stops c lexemes]
    exact .pure rfl
  | succ n =>
    refine .look fun c lexemes => ?_
    rw [stops c lexemes]
    exact .pure rfl

theorem yields_repeatUpTo_cons {u v : List Lexeme} {x : γ}
    (goesOn : ∀ c : Cursor, c.left.map Token.lexeme = u ++ (v ++ rest) → holds c = true)
    (here : Yields item u (v ++ rest) fun value => f value = g x)
    (behind : Yields (repeatUpTo holds item n) v rest fun values => values.map f = xs.map g) :
    Yields (repeatUpTo holds item (n + 1)) (u ++ v) rest fun values =>
      values.map f = (x :: xs).map g := by
  refine .look fun c lexemes => ?_
  rw [goesOn c (by rw [lexemes, List.append_assoc])]
  refine .bind here fun first isFirst => .whole behind fun later areLater => .pure ?_
  rw [List.map_cons, List.map_cons, isFirst, areLater]

/-- The bound of a repetition is at least the number of words in front of the cursor. -/
theorem yields_repeatWhile_of_repeatUpTo {u : List Lexeme} {good : List α → Prop}
    (counted : xs.length ≤ u.length)
    (each : ∀ n, xs.length ≤ n → Yields (repeatUpTo holds item n) u rest good) :
    Yields (repeatWhile holds item) u rest good :=
  .look fun _ lexemes => each _ (Nat.le_trans counted (Cursor.length_le_of_lexemes lexemes))

/-- **A repetition yields a value for each word** of a row, where its condition holds exactly in
front of the words. -/
theorem yields_repeatWhile
    (each : ∀ x ∈ xs, ∀ behind, first behind = first rest ∨ (∃ y ∈ xs, ∃ u, behind = word y ++ u) →
      Yields item (word x) behind fun value => f value = g x)
    (goesOn : ∀ x ∈ xs, ∀ (c : Cursor) (behind : List Lexeme),
      c.left.map Token.lexeme = word x ++ behind → holds c = true)
    (some : ∀ x ∈ xs, word x ≠ [])
    (stops : ∀ c : Cursor, c.left.map Token.lexeme = rest → holds c = false) :
    Yields (repeatWhile holds item) (xs.flatMap word) rest fun values =>
      values.map f = xs.map g := by
  refine yields_repeatWhile_of_repeatUpTo (length_le_flatMap some) fun n enough => ?_
  induction xs generalizing n with
  | nil => exact yields_repeatUpTo_nil stops
  | cons x xs ih =>
    cases n with
    | zero => cases enough
    | succ n =>
      have mem : x ∈ x :: xs := List.mem_cons_self ..
      have later : Yields (repeatUpTo holds item n) (xs.flatMap word) rest fun values =>
          values.map f = xs.map g := by
        refine ih (fun y inRest behind follows => each y (.tail _ inRest) behind ?_)
          (fun y inRest => goesOn y (.tail _ inRest)) (fun y inRest => some y (.tail _ inRest)) n
          (Nat.le_of_succ_le_succ enough)
        exact follows.imp_right fun ⟨z, inRest, split⟩ => ⟨z, .tail _ inRest, split⟩
      rw [List.flatMap_cons]
      refine yields_repeatUpTo_cons (fun c => goesOn x mem c _) (each x mem _ ?_) later
      cases xs with
      | nil => exact .inl rfl
      | cons y ys =>
        refine .inr ⟨y, .tail _ (List.mem_cons_self ..), ys.flatMap word ++ rest, ?_⟩
        rw [List.flatMap_cons, List.append_assoc]

/-- **A repetition yields a value for each word between commas**, where the action takes the comma
behind its word and the last word has none. -/
theorem yields_repeatWhile_joined
    (more : ∀ x ∈ xs, ∀ behind, Yields item (word x ++ [Kind.comma.lexeme]) behind fun value =>
      f value = g x)
    (last : ∀ x ∈ xs, Yields item (word x) rest fun value => f value = g x)
    (goesOn : ∀ x ∈ xs, ∀ (c : Cursor) (behind : List Lexeme),
      c.left.map Token.lexeme = word x ++ behind → holds c = true)
    (some : ∀ x ∈ xs, word x ≠ [])
    (stops : ∀ c : Cursor, c.left.map Token.lexeme = rest → holds c = false) :
    Yields (repeatWhile holds item) (joined .comma (xs.map word)) rest fun values =>
      values.map f = xs.map g := by
  refine yields_repeatWhile_of_repeatUpTo (length_le_joined_map some) fun n enough => ?_
  induction xs generalizing n with
  | nil => exact yields_repeatUpTo_nil stops
  | cons x xs ih =>
    cases n with
    | zero => cases enough
    | succ n =>
      have mem : x ∈ x :: xs := List.mem_cons_self ..
      have later := ih (fun y inRest => more y (.tail _ inRest))
        (fun y inRest => last y (.tail _ inRest)) (fun y inRest => goesOn y (.tail _ inRest))
        (fun y inRest => some y (.tail _ inRest)) n (Nat.le_of_succ_le_succ enough)
      cases xs with
      | nil =>
        have only : joined .comma ([x].map word) = word x ++ [] := rfl
        rw [only]
        exact yields_repeatUpTo_cons (fun c => goesOn x mem c _) (last x mem) later
      | cons y ys =>
        rw [List.map_cons, List.map_cons, joined_cons_cons, List.append_cons]
        refine yields_repeatUpTo_cons (fun c lexemes => ?_) (more x mem _) later
        rw [List.append_assoc] at lexemes
        exact goesOn x mem c _ lexemes

/-- **A repetition up to a closing mark** that begins none of the words. -/
theorem yields_repeatUntil
    (each : ∀ x ∈ xs, ∀ behind, Yields item (word x) behind fun value => f value = g x)
    (starts : ∀ x ∈ xs, ∃ k, first (word x) = some k ∧ k ≠ closing)
    (closes : first rest = some closing) :
    Yields (repeatUntil closing item) (xs.flatMap word) rest fun values =>
      values.map f = xs.map g := by
  refine yields_repeatWhile (fun x mem behind _ => each x mem behind)
    (fun x mem c behind lexemes => ?_) (fun x mem => ?_) (fun c lexemes => ?_)
  · obtain ⟨k, isFirst, notClosing⟩ := starts x mem
    simpa [Cursor.kind_of_lexemes lexemes (first_append isFirst)] using notClosing
  · obtain ⟨k, isFirst, -⟩ := starts x mem
    exact ne_nil_of_first isFirst
  · simp [Cursor.kind_of_lexemes lexemes closes]

/-- **A repetition over words between commas**, up to a closing mark that begins none of them. -/
theorem yields_repeatUntil_joined
    (more : ∀ x ∈ xs, ∀ behind, Yields item (word x ++ [Kind.comma.lexeme]) behind fun value =>
      f value = g x)
    (last : ∀ x ∈ xs, Yields item (word x) rest fun value => f value = g x)
    (starts : ∀ x ∈ xs, ∃ k, first (word x) = some k ∧ k ≠ closing)
    (closes : first rest = some closing) :
    Yields (repeatUntil closing item) (joined .comma (xs.map word)) rest fun values =>
      values.map f = xs.map g := by
  refine yields_repeatWhile_joined more last (fun x mem c behind lexemes => ?_) (fun x mem => ?_)
    (fun c lexemes => ?_)
  · obtain ⟨k, isFirst, notClosing⟩ := starts x mem
    simpa [Cursor.kind_of_lexemes lexemes (first_append isFirst)] using notClosing
  · obtain ⟨k, isFirst, -⟩ := starts x mem
    exact ne_nil_of_first isFirst
  · simp [Cursor.kind_of_lexemes lexemes closes]

/-- **The elements of a list** are yielded up to its closing mark. -/
theorem yields_separated (notComma : closing ≠ .comma)
    (each : ∀ x ∈ xs, ∀ behind, first behind = some .comma ∨ first behind = some closing →
      Yields item (word x) behind fun value => f value = g x)
    (starts : ∀ x ∈ xs, ∃ k, first (word x) = some k ∧ k ≠ closing)
    (closes : first rest = some closing) :
    Yields (separated closing item) (joined .comma (xs.map word)) rest fun values =>
      values.map f = xs.map g := by
  refine yields_repeatUntil_joined (fun x mem behind => ?_) (fun x mem => ?_) starts closes
  · exact .bind (each x mem _ (.inl rfl)) fun value isValue =>
      .token yields_separator_comma fun _ _ => .pure isValue
  · exact .whole (each x mem _ (.inr closes)) fun value isValue =>
      .still (yields_separator_closing notComma closes) fun _ _ => .pure isValue

end Repetition

/-! ## Growth -/

section Growth

variable {word : List Lexeme} {α γ : Type} {holds : Cursor → Bool} {step : α → Parse α}
  {good : α → Prop} {n : Nat}

theorem yields_growUpTo_nil {value : α} (isGood : good value)
    (stops : ∀ c : Cursor, c.left.map Token.lexeme = rest → holds c = false) :
    Yields (growUpTo holds step n value) [] rest good := by
  cases n with
  | zero =>
    refine .look fun c lexemes => ?_
    rw [stops c lexemes]
    exact .pure isGood
  | succ n =>
    refine .look fun c lexemes => ?_
    rw [stops c lexemes]
    exact .pure isGood

theorem yields_growWhile_nil {value : α} (isGood : good value)
    (stops : ∀ c : Cursor, c.left.map Token.lexeme = rest → holds c = false) :
    Yields (growWhile holds step value) [] rest good :=
  .look fun _ _ => yields_growUpTo_nil isGood stops

/-- **A value grows by the words of a row**, one step for each, where the condition holds exactly in
front of the words. -/
theorem yields_growWhile {xs : List γ} {wordOf : γ → List Lexeme} {P : List γ → α → Prop}
    {value : α} (isMid : P [] value)
    (each : ∀ done x later value behind, xs = done ++ x :: later → P done value →
      (first behind = first rest ∨ ∃ y ∈ later, ∃ u, behind = wordOf y ++ u) →
      Yields (step value) (wordOf x) behind (P (done ++ [x])))
    (goesOn : ∀ x ∈ xs, ∀ (c : Cursor) (behind : List Lexeme),
      c.left.map Token.lexeme = wordOf x ++ behind → holds c = true)
    (some : ∀ x ∈ xs, wordOf x ≠ [])
    (stops : ∀ c : Cursor, c.left.map Token.lexeme = rest → holds c = false) :
    Yields (growWhile holds step value) (xs.flatMap wordOf) rest (P xs) := by
  -- the induction is on the words still to come; those before them are `done`
  have run : ∀ later done n value, xs = done ++ later → later.length ≤ n → P done value →
      Yields (growUpTo holds step n value) (later.flatMap wordOf) rest (P xs) := by
    intro later
    induction later with
    | nil =>
      intro done n value split _ isMid
      rw [List.append_nil] at split
      exact yields_growUpTo_nil (split ▸ isMid) stops
    | cons x later ih =>
      intro done n value split enough isMid
      cases n with
      | zero => cases enough
      | succ n =>
        have mem : x ∈ xs := by simp [split]
        have follows : first (later.flatMap wordOf ++ rest) = first rest ∨
            ∃ y ∈ later, ∃ u, later.flatMap wordOf ++ rest = wordOf y ++ u := by
          cases later with
          | nil => exact .inl rfl
          | cons y ys =>
            refine .inr ⟨y, List.mem_cons_self .., ys.flatMap wordOf ++ rest, ?_⟩
            rw [List.flatMap_cons, List.append_assoc]
        rw [List.flatMap_cons]
        refine .look fun c lexemes => ?_
        rw [List.append_assoc] at lexemes
        rw [goesOn x mem c _ lexemes]
        refine .bind (each done x later value _ split isMid follows) fun value isMid => ?_
        exact ih (done ++ [x]) n value (by simp [split]) (Nat.le_of_succ_le_succ enough) isMid
  refine .look fun c lexemes => run xs [] _ value rfl ?_ isMid
  exact Nat.le_trans (length_le_flatMap some) (Cursor.length_le_of_lexemes lexemes)

/-- A value grows by one word. -/
theorem yields_growWhile_once {value : α} (here : Yields (step value) word rest good)
    (goesOn : ∀ c : Cursor, c.left.map Token.lexeme = word ++ rest → holds c = true)
    (stops : ∀ c : Cursor, c.left.map Token.lexeme = rest → holds c = false) :
    Yields (growWhile holds step value) word rest good := by
  refine .look fun c _ => ?_
  obtain ⟨n, enough⟩ : ∃ n, c.left.length = n + 1 := ⟨c.ahead.length, rfl⟩
  rw [enough]
  refine .look fun c lexemes => ?_
  rw [goesOn c lexemes]
  exact .whole here fun value isGood => yields_growUpTo_nil isGood stops

end Growth

end Parse

end FrontEnd

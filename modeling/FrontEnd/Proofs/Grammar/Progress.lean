import FrontEnd.Proofs.Grammar.Agreement
import Mathlib.Logic.Relation

/-!
# Parsing makes progress

A cursor changes by single steps: a segment takes a number, or a token that is not one of the end is
passed (`Cursor.Step`). A walk is a row of such steps. It keeps the tokens, it never goes back, and
it never passes a token of the end.

Every parsing action moves the cursor along a walk, whether it ends well or halts, and it never
halts for want of budget (`Parse.Moves`). Most actions take at least one token when they end well.
That is what bounds the repetitions, and the depth of what nests: an inner action runs where fewer
tokens are left.

This module has the rules, and the actions for single tokens and for names.
-/

namespace FrontEnd

namespace Cursor

/-- **A single step of a cursor**: a number is taken, or a token that is not one of the end. -/
inductive Step : Cursor → Cursor → Prop
  | number {c : Cursor} : Step c { c with nextId := c.nextId + 1 }
  | token {c : Cursor} : c.kind ≠ .eof → Step c c.next

/-- **A cursor walks to another** in single steps. -/
abbrev Walks : Cursor → Cursor → Prop :=
  Relation.ReflTransGen Step

/-- No token of the end stands behind a cursor. -/
def Clear (c : Cursor) : Prop :=
  ∀ token ∈ c.behind, token.kind ≠ .eof

variable {c c' : Cursor}

theorem Step.tokens_eq (step : c.Step c') : c'.tokens = c.tokens := by
  cases step with
  | number => rfl
  | token => exact c.tokens_next

theorem Step.index_le (step : c.Step c') : c.index ≤ c'.index := by
  cases step with
  | number => exact Nat.le_refl _
  | token =>
    rw [c.index_next]
    split <;> omega

theorem Step.clear (step : c.Step c') (clear : c.Clear) : c'.Clear := by
  cases step with
  | number => exact clear
  | token notEnd =>
    unfold next
    split
    · exact clear
    · exact List.forall_mem_cons.2 ⟨notEnd, clear⟩

/-- A walk keeps the tokens. -/
theorem Walks.tokens_eq (walks : c.Walks c') : c'.tokens = c.tokens := by
  induction walks with
  | refl => rfl
  | tail _ step ih => exact step.tokens_eq.trans ih

/-- A walk never goes back. -/
theorem Walks.index_le (walks : c.Walks c') : c.index ≤ c'.index := by
  induction walks with
  | refl => exact Nat.le_refl _
  | tail _ step ih => exact Nat.le_trans ih step.index_le

/-- **A walk never passes a token of the end.** -/
theorem Walks.clear (walks : c.Walks c') (clear : c.Clear) : c'.Clear := by
  induction walks with
  | refl => exact clear
  | tail _ step ih => exact step.clear ih

theorem Walks.ends (walks : c.Walks c') (ends : c.Ends) : c'.Ends := by
  rw [Ends, walks.tokens_eq]
  exact ends

theorem index_add_length_left (c : Cursor) : c.index + c.left.length = c.tokens.length := by
  rw [tokens, index, left, List.length_append, List.length_reverse]

theorem length_left_pos (c : Cursor) : 0 < c.left.length :=
  Nat.succ_pos _

theorem length_left_next (more : c.ahead ≠ []) : c.next.left.length + 1 = c.left.length := by
  have moved : c.next.index = c.index + 1 := by rw [c.index_next, if_neg more]
  have total := c.index_add_length_left
  have totalNext := c.next.index_add_length_left
  rw [c.tokens_next] at totalNext
  omega

theorem kind_next (more : c.ahead ≠ []) : c.next.kind = c.peek 1 := by
  obtain ⟨behind, current, ahead, nextId, file⟩ := c
  cases ahead with
  | nil => exact absurd rfl more
  | cons token rest => rfl

end Cursor

/-- **What is left of a run that moved a cursor** along a walk: it took at least a number of tokens,
or it halted, and not for want of budget. -/
inductive Moved {α : Type} (c : Cursor) (least : Nat) : EStateM.Result Halt Cursor α → Prop
  | ended {value : α} {c' : Cursor} : c.Walks c' → c'.left.length + least ≤ c.left.length →
    Moved c least (.ok value c')
  | halted {halt : Halt} {c' : Cursor} : c.Walks c' → halt ≠ .exhausted →
    Moved c least (.error halt c')

/-- **An action moves a cursor** over tokens that end, by at least a number of tokens. -/
def Moves {α : Type} (action : Parse α) (least : Nat) (c : Cursor) : Prop :=
  c.Ends → Moved c least (action c)

namespace Moves

open Token

variable {α β : Type} {action other : Parse α} {next : α → Parse β} {c : Cursor}
  {least total : Nat}

theorem pure (value : α) : Moves (Pure.pure value) 0 c :=
  fun _ => .ended .refl (Nat.le_refl _)

theorem halt {halt : Halt} (notBudget : halt ≠ .exhausted) : Moves (α := α) (throw halt) least c :=
  fun _ => .halted .refl notBudget

/-- What moves a cursor never halts for want of budget. -/
theorem not_exhausted {c' : Cursor} (moves : Moves action least c) (ends : c.Ends) :
    action c ≠ .error .exhausted c' := by
  intro spent
  have moved := moves ends
  rw [spent] at moved
  cases moved with
  | halted _ notBudget => exact notBudget rfl

/-- **An action behind another** runs where the first one left the cursor. -/
theorem bind (here : Moves action least c)
    (behind : ∀ value c', c'.left.length + least ≤ c.left.length →
      Moves (next value) (total - least) c') :
    Moves (action >>= next) total c := by
  intro ends
  have first := here ends
  change Moved c total (EStateM.bind action next c)
  unfold EStateM.bind
  generalize action c = result at first
  cases first with
  | @ended value between walks fewer =>
    have second := behind value between fewer (walks.ends ends)
    dsimp only
    generalize next value between = result at second
    cases second with
    | ended walksOn fewerToo => exact .ended (walks.trans walksOn) (by omega)
    | halted walksOn notBudget => exact .halted (walks.trans walksOn) notBudget
  | halted walks notBudget => exact .halted walks notBudget

/-- An action that takes a token leaves the one behind it free to take none. -/
theorem first (here : Moves action 1 c)
    (behind : ∀ value c', c'.left.length < c.left.length → Moves (next value) 0 c') :
    Moves (action >>= next) 1 c :=
  bind here behind

/-- An action that may take nothing leaves the token to the one behind it. -/
theorem skip (here : Moves action 0 c)
    (behind : ∀ value c', c'.left.length ≤ c.left.length → Moves (next value) least c') :
    Moves (action >>= next) least c :=
  bind here behind

theorem weaken (h : Moves action 1 c) : Moves action 0 c := by
  intro ends
  have moved := h ends
  generalize action c = result at moved
  cases moved with
  | ended walks fewer => exact .ended walks (by omega)
  | halted walks notBudget => exact .halted walks notBudget

theorem ite {p : Prop} [Decidable p] (yes : p → Moves action least c)
    (no : ¬ p → Moves other least c) : Moves (if p then action else other) least c := by
  split
  next holds => exact yes holds
  next fails => exact no fails

theorem map (here : Moves action least c) (f : α → β) : Moves (f <$> action) least c := by
  rw [map_eq_pure_bind]
  refine bind here fun value c' _ => ?_
  rw [Nat.sub_self]
  exact pure _

/-- An action that looks at the cursor. -/
theorem look {next : Cursor → Parse β} (behind : Moves (next c) least c) :
    Moves (get >>= next) least c :=
  behind

/-- An action that looks at the kind of the current token. -/
theorem onKind {next : Kind → Parse β} (behind : Moves (next c.kind) least c) :
    Moves (Parse.kind >>= next) least c :=
  behind

/-- An action behind a token that is taken whatever it is. -/
theorem advance {next : Token → Parse β} (notEnd : c.kind ≠ .eof)
    (behind : c.next.left.length < c.left.length → c.next.kind = c.peek 1 →
      Moves (next c.current) 0 c.next) :
    Moves (Parse.advance >>= next) 1 c := by
  intro ends
  have more := ends.ahead_ne_nil notEnd
  have walks : c.Walks c.next := .single (.token notEnd)
  have fewer := Cursor.length_left_next more
  have moved := behind (by omega) (Cursor.kind_next more) (walks.ends ends)
  change Moved c 1 (next c.current c.next)
  generalize next c.current c.next = result at moved
  cases moved with
  | ended walksOn fewerToo => exact .ended (walks.trans walksOn) (by omega)
  | halted walksOn notBudget => exact .halted (walks.trans walksOn) notBudget

end Moves

namespace Parse

open Token

variable {α : Type} {c : Cursor} {least : Nat}

/-! ## Single tokens -/

theorem moves_here : Moves here 0 c := .pure _

theorem moves_spanFrom (start : Position) : Moves (spanFrom start) 0 c := .pure _

theorem moves_fail (fault : Fault) (position : Position) :
    Moves (α := α) (fail fault position) least c :=
  .halt nofun

theorem moves_unexpected (expected : String) : Moves (α := α) (unexpected expected) least c :=
  .halt nofun

theorem moves_freshId : Moves freshId 0 c :=
  fun _ => .ended (.single .number) (Nat.le_refl _)

theorem moves_advance (notEnd : c.kind ≠ .eof) : Moves advance 1 c := by
  rw [← bind_pure advance]
  exact .advance notEnd fun _ _ => .pure _

theorem moves_consume {k : Kind} (notEnd : k ≠ .eof) : Moves (consume k) 0 c := by
  refine .look (.ite (fun here => ?_) fun _ => .pure false)
  have moves : Moves (advance >>= fun _ => pure true) 1 c :=
    .advance (here ▸ notEnd) fun _ _ => .pure true
  exact moves.weaken

theorem moves_expect {k : Kind} (notEnd : k ≠ .eof) : Moves (expect k) 1 c :=
  .look (.ite (fun here => moves_advance (here ▸ notEnd)) fun _ => moves_unexpected _)

/-- A token behind others need not count. -/
theorem moves_further {k : Kind} (notEnd : k ≠ .eof) : Moves (expect k) 0 c :=
  (moves_expect notEnd).weaken

theorem moves_separator (closing : Kind) : Moves (separator closing) 0 c := by
  refine .look (.ite (fun here => ?_) fun _ => .ite (fun _ => .pure ()) fun _ => moves_unexpected _)
  have moves : Moves (advance >>= fun _ => pure ()) 1 c :=
    .advance (by rw [here]; nofun) fun _ _ => .pure ()
  exact moves.weaken

/-- An action behind a token of a kind that may stand there or not. -/
theorem moves_consume_bind {β : Type} {k : Kind} {next : Bool → Parse β} (notEnd : k ≠ .eof)
    (yes : c.kind = k → Moves (next true) 0 c.next) (no : c.kind ≠ k → Moves (next false) 1 c) :
    Moves (consume k >>= next) 1 c := by
  by_cases here : c.kind = k
  · have same : (consume k >>= next) c = (advance >>= fun _ => next true) c := by
      have taken : consume k c = .ok true c.next := by
        change (if c.kind = k then (advance >>= fun _ => pure true) else pure false) c = _
        rw [if_pos here]
        rfl
      change EStateM.bind (consume k) next c = next true c.next
      rw [EStateM.bind, taken]
    have moves : Moves (advance >>= fun _ => next true) 1 c :=
      .advance (here ▸ notEnd) fun _ _ => yes here
    intro ends
    rw [same]
    exact moves ends
  · have same : (consume k >>= next) c = next false c := by
      have left : consume k c = .ok false c := by
        change (if c.kind = k then (advance >>= fun _ => pure true) else pure false) c = _
        rw [if_neg here]
        rfl
      change EStateM.bind (consume k) next c = next false c
      rw [EStateM.bind, left]
    intro ends
    rw [same]
    exact no here ends

/-! ## Repetition -/

section Repetition

variable {holds : Cursor → Bool} {item : Parse α} {step : α → Parse α}

/-- **A repetition of what takes a token** ends before its bound is met. -/
theorem moves_repeatUpTo {n : Nat} (enough : c.left.length ≤ n)
    (each : ∀ c', c'.left.length ≤ c.left.length → holds c' = true → Moves item 1 c') :
    Moves (repeatUpTo holds item n) 0 c := by
  induction n generalizing c with
  | zero =>
    have some := c.length_left_pos
    omega
  | succ n ih =>
    refine .look (.ite (fun goesOn => ?_) fun _ => .pure [])
    refine (Moves.first (each c (Nat.le_refl _) goesOn) fun value c' fewer => ?_).weaken
    refine .skip (ih (by omega) fun c'' fewerToo => each c'' (by omega)) fun _ _ _ => .pure _

theorem moves_repeatWhile
    (each : ∀ c', c'.left.length ≤ c.left.length → holds c' = true → Moves item 1 c') :
    Moves (repeatWhile holds item) 0 c :=
  .look (moves_repeatUpTo (Nat.le_refl _) each)

theorem moves_repeatUntil {closing : Kind}
    (each : ∀ c', c'.left.length ≤ c.left.length → Moves item 1 c') :
    Moves (repeatUntil closing item) 0 c :=
  moves_repeatWhile fun c' fewer _ => each c' fewer

theorem moves_separated {closing : Kind}
    (each : ∀ c', c'.left.length ≤ c.left.length → Moves item 1 c') :
    Moves (separated closing item) 0 c :=
  moves_repeatUntil fun c' fewer =>
    .first (each c' fewer) fun _ _ _ => .skip (moves_separator closing) fun _ _ _ => .pure _

/-- **A value that grows by what takes a token** is grown before the bound is met. -/
theorem moves_growUpTo {n : Nat} (enough : c.left.length ≤ n) (value : α)
    (each : ∀ value c', c'.left.length ≤ c.left.length → holds c' = true →
      Moves (step value) 1 c') :
    Moves (growUpTo holds step n value) 0 c := by
  induction n generalizing c value with
  | zero =>
    have some := c.length_left_pos
    omega
  | succ n ih =>
    refine .look (.ite (fun goesOn => ?_) fun _ => .pure value)
    refine (Moves.first (each value c (Nat.le_refl _) goesOn) fun value c' fewer => ?_).weaken
    exact ih (by omega) value fun value c'' fewerToo => each value c'' (by omega)

theorem moves_growWhile (value : α)
    (each : ∀ value c', c'.left.length ≤ c.left.length → holds c' = true →
      Moves (step value) 1 c') :
    Moves (growWhile holds step value) 0 c :=
  .look (moves_growUpTo (Nat.le_refl _) value each)

end Repetition

/-! ## Names -/

section Names

variable {name : Parse Name} {n : Nat}

/-- A list of type arguments takes its brackets, if the names in it take tokens. -/
theorem moves_typeArguments (few : c.left.length ≤ n + 1)
    (inner : ∀ c, c.left.length ≤ n → Moves name 1 c) : Moves (typeArguments name) 1 c := by
  refine .first (moves_expect nofun) fun _ c' fewer => ?_
  refine .skip (moves_separated fun c'' fewerToo => inner c'' (by omega)) fun names c'' _ => ?_
  exact .skip (moves_further nofun) fun _ _ _ => .pure names

theorem moves_identifierOf (few : c.left.length ≤ n + 1)
    (inner : ∀ c, c.left.length ≤ n → Moves name 1 c) : Moves (identifierOf name) 1 c := by
  refine .first (moves_expect nofun) fun token c' fewer => .look (.ite (fun _ => ?_) fun _ => .pure _)
  refine .skip moves_freshId fun id c'' fewerToo => ?_
  refine .skip (moves_typeArguments (by omega) inner).weaken fun _ _ _ => ?_
  exact .skip (moves_spanFrom _) fun _ _ _ => .pure _

theorem moves_segmentOf (few : c.left.length ≤ n + 1)
    (inner : ∀ c, c.left.length ≤ n → Moves name 1 c) : Moves (segmentOf name) 1 c := by
  refine .first (moves_identifierOf few inner) fun found c' _ => ?_
  cases found with
  | plain text span => exact .skip moves_freshId fun _ _ _ => .pure _
  | applied segment => exact .pure segment

/-- **A name takes a token**, and its depth stays within the tokens that are left. -/
theorem moves_nameUpTo (n : Nat) (few : c.left.length ≤ n) : Moves (nameUpTo n) 1 c := by
  induction n generalizing c with
  | zero =>
    have some := c.length_left_pos
    omega
  | succ n ih =>
    have inner (c : Cursor) (few : c.left.length ≤ n) : Moves (nameUpTo n) 1 c := ih few
    refine .skip moves_here fun start c' fewer => ?_
    refine .first (moves_segmentOf (by omega) inner) fun _ c'' fewerToo => ?_
    refine .skip (moves_repeatWhile fun c₃ fewerStill dot => ?_) fun _ _ _ =>
      .skip (moves_spanFrom _) fun _ _ _ => .pure _
    have isDot : c₃.kind = .dot := of_decide_eq_true dot
    refine .advance (by rw [isDot]; nofun) fun fewerYet _ => ?_
    exact (moves_segmentOf (by omega) inner).weaken

end Names

theorem moves_name : Moves Parse.name 1 c :=
  .look (moves_nameUpTo _ (Nat.le_refl _))

theorem moves_identifier : Moves identifier 1 c :=
  moves_identifierOf (Nat.le_succ c.left.length) fun _ _ => moves_name

theorem moves_segment : Moves segment 1 c :=
  moves_segmentOf (Nat.le_succ c.left.length) fun _ _ => moves_name

theorem moves_typeParameter : Moves typeParameter 1 c := by
  refine .first (moves_expect nofun) fun token _ _ => .skip (moves_consume nofun) fun bounded _ _ => ?_
  refine .ite (fun _ => ?_) fun _ => ?_
  · refine .skip (moves_name.map _).weaken fun _ _ _ => ?_
    exact .skip (moves_separator _) fun _ _ _ => .pure _
  · rw [pure_bind]
    exact .skip (moves_separator _) fun _ _ _ => .pure _

theorem moves_typeParameters : Moves typeParameters 0 c :=
  .skip (moves_consume nofun) fun _ _ _ => .ite
    (fun _ => .skip (moves_repeatUntil fun _ _ => moves_typeParameter) fun _ _ _ =>
      .skip (moves_further nofun) fun _ _ _ => .pure _)
    fun _ => .pure _

theorem moves_arrayMark : Moves arrayMark 0 c :=
  .skip (moves_consume nofun) fun _ _ _ => .ite
    (fun _ => .skip (moves_further nofun) fun _ _ _ => .pure _) fun _ => .pure _

end Parse

end FrontEnd

import FrontEnd.Proofs.Grammar.Depth
import FrontEnd.Proofs.Program.PrecedenceTree
import Mathlib.Data.List.TakeWhile

/-!
# Precedence climbing builds the precedence tree

A loop at a precedence takes operators while they bind tighter, and the right operand of each is
parsed by a loop at the precedence of the operator. Both are loops over one chain of operators and
operands (`Parse.Reads`). A loop takes the first operators of the chain that are above its level,
and what it has taken is a precedence tree at every turn, for the next operator is never above one
that was taken before (`Parse.Loops`). An operand by itself is parsed as tightly as that of a sign;
parsed at a looser precedence it is the same, and the loop goes on behind it.

**The law** (`Parse.expr_precedenceTree`): an expression parsed at the loosest precedence is the
precedence tree of its operands and operators.
-/

namespace FrontEnd

/-- Where an action that moves a cursor ends well, the tokens still end, and fewer are left. -/
theorem Moves.ended {α : Type} {action : Parse α} {least : Nat} {c c' : Cursor} {value : α}
    (moves : Moves action least c) (ends : c.Ends) (run : action c = .ok value c') :
    c'.Ends ∧ c'.left.length + least ≤ c.left.length := by
  have moved := moves ends
  rw [run] at moved
  cases moved with
  | ended walks fewer => exact ⟨walks.ends ends, fewer⟩

namespace Parse

/-! ## Growing -/

section Growing

variable {α : Type} {holds : Cursor → Bool} {step : α → Parse α} {value : α} {c c' : Cursor}

/-- **A value grows** step by step while a condition on the cursor holds. -/
inductive Grows {α : Type} (holds : Cursor → Bool) (step : α → Parse α) :
    α → Cursor → α → Cursor → Prop
  | done {value : α} {c : Cursor} : holds c = false → Grows holds step value c value c
  | more {value next grown : α} {c between c' : Cursor} : holds c = true →
    step value c = .ok next between → Grows holds step next between grown c' →
    Grows holds step value c grown c'

theorem grows_of_growUpTo {n : Nat} {grown : α}
    (run : growUpTo holds step n value c = .ok grown c') : Grows holds step value c grown c' := by
  induction n generalizing value c with
  | zero =>
    rw [growUpTo, get_bind] at run
    split at run
    next => cases run
    next stops =>
      cases run
      exact .done (Bool.eq_false_iff.2 stops)
  | succ n ih =>
    rw [growUpTo, get_bind] at run
    split at run
    next goesOn =>
      obtain ⟨next, between, first, later⟩ := bind_eq_ok.1 run
      exact .more goesOn first (ih later)
    next stops =>
      cases run
      exact .done (Bool.eq_false_iff.2 stops)

/-- A value that has grown up stands where the condition fails. -/
theorem Grows.stops {grown : α} (grows : Grows holds step value c grown c') : holds c' = false := by
  induction grows with
  | done stops => exact stops
  | more _ _ _ ih => exact ih

/-- A repetition gives what a value grows to, unless its bound is met. -/
theorem Grows.growUpTo {grown : α} (grows : Grows holds step value c grown c') (n : Nat) :
    growUpTo holds step n value c = .ok grown c' ∨
      ∃ stuck, growUpTo holds step n value c = .error .exhausted stuck := by
  induction grows generalizing n with
  | done stops =>
    left
    cases n <;> rw [Parse.growUpTo, get_bind, if_neg (by rw [stops]; nofun)] <;> rfl
  | @more value next grown c between c' goesOn first _ ih =>
    cases n with
    | zero =>
      right
      rw [Parse.growUpTo, get_bind, if_pos goesOn]
      exact ⟨c, rfl⟩
    | succ n =>
      rw [Parse.growUpTo, get_bind, if_pos goesOn]
      rcases ih n with ended | ⟨stuck, met⟩
      · exact .inl (bind_eq_ok.2 ⟨next, between, first, ended⟩)
      · exact .inr ⟨stuck, bind_eq_error.2 (.inr ⟨next, between, first, met⟩)⟩

/-- **A repetition of what takes a token** gives what a value grows to. -/
theorem Grows.growWhile {grown : α} (grows : Grows holds step value c grown c') (ends : c.Ends)
    (each : ∀ value c', c'.left.length ≤ c.left.length → holds c' = true →
      Moves (step value) 1 c') : growWhile holds step value c = .ok grown c' := by
  rcases grows.growUpTo c.left.length with ended | ⟨stuck, met⟩
  · exact ended
  · exact absurd met ((moves_growWhile value each).not_exhausted ends)

/-- What grows under a condition grows on under a weaker one. -/
theorem Grows.append {weaker : Cursor → Bool} {grown final : α} {last : Cursor}
    (implies : ∀ c, holds c = true → weaker c = true)
    (grows : Grows holds step value c grown c') (later : Grows weaker step grown c' final last) :
    Grows weaker step value c final last := by
  induction grows with
  | done => exact later
  | more goesOn first _ ih => exact .more (implies _ goesOn) first (ih later)

end Growing

/-! ## Operators as tokens -/

theorem follow_of_ofKind? {kind : Token.Kind} {operator : Operator}
    (writes : Operator.ofKind? kind = some operator) :
    Grammar.standard.follow kind = some .binary ∧
      (Grammar.standard.binding kind).rank = operator.level ∧ kind ≠ .openBracket := by
  cases kind <;> simp [Operator.ofKind?] at writes <;> subst writes <;> decide

variable {c q last : Cursor} {operator : Operator} {p : Precedence} {n : Nat}

theorem continues_operator (writes : Operator.ofKind? q.kind = some operator) :
    continues .standard p q = decide (p.rank < operator.level) := by
  obtain ⟨follows, level, notBracket⟩ := follow_of_ofKind? writes
  simp [continues, follows, level, notBracket]

theorem run_extend {left right : Expr} (writes : Operator.ofKind? q.kind = some operator)
    (expr : Precedence → Parse Expr)
    (operand : expr (Grammar.standard.binding q.kind) q.next = .ok right last) :
    extend .standard expr left q = .ok (.operation operator left right) last := by
  obtain ⟨follows, -⟩ := follow_of_ofKind? writes
  refine bind_eq_ok.2 ⟨q.kind, q, rfl, ?_⟩
  rw [follows]
  refine bind_eq_ok.2 ⟨q.current, q.next, rfl, ?_⟩
  have writes' : Operator.ofKind? q.current.kind = some operator := writes
  rw [writes']
  exact bind_eq_ok.2 ⟨right, last, operand, rfl⟩

/-! ## Loops over a chain -/

/-- **A chain stands between two cursors**: an operator, behind it an expression that binds like a
sign, and so on. -/
inductive Reads : Cursor → Chain → Cursor → Prop
  | done {q : Cursor} : Reads q [] q
  | more {q between last : Cursor} {operator : Operator} {operand : Expr} {rest : Chain} :
    Operator.ofKind? q.kind = some operator → expr .standard .unary q.next = .ok operand between →
    Reads between rest last → Reads q ((operator, operand) :: rest) last

/-- **Nothing continues an expression** at a token that does not bind, or at the mark of an array
type. -/
def ChainEnds (c : Cursor) : Prop :=
  Grammar.standard.precedence c.kind = none ∨ c.kind = .openBracket ∧ c.peek 1 = .closeBracket

theorem ChainEnds.continues (atEnd : ChainEnds c) (p : Precedence) :
    continues .standard p c = false := by
  rcases atEnd with free | ⟨bracket, mark⟩
  · simp [Parse.continues, Grammar.binding, free, Precedence.rank]
  · simp [Parse.continues, bracket, mark]

theorem moves_extend_exprUpTo {left : Expr} (few : c.left.length ≤ n + 1)
    (goesOn : continues .standard p c = true) :
    Moves (extend .standard (exprUpTo .standard n) left) 1 c := by
  refine moves_extend (fun c p few => moves_exprUpTo Grammar.leavesEnd_standard n p few)
    Grammar.leavesEnd_standard few left ?_
  rw [continues, Bool.and_eq_true] at goesOn
  exact goesOn.2

/-- Whether an operator of a chain is above a level. -/
def isAbove (level : Nat) (entry : Operator × Expr) : Bool :=
  level < entry.1.level

/-- **A loop over a chain** takes the operators that bind tighter than its precedence into the
tree. -/
def Loops (chain : Chain) : Prop :=
  ∀ ⦃n : Nat⦄ ⦃p : Precedence⦄ ⦃first : Expr⦄ ⦃taken : Chain⦄ ⦃q last : Cursor⦄,
    q.Ends → q.left.length ≤ n + 1 → Reads q chain last → ChainEnds last →
    (∀ entry ∈ chain.head?, ∀ before ∈ taken, entry.1.level ≤ before.1.level) →
    ∃ q', Grows (continues .standard p) (extend .standard (exprUpTo .standard n))
        (precedenceTree first taken) q
        (precedenceTree first (taken ++ chain.takeWhile (isAbove p.rank))) q' ∧
      Reads q' (chain.dropWhile (isAbove p.rank)) last ∧ q'.Ends ∧ q'.left.length ≤ q.left.length

/-- **An operand at a looser precedence** is the tree of the operators that bind tighter. -/
theorem Loops.operand {chain : Chain} (loops : Loops chain) {operand : Expr} (ends : c.Ends)
    (few : c.left.length ≤ n) (tight : p.rank ≤ Precedence.unary.rank)
    (run : expr .standard .unary c = .ok operand q) (reads : Reads q chain last)
    (atEnd : ChainEnds last) :
    ∃ q', exprUpTo .standard n p c =
        .ok (precedenceTree operand (chain.takeWhile (isAbove p.rank))) q' ∧
      Reads q' (chain.dropWhile (isAbove p.rank)) last ∧ q'.Ends ∧
      q'.left.length < c.left.length := by
  have positive := c.length_left_pos
  obtain ⟨n, rfl⟩ := Nat.exists_eq_add_of_le' (Nat.le_trans positive few)
  have runToo := within_exprUpTo .standard few .unary run
  obtain ⟨first, between, opened, grown⟩ := bind_eq_ok.1 runToo
  have inner (c : Cursor) (p : Precedence) (few : c.left.length ≤ n) :=
    moves_exprUpTo (c := c) Grammar.leavesEnd_standard n p few
  obtain ⟨endsToo, fewer⟩ := (moves_opening inner Grammar.leavesEnd_standard few).ended ends opened
  have grows := grows_of_growUpTo grown
  have moved : Moves (growWhile (continues .standard .unary)
      (extend .standard (exprUpTo .standard n)) first) 0 between :=
    moves_growWhile first fun left c' fewerToo goesOn => moves_extend_exprUpTo (by omega) goesOn
  obtain ⟨endsAt, fewerAt⟩ := moved.ended endsToo grown
  obtain ⟨q', growsOn, readsOn, endsOn, fewerOn⟩ :=
    @loops n p operand [] q last endsAt (by omega) reads atEnd nofun
  refine ⟨q', ?_, readsOn, endsOn, by omega⟩
  have implies : ∀ c, continues .standard .unary c = true → continues .standard p c = true := by
    intro c goesOn
    simp only [continues, Bool.and_eq_true, decide_eq_true_eq] at goesOn ⊢
    exact ⟨⟨goesOn.1.1, Nat.lt_of_le_of_lt tight goesOn.1.2⟩, goesOn.2⟩
  rw [precedenceTree_nil, List.nil_append] at growsOn
  have whole := grows.append implies growsOn
  refine bind_eq_ok.2 ⟨first, between, opened, whole.growWhile endsToo ?_⟩
  exact fun left c' fewerToo goesOn => moves_extend_exprUpTo (by omega) goesOn

/-- What a weaker condition takes is what the stronger one takes and what it takes behind that. -/
theorem takeWhile_of_implies {α : Type} {strong weak : α → Bool}
    (implies : ∀ a, strong a = true → weak a = true) (l : List α) :
    l.takeWhile weak = l.takeWhile strong ++ (l.dropWhile strong).takeWhile weak ∧
      l.dropWhile weak = (l.dropWhile strong).dropWhile weak := by
  have all : ∀ a ∈ l.takeWhile strong, weak a = true := fun a mem =>
    implies a (List.all_eq_true.1 List.all_takeWhile a mem)
  have whole : l.takeWhile strong ++ l.dropWhile strong = l := List.takeWhile_append_dropWhile
  constructor
  · rw [← List.takeWhile_append_of_pos all, whole]
  · have dropped := @List.dropWhile_append_of_pos _ _ _ (l.dropWhile strong) all
    rwa [whole] at dropped

theorem level_of_mem_takeWhile {level : Nat} {chain : Chain} :
    ∀ entry ∈ chain.takeWhile (isAbove level), level < entry.1.level :=
  fun entry mem => of_decide_eq_true (List.all_eq_true.1 List.all_takeWhile entry mem)

theorem level_of_head?_dropWhile {level : Nat} {chain : Chain} :
    ∀ entry ∈ (chain.dropWhile (isAbove level)).head?, entry.1.level ≤ level := by
  intro entry first
  have stopped := List.head?_dropWhile_not (isAbove level) chain
  rw [Option.mem_def.1 first] at stopped
  exact Nat.le_of_not_lt (of_decide_eq_false stopped)

/-- **A turn of a loop** takes an operator and its right operand, which takes the operators of the
chain that are above its level. -/
theorem Loops.turn {rest taken : Chain} {operand : Expr} {between : Cursor} (ofRest : Loops rest)
    (first : Expr) (ends : q.Ends) (few : q.left.length ≤ n + 1)
    (writes : Operator.ofKind? q.kind = some operator)
    (run : expr .standard .unary q.next = .ok operand between) (reads : Reads between rest last)
    (atEnd : ChainEnds last) (noLooser : ∀ before ∈ taken, operator.level ≤ before.1.level) :
    ∃ q', extend .standard (exprUpTo .standard n) (precedenceTree first taken) q =
        .ok (precedenceTree first
          (taken ++ (operator, operand) :: rest.takeWhile (isAbove operator.level))) q' ∧
      Reads q' (rest.dropWhile (isAbove operator.level)) last ∧ q'.Ends ∧
      q'.left.length ≤ q.left.length := by
  have notEnd : q.kind ≠ .eof := by
    intro isEnd
    rw [isEnd] at writes
    cases writes
  have shorter := Cursor.length_left_next (ends.ahead_ne_nil notEnd)
  have endsNext := ends.next
  obtain ⟨-, level, -⟩ := follow_of_ofKind? writes
  have within : (Grammar.standard.binding q.kind).rank ≤ Precedence.unary.rank := by
    rw [level]
    exact operator.level_le
  have fewNext : q.next.left.length ≤ n := by omega
  obtain ⟨q', operandRun, readsOn, endsOn, fewer⟩ :=
    ofRest.operand endsNext fewNext within run reads atEnd
  rw [level] at operandRun readsOn
  refine ⟨q', ?_, readsOn, endsOn, by omega⟩
  rw [precedenceTree_append noLooser level_of_mem_takeWhile]
  exact run_extend writes (exprUpTo .standard n) operandRun

/-- **Every loop over a chain takes what binds tighter than its precedence**, by induction on the
length of the chain: the right operand and what the loop goes on with are over shorter chains. -/
theorem loops (chain : Chain) : Loops chain := by
  generalize length : chain.length = size
  induction size using Nat.strongRecOn generalizing chain with
  | ind size ih =>
  intro n p first taken q last ends few reads atEnd noTighter
  cases reads with
  | done =>
    rw [List.takeWhile_nil, List.append_nil]
    exact ⟨q, .done (atEnd.continues p), .done, ends, Nat.le_refl _⟩
  | @more _ between _ operator operand rest writes run reads =>
    rw [List.length_cons] at length
    have goesOn := continues_operator (p := p) writes
    by_cases tight : p.rank < operator.level
    · have noLooser : ∀ before ∈ taken, operator.level ≤ before.1.level := noTighter _ rfl
      obtain ⟨q₁, turn, readsOn, endsOn, fewer⟩ := (ih rest.length (by omega) rest rfl).turn
        first ends few writes run reads atEnd noLooser
      -- What the loop goes on with begins with an operator that is not above this one.
      have fewerLeft := (List.dropWhile_sublist (isAbove operator.level) (l := rest)).length_le
      have noTighterLeft : ∀ entry ∈ (rest.dropWhile (isAbove operator.level)).head?,
          ∀ before ∈ taken ++ (operator, operand) :: rest.takeWhile (isAbove operator.level),
            entry.1.level ≤ before.1.level := by
        intro entry isFirst before mem
        have low := level_of_head?_dropWhile entry isFirst
        rw [List.mem_append, List.mem_cons] at mem
        rcases mem with mem | rfl | mem
        · exact Nat.le_trans low (noLooser before mem)
        · exact low
        · exact Nat.le_trans low (Nat.le_of_lt (level_of_mem_takeWhile before mem))
      obtain ⟨q', growsOn, readsAt, endsAt, fewerAt⟩ := ih _ (by omega) _ rfl endsOn
        (Nat.le_trans fewer few) readsOn atEnd noTighterLeft
      have implies : ∀ entry, isAbove operator.level entry = true →
          isAbove p.rank entry = true := fun entry above =>
        decide_eq_true (Nat.lt_trans tight (of_decide_eq_true above))
      obtain ⟨takes, leaves⟩ := takeWhile_of_implies implies rest
      have here : isAbove p.rank (operator, operand) = true := decide_eq_true tight
      rw [List.takeWhile_cons_of_pos here, List.dropWhile_cons_of_pos here, takes, leaves]
      rw [List.append_assoc, List.cons_append] at growsOn
      refine ⟨q', .more (goesOn.trans here) turn growsOn, readsAt, endsAt, ?_⟩
      exact Nat.le_trans fewerAt fewer
    · have here : ¬ isAbove p.rank (operator, operand) = true := fun above =>
        tight (of_decide_eq_true above)
      rw [List.takeWhile_cons_of_neg here, List.dropWhile_cons_of_neg here, List.append_nil]
      refine ⟨q, .done ?_, .more writes run reads, ends, Nat.le_refl _⟩
      exact goesOn.trans (decide_eq_false tight)

/-- **An expression is the precedence tree of its chain.** -/
theorem expr_precedenceTree {first : Expr} {chain : Chain} (ends : c.Ends)
    (operand : expr .standard .unary c = .ok first q) (reads : Reads q chain last)
    (atEnd : ChainEnds last) :
    expr .standard .loosest c = .ok (precedenceTree first chain) last ∧
      Spells (precedenceTree first chain) first chain := by
  refine ⟨?_, spells_precedenceTree first chain⟩
  have loose : Precedence.loosest.rank ≤ Precedence.unary.rank := by decide
  obtain ⟨q', run, readsOn, -⟩ :=
    (loops chain).operand ends (Nat.le_refl _) loose operand reads atEnd
  have all : ∀ entry ∈ chain, isAbove Precedence.loosest.rank entry = true :=
    fun entry _ => decide_eq_true entry.1.level_pos
  rw [List.takeWhile_eq_self_iff.2 all] at run
  rw [List.dropWhile_eq_nil_iff.2 all] at readsOn
  cases readsOn
  exact run

/-- A cursor on a mix of operators, with a token of the end behind them. -/
def onMix : Cursor :=
  .ofTokens ([.trueWord, .or, .trueWord, .equals, .falseWord, .equals, .trueWord, .and,
    .falseWord].map fun kind => ⟨kind, kind.name, default⟩) 0

/-- The equations associate to the left below the conjunction, and that stands below the
disjunction. -/
theorem expr_onMix : ∃ last : Cursor,
    expr .standard .loosest onMix = .ok (.operation .or (.bool true default)
      (.operation .and (.operation .equal (.operation .equal (.bool true default)
        (.bool false default)) (.bool true default)) (.bool false default))) last ∧
    last.kind = .eof := by
  have ends : onMix.Ends := rfl
  have operand : expr .standard .unary onMix = .ok (.bool true default) onMix.next := rfl
  have reads : Reads onMix.next [(.or, .bool true default), (.equal, .bool false default),
      (.equal, .bool true default), (.and, .bool false default)] _ :=
    .more rfl rfl (.more rfl rfl (.more rfl rfl (.more rfl rfl .done)))
  have tree : precedenceTree (.bool true default) [(.or, .bool true default),
        (.equal, .bool false default), (.equal, .bool true default), (.and, .bool false default)] =
      .operation .or (.bool true default) (.operation .and (.operation .equal
        (.operation .equal (.bool true default) (.bool false default)) (.bool true default))
        (.bool false default)) := by
    simp [precedenceTree, Chain.split?, Operator.level]
  obtain ⟨run, -⟩ := expr_precedenceTree ends operand reads (.inl rfl)
  rw [tree] at run
  exact ⟨_, run, rfl⟩

end Parse

end FrontEnd

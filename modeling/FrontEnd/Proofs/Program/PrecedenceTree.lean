import FrontEnd.Grammar.Table
import FrontEnd.Program.Expr

/-!
# Precedence trees

Operators have levels, from that of `||` to that of `*`. An operand and a chain of operators with
operands behind it make one tree: it is split at the last of the loosest operators, and the parts
before and behind are trees again (`precedenceTree`). So operators of one level associate to the
left, and a tighter operator stands further down.

**The laws** (`Chain.split?_eq_some_iff`, `spells_precedenceTree`): a chain is split where none
before is looser and all behind are tighter; and a tree spells its chain, each operand and each
operator once and in their order.
-/

namespace FrontEnd

/-- The level of an operator, from the loosest on. -/
def Operator.level : Operator → Nat
  | .or => 1
  | .and => 2
  | .equal | .notEqual => 3
  | .smaller | .smallerOrEqual | .greater | .greaterOrEqual => 4
  | .add | .subtract => 5
  | .multiply | .divide => 6

theorem Operator.level_le (operator : Operator) : operator.level ≤ Precedence.unary.rank := by
  cases operator <;> decide

theorem Operator.level_pos (operator : Operator) : 0 < operator.level := by
  cases operator <;> decide

/-- A chain behind an operand: operators, each with the operand behind it. -/
abbrev Chain :=
  List (Operator × Expr)

/-- **The last of the loosest operators** of a chain, with its operand and what stands before and
behind them. -/
def Chain.split? : Chain → Option (Chain × (Operator × Expr) × Chain)
  | [] => none
  | first :: rest =>
    match Chain.split? rest with
    | some (before, loosest, behind) =>
      if loosest.1.level ≤ first.1.level then some (first :: before, loosest, behind)
      else some ([], first, rest)
    | none => some ([], first, rest)

variable {chain before behind : Chain} {first operand : Expr} {operator : Operator}

theorem Chain.split?_eq_none_iff : chain.split? = none ↔ chain = [] := by
  cases chain with
  | nil => simp [Chain.split?]
  | cons first rest =>
    rw [Chain.split?]
    split
    · split <;> simp
    · simp

/-- **A chain is split at its last operator of the lowest level**: none before it is looser, and
every one behind it is tighter. -/
theorem Chain.split?_eq_some_iff {loosest : Operator × Expr} :
    chain.split? = some (before, loosest, behind) ↔ chain = before ++ loosest :: behind ∧
      (∀ entry ∈ before, loosest.1.level ≤ entry.1.level) ∧
      ∀ entry ∈ behind, loosest.1.level < entry.1.level := by
  induction chain generalizing before loosest behind with
  | nil => simp [Chain.split?]
  | cons first rest ih =>
    rw [Chain.split?]
    cases found : Chain.split? rest with
    | none =>
      obtain rfl := Chain.split?_eq_none_iff.1 found
      dsimp only
      constructor
      · intro same
        cases same
        exact ⟨rfl, nofun, nofun⟩
      · rintro ⟨same, -⟩
        cases before with
        | nil =>
          cases same
          rfl
        | cons => simp at same
    | some parts =>
      obtain ⟨front, last, back⟩ := parts
      have ⟨whole, noLooser, tighter⟩ := ih.1 found
      dsimp only
      constructor
      · intro same
        split at same
        next looser =>
          cases same
          exact ⟨congrArg (first :: ·) whole, List.forall_mem_cons.2 ⟨looser, noLooser⟩, tighter⟩
        next isLooser =>
          cases same
          have isLooser := Nat.lt_of_not_le isLooser
          refine ⟨rfl, nofun, fun entry mem => ?_⟩
          rw [whole, List.mem_append, List.mem_cons] at mem
          rcases mem with mem | rfl | mem
          · exact Nat.lt_of_lt_of_le isLooser (noLooser entry mem)
          · exact isLooser
          · exact Nat.lt_trans isLooser (tighter entry mem)
      · rintro ⟨same, noLooserToo, tighterToo⟩
        cases before with
        | nil =>
          cases same
          have mem : last ∈ rest := by simp [whole]
          rw [if_neg (Nat.not_le_of_lt (tighterToo last mem))]
        | cons head before =>
          obtain ⟨rfl, sameRest⟩ := List.cons.inj same
          obtain ⟨looser, noLooserToo⟩ := List.forall_mem_cons.1 noLooserToo
          cases found.symm.trans (ih.2 ⟨sameRest, noLooserToo, tighterToo⟩)
          rw [if_pos looser]

/-- **The precedence tree** of an operand and a chain behind it: the operation of the last of the
loosest operators on the trees of what stands before and behind it. -/
def precedenceTree (first : Expr) (chain : Chain) : Expr :=
  match _split : chain.split? with
  | none => first
  | some (before, (operator, operand), behind) =>
    .operation operator (precedenceTree first before) (precedenceTree operand behind)
termination_by chain.length
decreasing_by
  all_goals
    rw [(Chain.split?_eq_some_iff.1 _split).1, List.length_append, List.length_cons]
    omega

theorem precedenceTree_nil (first : Expr) : precedenceTree first [] = first := by
  rw [precedenceTree]
  rfl

/-- A tree is that of the parts of a chain that no looser operator and no later one of its level
splits. -/
theorem precedenceTree_append (noLooser : ∀ entry ∈ before, operator.level ≤ entry.1.level)
    (tighter : ∀ entry ∈ behind, operator.level < entry.1.level) :
    precedenceTree first (before ++ (operator, operand) :: behind) =
      .operation operator (precedenceTree first before) (precedenceTree operand behind) := by
  have found : Chain.split? (before ++ (operator, operand) :: behind) =
      some (before, (operator, operand), behind) :=
    Chain.split?_eq_some_iff.2 ⟨rfl, noLooser, tighter⟩
  rw [precedenceTree]
  split
  next none =>
    rw [found] at none
    cases none
  next same =>
    rw [found] at same
    cases same
    rfl

/-- **A tree spells an operand and a chain** when they are read off it from left to right. -/
inductive Spells : Expr → Expr → Chain → Prop
  | operand {operand : Expr} : Spells operand operand []
  | operation {left right first operand : Expr} {operator : Operator} {before behind : Chain} :
    Spells left first before → Spells right operand behind →
    Spells (.operation operator left right) first (before ++ (operator, operand) :: behind)

/-- **A precedence tree spells its chain**: nothing is left out, and nothing changes places. -/
theorem spells_precedenceTree (first : Expr) (chain : Chain) :
    Spells (precedenceTree first chain) first chain := by
  fun_induction precedenceTree first chain with
  | case1 first chain none =>
    obtain rfl := Chain.split?_eq_none_iff.1 none
    exact .operand
  | case2 first chain before operator operand behind split ihBefore ihBehind =>
    rw [(Chain.split?_eq_some_iff.1 split).1]
    exact .operation ihBefore ihBehind

end FrontEnd

import FrontEnd.Proofs.Grammar.Climbing
import FrontEnd.Proofs.Grammar.Giving
import FrontEnd.Proofs.ListElements

/-!
# Compound assignments and their expansions

A compound assignment `t += e;` assigns the operation on its target and its right side. In the
expansion `t = t + (e);` the same operation is read from tokens, and the tokens of the target are read
twice more, in front of other tokens than before: in front of the equals sign, and as an operand in
front of the operator. The lookahead of a name goes past none of the tokens in question, so the target
is the same in front of the equals sign (`Parse.expr_again`).

An operand in front of an operator is parsed more tightly than the whole of an expression. What can be
assigned to is not an operation, so no operator took part in it, and it is what it is as an operand
(`Parse.expr_unary_of_assignable`). The parentheses make one operand of the right side, however loosely
its own operators bind (`Parse.expr_unary_group`).

**The law** (`Marks.expanded_of_reads`): where a compound assignment is read, its expansion is read to
its end, and gives the same assignment but for numbers and positions.
-/

namespace FrontEnd

open Token Lookahead

/-- **The operators that assign**: the kind of the token of each, with the kind of the token that
assigns with it. -/
def assigning : List (Kind × Kind) :=
  [(.plus, .plusEquals), (.dash, .minusEquals), (.star, .starEquals), (.slash, .slashEquals)]

/-- **What the tables say of an operator that assigns** and of its two tokens. -/
structure Operator.Assigns (operator : Operator) (plain compound : Kind) : Prop where
  writes : Operator.ofKind? plain = some operator
  assigned : Parse.assignedValue? compound = some (.operation operator)
  loose : (Grammar.standard.binding plain).rank ≤ Precedence.unary.rank
  ends : Grammar.standard.follow compound = none
  apart : inList plain = false ∧ inList compound = false
  seen : plain ≠ .comment ∧ compound ≠ .comment

theorem exists_assigns_of_mem {plain compound : Kind} (mem : (plain, compound) ∈ assigning) :
    ∃ operator : Operator, operator.Assigns plain compound := by
  simp only [assigning, List.mem_cons, Prod.mk.injEq, List.not_mem_nil, or_false] at mem
  rcases mem with ⟨rfl, rfl⟩ | ⟨rfl, rfl⟩ | ⟨rfl, rfl⟩ | ⟨rfl, rfl⟩ <;>
    exact ⟨_, rfl, rfl, by decide, rfl, by decide, by decide⟩

namespace Parse

variable {c c' : Cursor} {target value : Expr}

/-! ## Statements that assign -/

/-- A declaration declares what it says. -/
theorem gives_declare {g : Grammar} (isMutable : Bool) (type : Name) (start : Position) :
    Gives (declaration g isMutable type start) fun stmt => ∃ isArray text initial span,
      stmt = .declare isMutable type isArray text initial span :=
  .skip fun isArray => .skip fun token => .skip fun _ => .skip fun initial => .skip fun _ =>
    .skip fun span => .pure ⟨isArray, token.text, initial, span, rfl⟩

/-- **An assignment is read** from a cursor: the target up to a token that assigns, and behind that
the right side up to the semicolon. -/
structure Assigns (c : Cursor) (target : Expr) (atMark : Cursor) (assigned : Expr → Expr → Expr)
    (right : Expr) (atEnd : Cursor) : Prop where
  plain : Grammar.standard.stmt c.kind = none
  leftRun : expr .standard .loosest c = .ok target atMark
  mark : assignedValue? atMark.kind = some assigned
  assignable : target.isAssignable = true
  rightRun : expr .standard .loosest atMark.next = .ok right atEnd
  ends : atEnd.kind = .semicolon

/-- A token that assigns is not what shows a declaration. -/
theorem declares_of_assignedValue? {assigned : Expr → Expr → Expr}
    (mark : assignedValue? c.kind = some assigned) : declares c = false := by
  generalize kind : c.kind = k at mark
  cases k <;> simp [assignedValue?] at mark <;> simp [declares, kind]

theorem assigns_of_assignment {start : Position} {left : Expr} {atMark : Cursor} {span : Span}
    (run : assignment .standard left start atMark = .ok (.assign target value span) c') :
    left = target ∧ target.isAssignable = true ∧ ∃ assigned right atEnd,
      assignedValue? atMark.kind = some assigned ∧
      expr .standard .loosest atMark.next = .ok right atEnd ∧ atEnd.kind = .semicolon ∧
      value = assigned target right ∧ c' = atEnd.next := by
  obtain ⟨k, here, looked, run⟩ := bind_eq_ok.1 run
  cases looked
  cases mark : assignedValue? atMark.kind with
  | none =>
    rw [mark] at run
    obtain ⟨_, _, -, run⟩ := bind_eq_ok.1 run
    obtain ⟨_, _, -, run⟩ := bind_eq_ok.1 run
    cases (pure_eq_ok.1 run).1
  | some assigned =>
    rw [mark] at run
    dsimp only at run
    split at run
    next assignable =>
      obtain ⟨token, behind, advanced, run⟩ := bind_eq_ok.1 run
      cases advanced
      obtain ⟨right, atEnd, rightRun, run⟩ := bind_eq_ok.1 run
      obtain ⟨_, last, ended, run⟩ := bind_eq_ok.1 run
      have ends := kind_of_run_expect ended
      rw [run_expect ends] at ended
      cases ended
      obtain ⟨_, _, spanned, run⟩ := bind_eq_ok.1 run
      cases spanned
      cases run
      exact ⟨rfl, assignable, assigned, right, atEnd, rfl, rightRun, ends, rfl, rfl⟩
    next => exact absurd run throw_ne_ok

/-- A statement is told by its first token. -/
theorem exists_stmt_eq (c : Cursor) : ∃ n, stmt .standard c =
    (match Grammar.standard.stmt c.kind with
      | some form => formStmt .standard (blockOf (stmtUpTo .standard n)) form
      | none => simple .standard) c := by
  obtain ⟨n, length⟩ := Nat.exists_eq_add_of_le' c.length_left_pos
  refine ⟨n, ?_⟩
  unfold stmt
  rw [get_bind, length]
  rfl

theorem stmt_eq_simple (plain : Grammar.standard.stmt c.kind = none) :
    stmt .standard c = simple .standard c := by
  obtain ⟨n, same⟩ := exists_stmt_eq c
  rwa [plain] at same

/-- **What a statement that assigns is read from.** -/
theorem exists_assigns {span : Span}
    (run : stmt .standard c = .ok (.assign target value span) c') :
    ∃ atMark assigned right atEnd, Assigns c target atMark assigned right atEnd ∧
      value = assigned target right ∧ c' = atEnd.next := by
  cases plain : Grammar.standard.stmt c.kind with
  | some form =>
    obtain ⟨n, same⟩ := exists_stmt_eq c
    rw [plain] at same
    cases (gives_formStmt_form form).of_eq_ok (same.symm.trans run)
  | none =>
    rw [stmt_eq_simple plain] at run
    obtain ⟨start, _, looked, run⟩ := bind_eq_ok.1 run
    cases looked
    obtain ⟨first, atMark, firstRun, run⟩ := bind_eq_ok.1 run
    rw [get_bind] at run
    have assigns : assignment .standard first c.here atMark =
        .ok (.assign target value span) c' := by
      split at run
      · split at run
        next =>
          obtain ⟨id, _, -, run⟩ := bind_eq_ok.1 run
          obtain ⟨_, _, _, _, same⟩ := (gives_declare _ _ _).of_eq_ok run
          cases same
        next =>
          obtain ⟨_, _, _, _, same⟩ := (gives_declare _ _ _).of_eq_ok run
          cases same
        next => exact run
      · exact run
    obtain ⟨rfl, assignable, assigned, right, atEnd, mark, rightRun, ends, same, last⟩ :=
      assigns_of_assignment assigns
    exact ⟨atMark, assigned, right, atEnd,
      ⟨plain, firstRun, mark, assignable, rightRun, ends⟩, same, last⟩

/-- **An assignment is read** where its parts are. -/
theorem Assigns.run {atMark atEnd : Cursor} {assigned : Expr → Expr → Expr} {right : Expr}
    (h : Assigns c target atMark assigned right atEnd) :
    stmt .standard c =
      .ok (.assign target (assigned target right) ⟨c.here, atEnd.next.reached⟩) atEnd.next := by
  rw [stmt_eq_simple h.plain]
  refine bind_eq_ok.2 ⟨c.here, c, rfl, bind_eq_ok.2 ⟨target, atMark, h.leftRun, ?_⟩⟩
  rw [get_bind, declares_of_assignedValue? h.mark, if_neg Bool.false_ne_true]
  refine bind_eq_ok.2 ⟨atMark.kind, atMark, rfl, ?_⟩
  rw [h.mark]
  dsimp only
  rw [if_pos h.assignable]
  refine bind_eq_ok.2 ⟨atMark.current, atMark.next, rfl, ?_⟩
  refine bind_eq_ok.2 ⟨right, atEnd, h.rightRun, ?_⟩
  exact bind_eq_ok.2 ⟨_, _, run_expect h.ends, rfl⟩

/-! ## What can be assigned to ends before an operator -/

section Tight

variable {n : Nat} {grown : Expr}

/-- What continues an expression, but none that binds like a sign, is an operator. -/
theorem follow_of_loose (goesOn : continues .standard .loosest c = true)
    (loose : continues .standard .unary c = false) :
    Grammar.standard.follow c.kind = some .binary ∧
      (Grammar.standard.binding c.kind).rank ≤ Precedence.unary.rank := by
  simp only [continues, Bool.and_eq_true, decide_eq_true_eq] at goesOn
  obtain ⟨⟨notMark, -⟩, follows⟩ := goesOn
  simp only [continues, notMark, follows, Bool.true_and, Bool.and_true, decide_eq_false_iff_not,
    Nat.not_lt] at loose
  refine ⟨?_, loose⟩
  generalize c.kind = k at follows loose
  revert follows loose
  cases k <;> decide

/-- A tighter precedence takes no more. -/
theorem continues_of_le {p q : Precedence} (le : p.rank ≤ q.rank)
    (goesOn : continues .standard q c = true) : continues .standard p c = true := by
  simp only [continues, Bool.and_eq_true, decide_eq_true_eq] at goesOn ⊢
  exact ⟨⟨goesOn.1.1, Nat.lt_of_le_of_lt le goesOn.1.2⟩, goesOn.2⟩

theorem stops_of_exprUpTo {p : Precedence} (run : exprUpTo .standard n p c = .ok value c') :
    continues .standard p c' = false := by
  cases n with
  | zero => exact absurd run throw_ne_ok
  | succ n =>
    obtain ⟨first, between, -, grown⟩ := bind_eq_ok.1 run
    exact (grows_of_growUpTo grown).stops

/-- **An operator makes what nothing can be assigned to**, and nothing that binds like a sign follows
its right operand. -/
theorem operation_of_loose {next : Expr} (goesOn : continues .standard .loosest c = true)
    (loose : continues .standard .unary c = false)
    (run : extend .standard (exprUpTo .standard n) value c = .ok next c') :
    next.isAssignable = false ∧ continues .standard .unary c' = false := by
  obtain ⟨follows, low⟩ := follow_of_loose goesOn loose
  obtain ⟨k, _, looked, run⟩ := bind_eq_ok.1 run
  cases looked
  rw [follows] at run
  obtain ⟨token, _, advanced, run⟩ := bind_eq_ok.1 run
  cases advanced
  cases operates : Operator.ofKind? c.current.kind with
  | none =>
    rw [operates] at run
    exact absurd run throw_ne_ok
  | some operator =>
    rw [operates] at run
    obtain ⟨right, _, rightRun, run⟩ := bind_eq_ok.1 run
    cases run
    have stops := stops_of_exprUpTo rightRun
    refine ⟨rfl, Bool.eq_false_iff.2 fun tight => ?_⟩
    rw [continues_of_le low tight] at stops
    cases stops

/-- Behind an operator an expression grows by operators only. -/
theorem Grows.operation (grows : Grows (continues .standard .loosest)
      (extend .standard (exprUpTo .standard n)) value c grown c')
    (loose : continues .standard .unary c = false) (isOperation : value.isAssignable = false) :
    grown.isAssignable = false := by
  induction grows with
  | done => exact isOperation
  | more goesOn first _ ih =>
    obtain ⟨isOperation, loose⟩ := operation_of_loose goesOn loose first
    exact ih loose isOperation

/-- **What can be assigned to grows by what binds tighter than a sign.** -/
theorem Grows.tight (grows : Grows (continues .standard .loosest)
      (extend .standard (exprUpTo .standard n)) value c grown c')
    (assignable : grown.isAssignable = true) :
    Grows (continues .standard .unary) (extend .standard (exprUpTo .standard n)) value c grown
      c' := by
  induction grows with
  | done stops =>
    refine .done (Bool.eq_false_iff.2 fun tight => ?_)
    rw [continues_of_le (by decide) tight] at stops
    cases stops
  | @more value next grown c between c' goesOn first later ih =>
    cases tight : continues .standard .unary c with
    | true => exact .more tight first (ih assignable)
    | false =>
      obtain ⟨isOperation, loose⟩ := operation_of_loose goesOn tight first
      rw [later.operation loose isOperation] at assignable
      cases assignable

/-- **What can be assigned to is parsed as tightly as the operand of a sign.** -/
theorem expr_unary_of_assignable (ends : c.Ends)
    (run : expr .standard .loosest c = .ok target c') (assignable : target.isAssignable = true) :
    expr .standard .unary c = .ok target c' := by
  obtain ⟨n, length⟩ := Nat.exists_eq_add_of_le' c.length_left_pos
  have few : c.left.length ≤ n + 1 := Nat.le_of_eq length
  unfold expr at run ⊢
  rw [get_bind, length] at run ⊢
  obtain ⟨first, between, opened, grown⟩ := bind_eq_ok.1 run
  have inner (c : Cursor) (p : Precedence) (few : c.left.length ≤ n) :=
    moves_exprUpTo (c := c) Grammar.leavesEnd_standard n p few
  obtain ⟨endsToo, fewer⟩ := (moves_opening inner Grammar.leavesEnd_standard few).ended ends opened
  have tight := (grows_of_growUpTo grown).tight assignable
  refine bind_eq_ok.2 ⟨first, between, opened, tight.growWhile endsToo ?_⟩
  exact fun left c' fewerToo goesOn => moves_extend_exprUpTo (by omega) goesOn

end Tight

/-! ## The parts of the two statements -/

/-- An expression is taken from the front of what is left. -/
theorem exists_left_of_expr {p : Precedence} (ends : c.Ends)
    (run : expr .standard p c = .ok value c') :
    c'.Ends ∧ c'.tokens = c.tokens ∧ c'.left <:+ c.left := by
  have moved := (moves_expr Grammar.leavesEnd_standard p) ends
  rw [run] at moved
  cases moved with
  | ended walks _ =>
    refine ⟨walks.ends ends, walks.tokens_eq, ?_⟩
    rw [c.left_eq, c'.left_eq, walks.tokens_eq]
    exact List.drop_suffix_drop_left _ walks.index_le

/-- **An expression is read again** in front of a mark that no list of type arguments has and that
binds no tighter than the expression was asked for. -/
theorem expr_again {closing mark : Token} {tokens rest more : List Token} {p : Precedence} {d : Cursor}
    (run : expr .standard p c = .ok value c') (left : c.left = tokens ++ closing :: rest)
    (ended : c'.left = closing :: rest)
    (closes : inList closing.kind = false ∧ Grammar.standard.follow closing.kind = none)
    (apart : inList mark.kind = false)
    (loose : (Grammar.standard.binding mark.kind).rank ≤ p.rank)
    (loosely : (Grammar.standard.binding mark.kind).rank ≤ Precedence.unary.rank)
    (some : rest ≠ []) (longer : rest.length ≤ more.length) (there : d.left = tokens ++ mark :: more) :
    ∃ found d', expr .standard p d = .ok found d' ∧ d'.left = mark :: more ∧
      found.relabel .erase = value.relabel .erase := by
  have deep : c.left.length ≤ d.left.length := by
    rw [left, there]
    simp only [List.length_append, List.length_cons]
    omega
  have undotted : mark.kind ≠ .dot := by
    intro isDot
    rw [isDot] at apart
    cases apart
  have clear : inList mark.kind = true → NoListIn value.bare tokens (mark :: more) := by
    intro mayPass
    rw [apart] at mayPass
    cases mayPass
  exact exprUpTo_again run left ended closes.1 closes.2 undotted clear loose loosely some longer deep
    there

/-- **An expression in parentheses is one operand**, however loosely it binds. -/
theorem expr_unary_group {opening closing last : Token} {tokens : List Token} {position : Position}
    {atEnd d : Cursor} (isOpening : opening.kind = .openParen)
    (isClosing : closing.kind = .closeParen) (isLast : last.kind = .semicolon)
    (run : expr .standard .loosest c = .ok value atEnd)
    (left : c.left = tokens ++ [last, .ending position])
    (ended : atEnd.left = [last, .ending position])
    (there : d.left = opening :: (tokens ++ [closing, last, .ending position])) :
    ∃ found d', expr .standard .unary d = .ok found d' ∧ d'.left = [last, .ending position] ∧
      found.relabel .erase = value.relabel .erase := by
  have here : d.kind = .openParen := (kind_of_left_cons there).trans isOpening
  obtain ⟨-, inside⟩ := Cursor.next_of_left there (by simp)
  have size : d.left.length = tokens.length + 3 + 1 := by simp [there]
  unfold expr at run
  rw [get_bind, left] at run
  obtain ⟨found, atClosing, foundRun, behind, alike⟩ :=
    exprUpTo_again (m := tokens.length + 3) run left ended (by rw [isLast]; rfl) (by rw [isLast]; rfl)
      (by rw [isClosing]; nofun) (by rw [isClosing]; nofun) (by rw [isClosing]; decide)
      (by rw [isClosing]; decide) (List.cons_ne_nil _ _) (by simp) (by simp) inside
  have closes : atClosing.kind = .closeParen := (kind_of_left_cons behind).trans isClosing
  obtain ⟨-, afterwards⟩ := Cursor.next_of_left behind (by simp)
  refine ⟨found, atClosing.next, ?_, afterwards, alike⟩
  have grouped : Parse.opening .standard (exprUpTo .standard (tokens.length + 3)) d =
      .ok found atClosing.next := by
    unfold Parse.opening
    rw [get_bind, here]
    refine bind_eq_ok.2 ⟨d.current, d.next, rfl, bind_eq_ok.2 ⟨found, atClosing, foundRun, ?_⟩⟩
    exact bind_eq_ok.2 ⟨_, _, run_expect closes, rfl⟩
  have stops : continues .standard .unary atClosing.next = false := by
    rw [continues, kind_of_left_cons afterwards, isLast]
    rfl
  unfold expr
  rw [get_bind, size]
  exact bind_eq_ok.2 ⟨found, atClosing.next, grouped, run_growWhile_none stops⟩

/-- An operation on two operands, and nothing behind it. -/
theorem expr_operation {operator : Operator} {left right : Expr} {q last : Cursor} (ends : c.Ends)
    (leftRun : expr .standard .unary c = .ok left q)
    (writes : Operator.ofKind? q.kind = some operator)
    (rightRun : expr .standard .unary q.next = .ok right last) (isLast : last.kind = .semicolon) :
    expr .standard .loosest c = .ok (.operation operator left right) last := by
  have reads : Reads q [(operator, right)] last := .more writes rightRun .done
  have atEnd : ChainEnds last := .inl (by rw [isLast]; rfl)
  have above : isAbove Precedence.loosest.rank (operator, right) = true :=
    decide_eq_true operator.level_pos
  have tree : precedenceTree left [(operator, right)] = .operation operator left right := by
    simp [precedenceTree, Chain.split?]
  have loose : Precedence.loosest.rank ≤ Precedence.unary.rank := by decide
  obtain ⟨q', run, readsOn, -⟩ :=
    (loops [(operator, right)]).operand ends (Nat.le_refl _) loose leftRun reads atEnd
  rw [List.takeWhile_cons_of_pos above, List.takeWhile_nil, tree] at run
  rw [List.dropWhile_cons_of_pos above, List.dropWhile_nil] at readsOn
  cases readsOn
  exact run

end Parse

/-! ## The two statements -/

/-- **The tokens that a compound assignment and its expansion have** besides those of the target and
of the right side. -/
structure Marks where
  operator : Token
  compound : Token
  equals : Token
  opening : Token
  closing : Token
  semicolon : Token
  assigns : (operator.kind, compound.kind) ∈ assigning
  isEquals : equals.kind = .assignment
  isOpening : opening.kind = .openParen
  isClosing : closing.kind = .closeParen
  isSemicolon : semicolon.kind = .semicolon

namespace Marks

variable (m : Marks) (left right : List Token)

/-- The compound assignment: target, operator with the equals sign, right side. -/
def compact : List Token :=
  left ++ m.compound :: (right ++ [m.semicolon])

/-- Its expansion: target, equals sign, and the operation on the target and the right side in
parentheses. -/
def expanded : List Token :=
  left ++ m.equals :: (left ++ m.operator :: m.opening :: (right ++ [m.closing, m.semicolon]))

/-- **The compound assignment is read**: all tokens are taken, and for the target those in front of
the operator. -/
structure Reads (firstId : Nat) (target value : Expr) (span : Span) : Prop where
  whole : ∃ c', Parse.stmt .standard (.ofTokens (m.compact left right) firstId) =
    .ok (.assign target value span) c' ∧ c'.ahead = []
  target : ∃ c', Parse.expr .standard .loosest (.ofTokens (m.compact left right) firstId) =
    .ok target c' ∧ c'.behind.reverse = uncommented left

theorem left_compact (firstId : Nat) : (Cursor.ofTokens (m.compact left right) firstId).left =
    uncommented left ++ m.compound ::
      (uncommented right ++ [m.semicolon, .ending m.semicolon.span.stop]) := by
  obtain ⟨operator, assigns⟩ := exists_assigns_of_mem m.assigns
  have last : m.semicolon.kind ≠ .comment ∧ m.semicolon.kind ≠ .eof := by
    rw [m.isSemicolon]
    decide
  have split : m.compact left right = (left ++ m.compound :: right) ++ [m.semicolon] := by
    simp [compact]
  rw [split, Cursor.left_ofTokens last.1 last.2, uncommented_append, uncommented_cons assigns.seen.2]
  simp

theorem left_expanded (firstId : Nat) : (Cursor.ofTokens (m.expanded left right) firstId).left =
    uncommented left ++ m.equals :: (uncommented left ++ m.operator :: m.opening ::
      (uncommented right ++ [m.closing, m.semicolon, .ending m.semicolon.span.stop])) := by
  obtain ⟨operator, assigns⟩ := exists_assigns_of_mem m.assigns
  have last : m.semicolon.kind ≠ .comment ∧ m.semicolon.kind ≠ .eof := by
    rw [m.isSemicolon]
    decide
  have seen : m.equals.kind ≠ .comment ∧ m.opening.kind ≠ .comment ∧
      m.closing.kind ≠ .comment := by
    rw [m.isEquals, m.isOpening, m.isClosing]
    decide
  have split : m.expanded left right = (left ++ m.equals :: (left ++ m.operator :: m.opening ::
      (right ++ [m.closing]))) ++ [m.semicolon] := by
    simp [expanded]
  rw [split, Cursor.left_ofTokens last.1 last.2, uncommented_append, uncommented_cons seen.1,
    uncommented_append, uncommented_cons assigns.seen.1, uncommented_cons seen.2.1,
    uncommented_append, uncommented_cons seen.2.2]
  simp [uncommented]

variable {m left right}

/-- **The parts of a compound assignment that is read**: the target up to the operator, and from
behind it the right side up to the semicolon. -/
theorem Reads.exists_parts {firstId : Nat} {target value : Expr} {span : Span}
    (reads : m.Reads left right firstId target value span) :
    ∃ operator right' atMark atEnd, Operator.Assigns operator m.operator.kind m.compound.kind ∧
      Parse.Assigns (.ofTokens (m.compact left right) firstId) target atMark (.operation operator)
        right' atEnd ∧
      value = .operation operator target right' ∧
      atMark.left = m.compound :: (uncommented right ++ [m.semicolon, .ending m.semicolon.span.stop]) ∧
      atEnd.left = [m.semicolon, .ending m.semicolon.span.stop] := by
  obtain ⟨operator, operates⟩ := exists_assigns_of_mem m.assigns
  obtain ⟨c', run, atLast⟩ := reads.whole
  obtain ⟨atMark, assigned, right', atEnd, assigns, same, rfl⟩ := Parse.exists_assigns run
  obtain ⟨atMark', targetRun, taken⟩ := reads.target
  obtain rfl : atMark' = atMark := by
    rw [assigns.leftRun] at targetRun
    cases targetRun
    rfl
  have entered := left_compact m left right firstId
  have ends := Cursor.ends_ofTokens (m.compact left right) firstId
  obtain ⟨endsMark, kept, -⟩ := Parse.exists_left_of_expr ends assigns.leftRun
  have leftMark : atMark'.left =
      m.compound :: (uncommented right ++ [m.semicolon, .ending m.semicolon.span.stop]) := by
    rw [Cursor.tokens_eq_left, entered, Cursor.tokens, taken] at kept
    exact List.append_cancel_left kept
  obtain rfl : assigned = .operation operator := by
    have mark := assigns.mark
    rw [Parse.kind_of_left_cons leftMark, operates.assigned] at mark
    exact (Option.some.inj mark).symm
  obtain ⟨-, behindMark⟩ := Cursor.next_of_left leftMark (by simp)
  obtain ⟨endsEnd, -, suffix⟩ := Parse.exists_left_of_expr endsMark.next assigns.rightRun
  -- The right side ends two tokens before the last, since all tokens are taken.
  have notLast : atEnd.kind ≠ .eof := by
    rw [assigns.ends]
    decide
  have two : atEnd.left.length = 2 := by
    rw [Cursor.left_next (endsEnd.ahead_ne_nil notLast), Cursor.left, atLast]
    rfl
  have leftEnd : atEnd.left = [m.semicolon, .ending m.semicolon.span.stop] := by
    rw [behindMark] at suffix
    have last := List.suffix_of_suffix_length_le suffix (List.suffix_append _ _) (Nat.le_of_eq two)
    exact last.eq_of_length two
  exact ⟨operator, right', atMark', atEnd, operates, assigns, same, leftMark, leftEnd⟩

variable {firstId : Nat} {target value : Expr} {span : Span}

/-- **A compound assignment equals its expansion**: wherever the one is read, the other is too, all of
its tokens are taken, and the assignment is the same but for numbers and positions. -/
theorem expanded_of_reads (reads : m.Reads left right firstId target value span) (otherId : Nat) :
    ∃ found c', Parse.stmt .standard (.ofTokens (m.expanded left right) otherId) = .ok found c' ∧
      c'.ahead = [] ∧
      found.relabel .erase = (Stmt.assign target value span).relabel .erase := by
  obtain ⟨operator, right', atMark, atEnd, operates, assigns, rfl, leftMark, leftEnd⟩ :=
    reads.exists_parts
  have entered := left_compact m left right firstId
  have ends := Cursor.ends_ofTokens (m.compact left right) firstId
  have there := left_expanded m left right otherId
  have endsThere := Cursor.ends_ofTokens (m.expanded left right) otherId
  generalize Cursor.ofTokens (m.compact left right) firstId = c at *
  generalize Cursor.ofTokens (m.expanded left right) otherId = d at *
  have closes : inList m.compound.kind = false ∧
      Grammar.standard.follow m.compound.kind = none := ⟨operates.apart.2, operates.ends⟩
  -- The target in front of the equals sign.
  have apartEquals : inList m.equals.kind = false := by
    rw [m.isEquals]
    rfl
  have bindsEquals : (Grammar.standard.binding m.equals.kind).rank = 0 := by
    rw [m.isEquals]
    rfl
  obtain ⟨target₁, atEquals, run₁, left₁, alike₁⟩ := Parse.expr_again assigns.leftRun entered leftMark
    closes apartEquals (by omega) (by omega) (by simp) (by simp; omega) there
  obtain ⟨-, behind₁⟩ := Cursor.next_of_left left₁ (by simp)
  -- The target in front of the operator.
  have tight := Parse.expr_unary_of_assignable ends assigns.leftRun assigns.assignable
  obtain ⟨target₂, atOperator, run₂, left₂, alike₂⟩ := Parse.expr_again tight entered leftMark closes
    operates.apart.1 operates.loose operates.loose (by simp) (by simp) behind₁
  obtain ⟨-, behind₂⟩ := Cursor.next_of_left left₂ (by simp)
  -- The right side in its parentheses.
  obtain ⟨-, behindMark⟩ := Cursor.next_of_left leftMark (by simp)
  obtain ⟨right₂, last, run₃, left₃, alike₃⟩ := Parse.expr_unary_group m.isOpening m.isClosing
    m.isSemicolon assigns.rightRun behindMark leftEnd behind₂
  have isLast : last.kind = .semicolon := (Parse.kind_of_left_cons left₃).trans m.isSemicolon
  obtain ⟨-, atLast⟩ := Cursor.next_of_left left₃ (by simp)
  have writes : Operator.ofKind? atOperator.kind = some operator := by
    rw [Parse.kind_of_left_cons left₂]
    exact operates.writes
  have endsBehind : atEquals.next.Ends := by
    rw [Cursor.Ends, Cursor.tokens_next]
    exact (Parse.exists_left_of_expr endsThere run₁).1
  have run₄ := Parse.expr_operation endsBehind run₂ writes run₃ isLast
  have expanded : Parse.Assigns d target₁ atEquals (fun _ value => value)
      (.operation operator target₂ right₂) last := by
    refine ⟨?_, run₁, ?_, ?_, run₄, isLast⟩
    · cases front : uncommented left with
      | nil =>
        rw [front] at there
        rw [Parse.kind_of_left_cons there, m.isEquals]
        rfl
      | cons first rest =>
        rw [front] at there entered
        rw [Parse.kind_of_left_cons there, ← Parse.kind_of_left_cons entered]
        exact assigns.plain
    · rw [Parse.kind_of_left_cons left₁, m.isEquals]
      rfl
    · rw [← Expr.isAssignable_relabel .erase, alike₁, Expr.isAssignable_relabel]
      exact assigns.assignable
  have values : (Expr.operation operator target₂ right₂).relabel .erase =
      (Expr.operation operator target right').relabel .erase :=
    Parse.alike_operation alike₂ alike₃
  refine ⟨_, last.next, expanded.run, (List.cons.inj atLast).2, ?_⟩
  rw [Stmt.relabel, Stmt.relabel, alike₁, values]
  rfl

open Parse (tokenAt symbolAt)

/-- The marks of `*=` and of its expansion. -/
def times : Marks where
  operator := tokenAt 12 .star "*"
  compound := tokenAt 5 .starEquals "*="
  equals := tokenAt 5 .assignment "="
  opening := tokenAt 14 .openParen "("
  closing := tokenAt 20 .closeParen ")"
  semicolon := tokenAt 21 .semicolon ";"
  assigns := by decide
  isEquals := rfl
  isOpening := rfl
  isClosing := rfl
  isSemicolon := rfl

/-- The tokens of `a[i]`. -/
def element : List Token :=
  [tokenAt 0 .identifier "a", tokenAt 1 .openBracket "[", tokenAt 2 .identifier "i",
    tokenAt 3 .closeBracket "]"]

/-- The expression `a[i]`. -/
def elementExpr : Expr :=
  .index (symbolAt 0 "a") (symbolAt 2 "i") ⟨⟨0, 1, "shell"⟩, ⟨4, 1, "shell"⟩⟩

/-- The tokens of `b + c`. -/
def sum : List Token :=
  [tokenAt 15 .identifier "b", tokenAt 17 .plus "+", tokenAt 19 .identifier "c"]

/-- The expression `b + c`. -/
def sumExpr : Expr :=
  .operation .add (symbolAt 15 "b") (symbolAt 19 "c")

/-- `a[i] *= b + c;` is read, and so is `a[i] = a[i] * (b + c);`, with the sum as one operand. -/
theorem expanded_of_reads_times : ∃ span,
    times.Reads element sum 0 elementExpr (.operation .multiply elementExpr sumExpr) span ∧
    ∃ found c', Parse.stmt .standard (.ofTokens (times.expanded element sum) 7) = .ok found c' ∧
      c'.ahead = [] ∧ found.relabel .erase =
        (Stmt.assign elementExpr (.operation .multiply elementExpr sumExpr) span).relabel .erase := by
  have reads : times.Reads element sum 0 elementExpr (.operation .multiply elementExpr sumExpr)
      ⟨⟨0, 1, "shell"⟩, ⟨22, 1, "shell"⟩⟩ :=
    ⟨⟨_, rfl, rfl⟩, ⟨_, rfl, rfl⟩⟩
  exact ⟨_, reads, expanded_of_reads reads 7⟩

end Marks

end FrontEnd

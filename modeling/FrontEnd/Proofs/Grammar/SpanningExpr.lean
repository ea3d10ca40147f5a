import FrontEnd.Proofs.FaithfulSpans
import FrontEnd.Proofs.Grammar.Ensuring

/-!
# Expressions in the stretch that they are read from

An expression takes its span from tokens that were read for it and from the spans of its parts. Over
the tokens of a text, both ends of the span lie in the stretch from where the cursor stood to where it
has arrived (`Expr.ReadFrom`). What is read behind an expression lies behind that stretch, so an
operation, which reaches from its left operand to its right one, and a call, an index or a member,
which reach from what they follow to the token taken last, enclose their parts.

A sign is read before its operand, and the number that it stands for is the right operand. So its
operation reaches from the operand back to the sign (`Expr.IsSigned`). No other expression does that,
and every other encloses its parts (`Expr.IsOrdered`), also where one of these is such an operation.
-/

namespace FrontEnd

open Token

/-! ## Spans -/

/-- **A span encloses another**, which starts no sooner and ends no later. -/
structure Span.Encloses (outer inner : Span) : Prop where
  start : outer.start.offset ≤ inner.start.offset
  stop : inner.stop.offset ≤ outer.stop.offset

theorem Span.Encloses.refl (span : Span) : span.Encloses span :=
  ⟨Nat.le_refl _, Nat.le_refl _⟩

theorem Span.Encloses.trans {outer middle inner : Span} (first : outer.Encloses middle)
    (second : middle.Encloses inner) : outer.Encloses inner :=
  ⟨Nat.le_trans first.start second.start, Nat.le_trans second.stop first.stop⟩

namespace Expr

/-- **An expression is ordered** when it ends no sooner than it starts and encloses its parts. -/
structure IsOrdered (value : Expr) : Prop where
  le : value.span.start.offset ≤ value.span.stop.offset
  parts : ∀ part ∈ value.parts, value.span.Encloses part.span

/-- **An expression is the operation of a sign**: its number has the span of a sign among the tokens,
and the span of the operation reaches from the operand back to that sign. -/
inductive IsSigned (tokens : List Token) : Expr → Prop
  | operation {operator : Operator} {operand : Expr} {n : Int} {sign : Token} :
    sign ∈ tokens → sign.kind ∈ [.dash, .plusPlus, .minusMinus] →
    sign.span.start.offset < sign.span.stop.offset →
    sign.span.stop.offset ≤ operand.span.start.offset →
    IsSigned tokens (.operation operator operand (.int n sign.span))

/-- **Every expression in an expression** is ordered or the operation of a sign. -/
def Spanned (tokens : List Token) (value : Expr) : Prop :=
  ∀ inner : Expr, inner.Within value → inner.IsOrdered ∨ inner.IsSigned tokens

variable {tokens : List Token} {value : Expr}

theorem spanned_of_parts (own : value.IsOrdered ∨ value.IsSigned tokens)
    (parts : ∀ part ∈ value.parts, part.Spanned tokens) : value.Spanned tokens := by
  intro inner within
  cases within with
  | self => exact own
  | part isPart within => exact parts _ isPart inner within

/-- **An expression without the operation of a sign** encloses all that stands in it, and that is
ordered. -/
theorem Spanned.encloses (spanned : value.Spanned tokens)
    (plain : ∀ inner : Expr, inner.Within value → ¬ inner.IsSigned tokens) {inner : Expr}
    (within : inner.Within value) : inner.IsOrdered ∧ value.span.Encloses inner.span := by
  induction within with
  | self => exact ⟨(spanned _ .self).resolve_right (plain _ .self), .refl _⟩
  | @part outer part isPart within ih =>
    have ordered := (spanned _ .self).resolve_right (plain _ .self)
    obtain ⟨isOrdered, encloses⟩ := ih (fun inner within => spanned inner (.part isPart within))
      fun inner within => plain inner (.part isPart within)
    exact ⟨isOrdered, (ordered.parts part isPart).trans encloses⟩

end Expr

/-! ## Cursors over the tokens of a text -/

namespace Cursor

variable {name text : String} {tokens : List Token} {c c' : Cursor}

/-- A token that is not the end has an extent. -/
theorem Over.current_lt (isOver : c.Over name text tokens) (notEnd : c.kind ≠ .eof) :
    c.here.offset < c.current.span.stop.offset := by
  have mem := c.current_mem
  obtain ⟨front, rfl, extents⟩ := (Token.laid_of_scan isOver.scanned).covers.ended
  rw [isOver.kept] at mem
  rcases List.mem_append.1 (List.mem_of_mem_filter mem) with inFront | isLast
  · exact (extents _ inFront).2.2
  · refine absurd ?_ notEnd
    rw [Cursor.kind, List.mem_singleton.1 isLast]
    rfl

/-- A token that is taken has been reached. -/
theorem next_taken (more : c.ahead ≠ []) :
    c.next.behind ≠ [] ∧ c.next.reached = c.current.span.stop := by
  obtain ⟨behind, current, ahead, nextId, file⟩ := c
  cases ahead with
  | nil => exact absurd rfl more
  | cons token rest => exact ⟨List.cons_ne_nil _ _, rfl⟩

/-- **Behind a token that was taken** the cursor has reached its end, or gone on. -/
theorem Over.taken (isOver : c.Over name text tokens) (notEnd : c.kind ≠ .eof)
    (walks : c.next.Walks c') :
    c'.behind ≠ [] ∧ c.current.span.stop.offset ≤ c'.reached.offset := by
  obtain ⟨some, isReached⟩ := next_taken (isOver.ends.ahead_ne_nil notEnd)
  have overNext := isOver.after (.single (.token notEnd))
  obtain ⟨further, taken⟩ := walks.reached_le overNext some
  rw [isReached] at further
  exact ⟨taken, further⟩

/-- What was reached lies before every later place. -/
theorem Walks.reached_le_here (walks : c.Walks c') (isOver : c.Over name text tokens)
    (taken : c.behind ≠ []) : c.reached.offset ≤ c'.here.offset :=
  Nat.le_trans (isOver.reached_le_here taken) (walks.here_le isOver.ascends)

end Cursor

/-! ## Expressions that were read -/

/-- **What an expression is that was read** from a cursor to another: both ends of its span lie in
between, and it is spanned. -/
structure Expr.ReadFrom (tokens : List Token) (s : Cursor) (value : Expr) (c' : Cursor) : Prop where
  taken : c'.behind ≠ []
  start : s.here.offset ≤ value.span.start.offset ∧ value.span.start.offset ≤ c'.reached.offset
  stop : s.here.offset ≤ value.span.stop.offset ∧ value.span.stop.offset ≤ c'.reached.offset
  spanned : value.Spanned tokens

namespace Expr.ReadFrom

variable {name text : String} {tokens : List Token} {s c c₀ c₁ c' last : Cursor}
  {value left right operand : Expr}

theorem before (isRead : value.ReadFrom tokens c c') (isOver : s.Over name text tokens)
    (walks : s.Walks c) : value.ReadFrom tokens s c' where
  taken := isRead.taken
  start := ⟨Nat.le_trans (walks.here_le isOver.ascends) isRead.start.1, isRead.start.2⟩
  stop := ⟨Nat.le_trans (walks.here_le isOver.ascends) isRead.stop.1, isRead.stop.2⟩
  spanned := isRead.spanned

theorem behind (isRead : value.ReadFrom tokens s c') (isOver : c'.Over name text tokens)
    (walks : c'.Walks last) : value.ReadFrom tokens s last := by
  obtain ⟨further, taken⟩ := walks.reached_le isOver isRead.taken
  exact ⟨taken, ⟨isRead.start.1, Nat.le_trans isRead.start.2 further⟩,
    ⟨isRead.stop.1, Nat.le_trans isRead.stop.2 further⟩, isRead.spanned⟩

/-- An ordered expression was read where its span starts and ends in between. -/
theorem of_ordered (ordered : value.IsOrdered) (taken : c'.behind ≠ [])
    (begins : s.here.offset ≤ value.span.start.offset)
    (ends : value.span.stop.offset ≤ c'.reached.offset)
    (parts : ∀ part ∈ value.parts, part.Spanned tokens) : value.ReadFrom tokens s c' where
  taken := taken
  start := ⟨begins, Nat.le_trans ordered.le ends⟩
  stop := ⟨Nat.le_trans begins ordered.le, ends⟩
  spanned := spanned_of_parts (.inl ordered) parts

/-- **An expression of all that was read**, behind a token. -/
theorem whole (isOver : s.Over name text tokens) (notEnd : s.kind ≠ .eof) (walks : s.next.Walks c')
    (span : value.span = ⟨s.here, c'.reached⟩)
    (parts : ∀ part ∈ value.parts, part.ReadFrom tokens s c') : value.ReadFrom tokens s c' := by
  obtain ⟨taken, reached⟩ := isOver.taken notEnd walks
  have le : s.here.offset ≤ c'.reached.offset := Nat.le_trans isOver.current_le reached
  have ordered : value.IsOrdered := by
    constructor
    · rw [span]
      exact le
    · intro part isPart
      rw [span]
      exact ⟨(parts part isPart).start.1, (parts part isPart).stop.2⟩
  apply of_ordered ordered taken
  · rw [span]
  · rw [span]
  · intro part isPart
    exact (parts part isPart).spanned

/-- **An expression that follows another** and reaches to the token taken last encloses it, and what
was read behind it. -/
theorem follow (isOver : c₀.Over name text tokens) (isLeft : left.ReadFrom tokens s c₀)
    (walks : c₀.Walks c₁) (walksOn : c₁.Walks c') (span : value.span = ⟨left.span.start, c'.reached⟩)
    (parts : ∀ part ∈ value.parts, part = left ∨ part.ReadFrom tokens c₁ c') :
    value.ReadFrom tokens s c' := by
  have isLeftStill := isLeft.behind isOver (walks.trans walksOn)
  -- Whatever is read from `c₁` on lies behind both ends of the first expression.
  have apart : left.span.start.offset ≤ c₁.here.offset :=
    Nat.le_trans isLeft.start.2 (walks.reached_le_here isOver isLeft.taken)
  have ordered : value.IsOrdered := by
    constructor
    · rw [span]
      exact isLeftStill.start.2
    · intro part isPart
      rw [span]
      rcases parts part isPart with rfl | isRead
      · exact ⟨Nat.le_refl _, isLeftStill.stop.2⟩
      · exact ⟨Nat.le_trans apart isRead.start.1, isRead.stop.2⟩
  apply of_ordered ordered isLeftStill.taken
  · rw [span]
    exact isLeft.start.1
  · rw [span]
  · intro part isPart
    rcases parts part isPart with rfl | isRead
    · exact isLeft.spanned
    · exact isRead.spanned

/-- **An operation encloses its operands**, the right of which was read behind the left. -/
theorem operation (operator : Operator) (isOver : c₀.Over name text tokens)
    (isLeft : left.ReadFrom tokens s c₀) (walks : c₀.Walks c₁)
    (isRight : right.ReadFrom tokens c₁ c') :
    (Expr.operation operator left right).ReadFrom tokens s c' := by
  have apart : c₀.reached.offset ≤ c₁.here.offset := walks.reached_le_here isOver isLeft.taken
  have leftStart := isLeft.start
  have leftStop := isLeft.stop
  have rightStart := isRight.start
  have rightStop := isRight.stop
  have ordered : (Expr.operation operator left right).IsOrdered := by
    constructor
    · show left.span.start.offset ≤ right.span.stop.offset
      omega
    · refine List.forall_mem_cons.2
        ⟨⟨Nat.le_refl _, ?_⟩, List.forall_mem_singleton.2 ⟨?_, Nat.le_refl _⟩⟩
      · show left.span.stop.offset ≤ right.span.stop.offset
        omega
      · show left.span.start.offset ≤ right.span.start.offset
        omega
  apply of_ordered ordered isRight.taken leftStart.1 rightStop.2
  exact List.forall_mem_cons.2 ⟨isLeft.spanned, List.forall_mem_singleton.2 isRight.spanned⟩

/-- **The operation of a sign**, which stands in front of the operand. -/
theorem signed (operator : Operator) (n : Int) (isOver : c.Over name text tokens)
    (isSign : c.kind ∈ [.dash, .plusPlus, .minusMinus]) (notEnd : c.kind ≠ .eof)
    (walks : c.next.Walks c') (isOperand : operand.ReadFrom tokens c.next c') :
    (Expr.operation operator operand (.int n c.current.span)).ReadFrom tokens c c' := by
  obtain ⟨taken, reached⟩ := isOver.taken notEnd walks
  have stepped : c.Walks c.next := .single (.token notEnd)
  have mem : c.current ∈ tokens := by
    have inRow := c.current_mem
    rw [isOver.kept] at inRow
    exact List.mem_of_mem_filter inRow
  have extent := isOver.current_lt notEnd
  -- The operand is read behind the sign, so the number is the part that stands in front.
  have apart : c.current.span.stop.offset ≤ operand.span.start.offset := by
    obtain ⟨some, upTo⟩ := isOver.taken notEnd .refl
    have further := (isOver.after stepped).reached_le_here some
    exact Nat.le_trans upTo (Nat.le_trans further isOperand.start.1)
  have number : (Expr.int n c.current.span).Spanned tokens :=
    spanned_of_parts (.inl ⟨Nat.le_of_lt extent, nofun⟩) nofun
  refine ⟨taken, (isOperand.before isOver stepped).start, ⟨Nat.le_of_lt extent, reached⟩, ?_⟩
  apply spanned_of_parts (.inr (.operation mem isSign extent apart))
  exact List.forall_mem_cons.2 ⟨isOperand.spanned, List.forall_mem_singleton.2 number⟩

/-- A negation reaches from its sign to the end of its operand. -/
theorem negate (isOver : c.Over name text tokens) (notEnd : c.kind ≠ .eof)
    (isOperand : operand.ReadFrom tokens c.next c') :
    (Expr.negate operand ⟨c.here, operand.span.stop⟩).ReadFrom tokens c c' := by
  have isRead := isOperand.before isOver (.single (.token notEnd))
  have ordered : (Expr.negate operand ⟨c.here, operand.span.stop⟩).IsOrdered :=
    ⟨isRead.stop.1, List.forall_mem_singleton.2 ⟨isRead.start.1, Nat.le_refl _⟩⟩
  apply of_ordered ordered isRead.taken (Nat.le_refl _) isRead.stop.2
  exact List.forall_mem_singleton.2 isRead.spanned

end Expr.ReadFrom

/-- The span of an identifier. -/
def Identifier.span : Identifier → Span
  | .plain _ span => span
  | .applied segment => segment.span

namespace Parse

open Delivers (passing step)

variable {α : Type} {name text : String} {tokens : List Token} {g : Grammar} {s c : Cursor}

/-! ## Single tokens and lists -/

/-- A token of a kind is the current one, and is taken. -/
theorem delivers_taking {k : Kind} (notEnd : k ≠ .eof) : Delivers s (expect k)
    (fun token c' => c.kind = k ∧ token = c.current ∧ c' = c.next) c := by
  refine .look (.ite (fun here => ?_) fun _ => .look .halt)
  rw [← bind_pure advance]
  exact step (here ▸ notEnd) fun _ => .pure ⟨here, rfl, rfl⟩

/-- A token that may be there is taken if it is. -/
theorem delivers_option {k : Kind} (notEnd : k ≠ .eof) : Delivers s (consume k)
    (fun _ c' => c' = c ∨ c.kind = k ∧ c' = c.next) c := by
  refine .look (.ite (fun here => ?_) fun _ => .pure (.inl rfl))
  exact step (here ▸ notEnd) fun _ => .pure (.inr ⟨here, rfl⟩)

/-- **A row over the tokens of a text.** -/
theorem delivers_row {item : Parse α} {holds : Cursor → Bool} {run : Cursor → α → Cursor → Prop}
    (isOver : c.Over name text tokens)
    (each : ∀ c : Cursor, c.Over name text tokens → holds c = true → Delivers c item (run c) c) :
    Delivers s (repeatWhile holds item) (Row run s) c := by
  refine .weaken (delivers_repeatWhile_keeping ?_ isOver) fun _ _ isRow => isRow.1
  intro c goesOn isOver
  exact (each c isOver goesOn).led.weaken fun _ _ ⟨taken, isRun⟩ => ⟨isRun, isOver.after taken⟩

/-- **The elements of a list were read** on the way through it. -/
theorem delivers_separated {item : Parse α} {closing : Kind} {value : α → Expr}
    (isOver : c.Over name text tokens)
    (each : ∀ c : Cursor, c.Over name text tokens →
      Delivers c item (fun x c' => (value x).ReadFrom tokens c c') c) :
    Delivers c (separated closing item)
      (fun values c' => ∀ x ∈ values, (value x).ReadFrom tokens c c') c := by
  have element (c : Cursor) (isOver : c.Over name text tokens) :
      Delivers c (do let x ← item; separator closing; return x)
        (fun x c' => (value x).ReadFrom tokens c c') c :=
    .onward (each c isOver) fun x c₁ walks isRead =>
      passing (moves_separator closing) fun _ _ walksOn =>
        .pure (isRead.behind (isOver.after walks) walksOn)
  refine .weaken (delivers_row isOver fun c there _ => element c there) fun values c' row x mem => ?_
  obtain ⟨first, behind, walks, isRead, taken, walksOn⟩ := row.between x mem
  exact (isRead.before isOver walks).behind (isOver.after (walks.trans taken)) walksOn

/-! ## What begins an expression -/

/-- A token that is an expression by itself. -/
theorem readFrom_token {value : Expr} (isOver : c.Over name text tokens) (notEnd : c.kind ≠ .eof)
    (span : value.span = c.current.span) (noParts : value.parts = []) :
    value.ReadFrom tokens c c.next := by
  refine .whole isOver notEnd .refl ?_ (by rw [noParts]; exact nofun)
  rw [span, (Cursor.next_taken (isOver.ends.ahead_ne_nil notEnd)).2]
  rfl

theorem delivers_literal {read : String → Option α} {build : α → Span → Expr}
    (isOver : c.Over name text tokens) (notEnd : c.kind ≠ .eof)
    (spans : ∀ value span, (build value span).span = span)
    (noParts : ∀ value span, (build value span).parts = []) :
    Delivers c (literal read build) (Expr.ReadFrom tokens c) c := by
  refine step notEnd fun _ => ?_
  split
  · exact .pure (readFrom_token isOver notEnd (spans _ _) (noParts _ _))
  · exact .halt

theorem delivers_textLiteral {build : String → Span → Expr} (isOver : c.Over name text tokens)
    (notEnd : c.kind ≠ .eof) (spans : ∀ text span, (build text span).span = span)
    (noParts : ∀ text span, (build text span).parts = []) :
    Delivers c (textLiteral build) (Expr.ReadFrom tokens c) c :=
  step notEnd fun _ => .pure (readFrom_token isOver notEnd (spans _ _) (noParts _ _))

/-- **An identifier** reaches over all that was read for it, behind its first token. -/
theorem delivers_identifier (isOver : c.Over name text tokens) : Delivers c identifier
    (fun found c' => c.kind = .identifier ∧ c.next.Walks c' ∧ found.span = ⟨c.here, c'.reached⟩)
    c := by
  refine .onward (delivers_taking nofun) fun token c₁ _ ⟨here, isToken, isNext⟩ => .look ?_
  subst isToken isNext
  split
  · refine passing moves_freshId fun id c₂ walks => ?_
    refine passing ?_ fun arguments c₃ walksOn => .close (.pure ⟨here, walks.trans walksOn, rfl⟩)
    exact (moves_typeArguments (Nat.le_succ c₂.left.length) fun _ _ => moves_name).weaken
  · refine .pure ⟨here, .refl, ?_⟩
    have notEnd : c.kind ≠ .eof := by
      rw [here]
      nofun
    rw [(Cursor.next_taken (isOver.ends.ahead_ne_nil notEnd)).2]
    rfl

theorem delivers_primary (isOver : c.Over name text tokens) :
    Delivers c primary (Expr.ReadFrom tokens c) c := by
  refine .onKind ?_
  split
  next here =>
    exact delivers_literal isOver (by rw [here]; nofun) (fun _ _ => rfl) fun _ _ => rfl
  next here =>
    exact delivers_literal isOver (by rw [here]; nofun) (fun _ _ => rfl) fun _ _ => rfl
  next here =>
    have notEnd : c.kind ≠ .eof := by rw [here]; nofun
    exact step notEnd fun _ => .pure (readFrom_token isOver notEnd rfl rfl)
  next here =>
    have notEnd : c.kind ≠ .eof := by rw [here]; nofun
    exact step notEnd fun _ => .pure (readFrom_token isOver notEnd rfl rfl)
  next here =>
    exact delivers_textLiteral isOver (by rw [here]; nofun) (fun _ _ => rfl) fun _ _ => rfl
  next here =>
    exact delivers_textLiteral isOver (by rw [here]; nofun) (fun _ _ => rfl) fun _ _ => rfl
  next =>
    refine .onward (delivers_identifier isOver) fun found c' _ ⟨here, walks, span⟩ => ?_
    have notEnd : c.kind ≠ .eof := by rw [here]; nofun
    cases found with
    | plain text place => exact .pure (.whole isOver notEnd walks span nofun)
    | applied segment => exact .pure (.whole isOver notEnd walks span nofun)
  next => exact .look .halt

section Inner

variable {expr : Precedence → Parse Expr}
  (each : ∀ p (c : Cursor), c.Over name text tokens → Delivers c (expr p) (Expr.ReadFrom tokens c) c)

include each

theorem delivers_sign (isOver : c.Over name text tokens) (notEnd : c.kind ≠ .eof) :
    Delivers c (sign expr) (Expr.ReadFrom tokens c) c := by
  have overNext := isOver.after (.single (.token notEnd))
  refine step notEnd fun _ => .onward (each _ _ overNext).along fun operand c' walks isRead => ?_
  have signed (operator : Operator) (n : Int)
      (isSign : c.current.kind ∈ [.dash, .plusPlus, .minusMinus]) :
      Delivers c (return .operation operator operand (.int n c.current.span))
        (Expr.ReadFrom tokens c) c' :=
    .pure (.signed operator n isOver isSign notEnd walks isRead)
  split
  next => exact .pure (isRead.negate isOver notEnd)
  next isDash => exact signed _ _ (by rw [isDash]; decide)
  next isPlus => exact signed _ _ (by rw [isPlus]; decide)
  next isMinus => exact signed _ _ (by rw [isMinus]; decide)
  next => exact .halt

/-- An expression in parentheses has its own span, without them. -/
theorem delivers_group (isOver : c.Over name text tokens) (notEnd : c.kind ≠ .eof) :
    Delivers c (group expr) (Expr.ReadFrom tokens c) c := by
  have stepped : c.Walks c.next := .single (.token notEnd)
  have overNext := isOver.after stepped
  refine step notEnd fun _ => .onward (each _ _ overNext).along fun inner c' walks isRead => ?_
  refine passing (moves_further nofun) fun _ _ walksOn => .pure ?_
  exact (isRead.before isOver stepped).behind (overNext.after walks) walksOn

theorem delivers_fieldValue (isOver : c.Over name text tokens) : Delivers c (fieldValue expr)
    (fun field c' => field.2.ReadFrom tokens c c') c := by
  refine passing (moves_further nofun) fun _ c₁ walks => ?_
  have overName := isOver.after walks
  refine .onward (delivers_taking nofun) fun token c₂ walksOn ⟨here, isToken, isNext⟩ => .onKind ?_
  subst isToken isNext
  have notEnd : c₁.kind ≠ .eof := by rw [here]; nofun
  have named : (Expr.symbol c₁.current.text c₁.current.span).ReadFrom tokens c c₁.next :=
    (readFrom_token overName notEnd rfl rfl).before isOver walks
  split
  · exact .pure named
  · exact .pure named
  · refine passing (moves_further nofun) fun _ c₃ walksThen => ?_
    have toValue := walks.trans (walksOn.trans walksThen)
    exact .onward (each _ _ (isOver.after toValue)).along fun value _ _ isRead =>
      .pure (isRead.before isOver toValue)

theorem delivers_structLiteral (isOver : c.Over name text tokens) :
    Delivers c (structLiteral expr) (Expr.ReadFrom tokens c) c := by
  refine .start (.onward (delivers_option nofun) fun isMutable c₁ walks stays => ?_)
  refine .onward (delivers_taking nofun) fun _ c₂ walksOn ⟨here, _, isNext⟩ => ?_
  have behindFirst : c.kind ≠ .eof ∧ c.next.Walks c₂ := by
    rcases stays with rfl | ⟨isWord, rfl⟩
    · exact ⟨by rw [here]; nofun, isNext ▸ .refl⟩
    · exact ⟨by rw [isWord]; nofun, walksOn⟩
  have toFields := walks.trans walksOn
  have overFields := isOver.after toFields
  refine .onward (delivers_separated overFields fun c there => delivers_fieldValue each there).along
    fun fields c₃ walksFields areRead => ?_
  refine passing (moves_further nofun) fun _ c₄ walksThen => .close (.pure ?_)
  refine .whole isOver behindFirst.1 (behindFirst.2.trans (walksFields.trans walksThen)) rfl ?_
  intro part isPart
  obtain ⟨field, isField, rfl⟩ := List.mem_map.1 isPart
  exact ((areRead field isField).before isOver toFields).behind (overFields.after walksFields)
    walksThen

theorem delivers_arrayLiteral (isOver : c.Over name text tokens) :
    Delivers c (arrayLiteral expr) (Expr.ReadFrom tokens c) c := by
  refine .start (.onward (delivers_taking nofun) fun _ c₁ walks ⟨here, _, isNext⟩ => ?_)
  subst isNext
  have notEnd : c.kind ≠ .eof := by rw [here]; nofun
  have overNext := isOver.after walks
  refine .onward (delivers_separated overNext fun c there => each _ c there).along
    fun values c₂ walksOn areRead => ?_
  refine passing (moves_further nofun) fun _ c₃ walksThen => .close (.pure ?_)
  refine .whole isOver notEnd (walksOn.trans walksThen) rfl fun part isPart => ?_
  exact ((areRead part isPart).before isOver walks).behind (overNext.after walksOn) walksThen

theorem delivers_opening (leaves : g.LeavesEnd) (isOver : c.Over name text tokens) :
    Delivers c (opening g expr) (Expr.ReadFrom tokens c) c := by
  refine .look ?_
  split
  next form leads =>
    have notEnd := ne_eof_of_some leaves.lead leads
    cases form with
    | primary => exact delivers_primary isOver
    | sign => exact delivers_sign each isOver notEnd
    | group => exact delivers_group each isOver notEnd
    | structLiteral => exact delivers_structLiteral each isOver
    | arrayLiteral => exact delivers_arrayLiteral each isOver
  next => exact .halt

/-! ## What continues an expression -/

variable {left : Expr} (isLeft : left.ReadFrom tokens s c)

include isLeft

theorem delivers_binary (isOver : c.Over name text tokens) (notEnd : c.kind ≠ .eof)
    (precedence : Precedence) :
    Delivers c (binary expr left precedence) (Expr.ReadFrom tokens s) c := by
  have stepped : c.Walks c.next := .single (.token notEnd)
  refine step notEnd fun _ => ?_
  split
  next => exact .halt
  next operator _ =>
    refine .onward (each _ _ (isOver.after stepped)).along fun right _ _ isRight => .pure ?_
    exact isLeft.operation operator isOver stepped isRight

theorem delivers_call (isOver : c.Over name text tokens) (notEnd : c.kind ≠ .eof) :
    Delivers c (call expr left) (Expr.ReadFrom tokens s) c := by
  have stepped : c.Walks c.next := .single (.token notEnd)
  have overNext := isOver.after stepped
  refine step notEnd fun _ => ?_
  refine .onward (delivers_separated overNext fun c there => each _ c there).along
    fun arguments c₁ walks areRead => ?_
  refine passing (moves_further nofun) fun _ c₂ walksOn => .close (.pure ?_)
  refine isLeft.follow isOver stepped (walks.trans walksOn) rfl fun part isPart => ?_
  rcases List.mem_cons.1 isPart with rfl | isArgument
  · exact .inl rfl
  · exact .inr ((areRead part isArgument).behind (overNext.after walks) walksOn)

theorem delivers_index (isOver : c.Over name text tokens) (notEnd : c.kind ≠ .eof) :
    Delivers c (index expr left) (Expr.ReadFrom tokens s) c := by
  have stepped : c.Walks c.next := .single (.token notEnd)
  have overNext := isOver.after stepped
  refine step notEnd fun _ => .onward (each _ _ overNext).along fun position c₁ walks isRead => ?_
  refine passing (moves_further nofun) fun _ c₂ walksOn => .close (.pure ?_)
  refine isLeft.follow isOver stepped (walks.trans walksOn) rfl fun part isPart => ?_
  rcases List.mem_cons.1 isPart with rfl | isPosition
  · exact .inl rfl
  · obtain rfl := List.mem_singleton.1 isPosition
    exact .inr (isRead.behind (overNext.after walks) walksOn)

omit each in
theorem delivers_member (isOver : c.Over name text tokens) (notEnd : c.kind ≠ .eof) :
    Delivers c (member left) (Expr.ReadFrom tokens s) c := by
  have stepped : c.Walks c.next := .single (.token notEnd)
  refine step notEnd fun _ => ?_
  split
  next =>
    refine passing moves_freshId fun _ _ walks => passing moves_segment.weaken fun _ _ walksOn => ?_
    exact .close (.pure (isLeft.follow isOver stepped (walks.trans walksOn) rfl nofun))
  next =>
    refine passing moves_segment.weaken fun _ _ walks => ?_
    exact .close (.pure (isLeft.follow isOver stepped walks rfl nofun))
  next =>
    refine passing (moves_further nofun) fun _ _ walks => .close (.pure ?_)
    exact isLeft.follow isOver stepped walks rfl (List.forall_mem_singleton.2 (.inl rfl))

theorem delivers_extend (leaves : g.LeavesEnd) (isOver : c.Over name text tokens) :
    Delivers c (extend g expr left) (Expr.ReadFrom tokens s) c := by
  refine .onKind ?_
  split
  next form follows =>
    have notEnd := ne_eof_of_some leaves.follow follows
    cases form with
    | binary => exact delivers_binary each isLeft isOver notEnd _
    | call => exact delivers_call each isLeft isOver notEnd
    | index => exact delivers_index each isLeft isOver notEnd
    | member => exact delivers_member isLeft isOver notEnd
  next => exact .pure isLeft

end Inner

/-- **An expression lies in the stretch that it is read from.** The induction is on the depth; the
expression so far keeps lying in the stretch while it grows. -/
theorem delivers_exprUpTo (leaves : g.LeavesEnd) (n : Nat) (p : Precedence) (c : Cursor)
    (isOver : c.Over name text tokens) :
    Delivers c (exprUpTo g n p) (Expr.ReadFrom tokens c) c := by
  induction n generalizing p c with
  | zero => exact .halt
  | succ n ih =>
    refine .onward (delivers_opening ih leaves isOver) fun first c₁ _ isFirst => ?_
    refine delivers_growWhile (fun left c₂ walks isLeft => ?_) isFirst
    exact (delivers_extend ih isLeft leaves (isOver.after walks)).along

/-- **An expression read on the way** from a cursor over the tokens of a text. -/
theorem delivers_expr (leaves : g.LeavesEnd) (isOver : s.Over name text tokens) (p : Precedence) :
    Delivers s (expr g p) (Expr.ReadFrom tokens c) c := by
  refine .known fun walks => .look ?_
  exact (delivers_exprUpTo leaves _ p c (isOver.after walks)).along

end Parse

end FrontEnd

import FrontEnd.Grammar.Decl
import FrontEnd.Proofs.Grammar.SpanningExpr
import FrontEnd.Proofs.Program.Occurrence

/-!
# The expressions of statements and structures, and parameters

Every expression of a statement was read for it, and is spanned (`Expr.Spanned`). An assignment with
an operator assigns an operation that no token writes: its left operand was read as the target, in
front of the operator, so that the operation encloses both of them as any other does. The statements
in the blocks of a statement are statements of their own, so blocks are only passed.

A parameter is closed behind its separator. So its span reaches to the end of a comma behind its name,
and to the end of the name in front of the closing parenthesis (`Parameter.ReachesOver`).
-/

namespace FrontEnd

open Token

/-- **The expressions of a statement are spanned**, but for those in its blocks. -/
abbrev Stmt.Spanned (tokens : List Token) (stmt : Stmt) : Prop :=
  ∀ value ∈ stmt.values, value.Spanned tokens

/-- The expression that a pattern leads to is spanned, if it leads to one. -/
abbrev CaseBody.Spanned (tokens : List Token) (body : CaseBody) : Prop :=
  ∀ value ∈ body.value?, value.Spanned tokens

/-- A pattern is spanned, and the expression that it leads to. -/
structure Case.Spanned (tokens : List Token) (case : Case) : Prop where
  pattern : case.pattern.Spanned tokens
  body : case.body.Spanned tokens

/-- **A parameter reaches over its separator.** Behind its name, an identifier among the tokens, stands
a comma, which it reaches to the end of, or the closing parenthesis, in front of which it ends with
the name. -/
def Parameter.ReachesOver (tokens : List Token) (parameter : Parameter) : Prop :=
  ∃ named behind, [named, behind] <:+: uncommented tokens ∧ named.kind = .identifier ∧
    named.text = parameter.name ∧
    parameter.span.start.offset ≤ named.span.start.offset ∧
    (behind.kind = .comma ∧ parameter.span.stop = behind.span.stop ∨
      behind.kind = .closeParen ∧ parameter.span.stop = named.span.stop)

/-- The expressions of a declaration are spanned as far as they stand in no statement, and its
parameters reach over their separators. -/
structure Decl.Spanned (tokens : List Token) (d : Decl) : Prop where
  initials : ∀ value ∈ d.initials, value.Spanned tokens
  inputs : ∀ f, d = .function f → ∀ parameter ∈ f.inputs, parameter.ReachesOver tokens
  methods : ∀ i, d = .interface i → ∀ m ∈ i.methods, ∀ parameter ∈ m.inputs,
    parameter.ReachesOver tokens

namespace Parse

open Delivers (passing step)

variable {α : Type} {name text : String} {tokens : List Token} {g : Grammar} {s c : Cursor}

section Over

variable (leaves : g.LeavesEnd) (isOver : s.Over name text tokens)

include isOver

/-- What each turn of a repetition gives is good. -/
theorem delivers_each {item : Parse α} {holds : Cursor → Bool} {good : α → Prop}
    (each : ∀ c : Cursor, c.Over name text tokens → holds c = true →
      Delivers c item (fun x _ => good x) c) :
    Delivers s (repeatWhile holds item) (fun values _ => ∀ x ∈ values, good x) c := by
  refine .known fun walks => (delivers_row (isOver.after walks) each).weaken ?_
  intro values c' row x mem
  obtain ⟨_, _, _, isGood, _, _⟩ := row.between x mem
  exact isGood

include leaves

/-! ## Statements -/

theorem spans_expr (p : Precedence) :
    Delivers s (expr g p) (fun value _ => value.Spanned tokens) c :=
  (delivers_expr leaves isOver p).weaken fun _ _ isRead => isRead.spanned

theorem spans_someExpr : Delivers s (some <$> expr g .loosest)
    (fun value _ => ∀ v ∈ value, v.Spanned tokens) c :=
  .map (spans_expr leaves isOver _) fun _ _ isSpanned => by simpa using isSpanned

theorem spans_condition :
    Delivers s (condition g) (fun value _ => value.Spanned tokens) c :=
  passing (moves_further nofun) fun _ _ _ =>
    .onward (spans_expr leaves isOver _) fun _ _ _ isSpanned =>
      passing (moves_further nofun) fun _ _ _ => .pure isSpanned

theorem spans_declaration (isMutable : Bool) (type : Name) (start : Position) :
    Delivers s (declaration g isMutable type start) (fun stmt _ => stmt.Spanned tokens) c := by
  refine passing moves_arrayMark fun _ _ _ => passing (moves_further nofun) fun _ _ _ => ?_
  refine passing (moves_further nofun) fun _ _ _ => ?_
  refine .onward (spans_expr leaves isOver _) fun initial _ _ isSpanned => ?_
  refine passing (moves_further nofun) fun _ _ _ => .close (.pure ?_)
  exact List.forall_mem_singleton.2 isSpanned

/-- **An assignment** assigns what was read behind its target, or an operation on both. -/
theorem spans_assignment {target : Expr} (start : Position) (overHere : c.Over name text tokens)
    (isTarget : target.ReadFrom tokens s c) :
    Delivers s (assignment g target start) (fun stmt _ => stmt.Spanned tokens) c := by
  refine .onKind ?_
  split
  · refine passing (moves_further nofun) fun _ _ _ => .close (.pure ?_)
    exact List.forall_mem_singleton.2 isTarget.spanned
  next assigned assigns =>
    have notEnd : c.kind ≠ .eof := ne_eof_of_some rfl assigns
    have stepped : c.Walks c.next := .single (.token notEnd)
    split
    · refine step notEnd fun _ => ?_
      refine .onward (delivers_expr leaves isOver _) fun value _ _ isValue => ?_
      refine passing (moves_further nofun) fun _ _ _ => .close (.pure ?_)
      refine List.forall_mem_cons.2 ⟨isTarget.spanned, List.forall_mem_singleton.2 ?_⟩
      rcases assignedValue?_cases assigns with ⟨-, rfl⟩ | ⟨-, operator, rfl⟩
      · exact isValue.spanned
      · exact (isTarget.operation operator overHere stepped isValue).spanned
    · exact .halt

theorem spans_returnWith (notEnd : c.kind ≠ .eof) :
    Delivers s (returnWith g) (fun stmt _ => stmt.Spanned tokens) c := by
  refine step notEnd fun _ => .onKind ?_
  dsimp only
  split
  · rw [pure_bind]
    exact passing (moves_further nofun) fun _ _ _ => .close (.pure nofun)
  · refine .onward (spans_someExpr leaves isOver) fun value _ _ isSpanned => ?_
    refine passing (moves_further nofun) fun _ _ _ => .close (.pure ?_)
    intro v mem
    exact isSpanned v (Option.mem_toList.1 mem)

omit isOver leaves in
theorem spans_control (notEnd : c.kind ≠ .eof) {build : Span → Stmt}
    (noValues : ∀ span, (build span).values = []) :
    Delivers s (control build) (fun stmt _ => stmt.Spanned tokens) c := by
  refine step notEnd fun _ => passing (moves_further nofun) fun _ _ _ => .close (.pure ?_)
  rw [Stmt.Spanned, noValues]
  exact List.forall_mem_nil _

theorem spans_declareMutable (notEnd : c.kind ≠ .eof) :
    Delivers s (declareMutable g) (fun stmt _ => stmt.Spanned tokens) c :=
  step notEnd fun _ => passing moves_name.weaken fun _ _ _ => spans_declaration leaves isOver _ _ _

section Blocks

variable {block : Parse (List Stmt)} (inner : ∀ s c, Delivers s block (fun _ _ => True) c)

include inner

theorem spans_loop (notEnd : c.kind ≠ .eof) :
    Delivers s (loop g block) (fun stmt _ => stmt.Spanned tokens) c := by
  refine step notEnd fun _ => .onward (spans_condition leaves isOver) fun _ _ _ isSpanned => ?_
  exact .onward (inner s _) fun _ _ _ _ => .close (.pure (List.forall_mem_singleton.2 isSpanned))

theorem spans_arm :
    Delivers s (arm g block) (fun arm _ => arm.condition.Spanned tokens) c :=
  .onward (spans_condition leaves isOver) fun _ _ _ isSpanned =>
    .onward (inner s _) fun _ _ _ _ => .pure isSpanned

theorem spans_branch (notEnd : c.kind ≠ .eof) :
    Delivers s (branch g block) (fun stmt _ => stmt.Spanned tokens) c := by
  have further (c : Cursor) (isOver : c.Over name text tokens)
      (elseIf : (decide (c.kind = .elseWord) && decide (c.peek 1 = .ifWord)) = true) :
      Delivers c (do let _ ← advance; let _ ← advance; arm g block)
        (fun arm _ => arm.condition.Spanned tokens) c := by
    obtain ⟨isElse, isIf⟩ : c.kind = .elseWord ∧ c.peek 1 = .ifWord := by simpa using elseIf
    refine step (by rw [isElse]; nofun) fun more => ?_
    refine step (by rw [Cursor.kind_next more, isIf]; nofun) fun _ => ?_
    exact spans_arm leaves isOver inner
  refine step notEnd fun _ => .onward (spans_arm leaves isOver inner) fun first _ _ isFirst => ?_
  refine .onward (delivers_each isOver further) fun others _ _ areOthers => ?_
  have whole (otherwise : List Stmt) (start : Position) (c : Cursor) :
      Delivers s (do return Stmt.branch first others otherwise (← spanFrom start))
        (fun stmt _ => stmt.Spanned tokens) c := by
    refine .close (.pure ?_)
    simp only [Stmt.Spanned, Stmt.values, List.forall_mem_cons, List.forall_mem_map]
    exact ⟨isFirst, areOthers⟩
  refine passing (moves_consume nofun) fun follows _ _ => ?_
  dsimp only
  split
  · exact .onward (inner s _) fun otherwise c _ _ => whole otherwise _ c
  · rw [pure_bind]
    exact whole [] _ _

theorem spans_caseBody :
    Delivers s (caseBody g block) (fun body _ => body.Spanned tokens) c := by
  refine .onKind ?_
  split
  · exact .map (inner s c) fun _ _ _ => nofun
  · exact .map (spans_expr leaves isOver _) fun value _ isSpanned => by
      simpa [CaseBody.Spanned, CaseBody.value?] using isSpanned

theorem spans_case : Delivers s (case g block) (fun case _ => case.Spanned tokens) c := by
  refine .onward (spans_expr leaves isOver _) fun pattern _ _ isPattern => ?_
  refine passing (moves_further nofun) fun _ _ _ => ?_
  refine .onward (spans_caseBody leaves isOver inner) fun body _ _ isBody => ?_
  exact passing (moves_separator _) fun _ _ _ => .pure ⟨isPattern, isBody⟩

theorem spans_lastCase : Delivers s (lastCase g block)
    (fun last _ => ∀ body ∈ last, body.Spanned tokens) c := by
  refine passing (moves_consume nofun) fun follows _ _ => ?_
  split
  · refine passing (moves_further nofun) fun _ _ _ => ?_
    refine .onward (spans_caseBody leaves isOver inner) fun body _ _ isBody => ?_
    refine passing (moves_separator _) fun _ _ _ => .pure ?_
    simpa using isBody
  · exact .pure nofun

theorem spans_select (notEnd : c.kind ≠ .eof) :
    Delivers s (select g block) (fun stmt _ => stmt.Spanned tokens) c := by
  refine step notEnd fun _ => ?_
  refine .onward (spans_condition leaves isOver) fun subject _ _ isSubject => ?_
  refine passing (moves_further nofun) fun _ _ _ => ?_
  refine .onward (delivers_each isOver fun c there _ => spans_case leaves there inner)
    fun cases _ _ areCases => ?_
  refine .onward (spans_lastCase leaves isOver inner) fun otherwise _ _ isLast => ?_
  refine passing (moves_further nofun) fun _ _ _ => .close (.pure ?_)
  simp only [Stmt.Spanned, Stmt.values, List.forall_mem_append, List.forall_mem_cons,
    List.forall_mem_map, List.forall_mem_filterMap, Option.mem_toList]
  exact ⟨⟨isSubject, fun case mem => (areCases case mem).pattern⟩,
    fun case mem => (areCases case mem).body, isLast⟩

theorem spans_formStmt (notEnd : c.kind ≠ .eof) (form : StmtForm) :
    Delivers s (formStmt g block form) (fun stmt _ => stmt.Spanned tokens) c := by
  cases form with
  | loop => exact spans_loop leaves isOver inner notEnd
  | branch => exact spans_branch leaves isOver inner notEnd
  | returnWith => exact spans_returnWith leaves isOver notEnd
  | select => exact spans_select leaves isOver inner notEnd
  | breakLoop => exact spans_control notEnd fun _ => rfl
  | continueLoop => exact spans_control notEnd fun _ => rfl
  | declareMutable => exact spans_declareMutable leaves isOver notEnd

end Blocks

end Over

theorem spans_simple (leaves : g.LeavesEnd) (isOver : c.Over name text tokens) :
    Delivers c (simple g) (fun stmt _ => stmt.Spanned tokens) c := by
  refine .start (.onward (delivers_expr leaves isOver _) fun first c₁ walks isFirst => .look ?_)
  have overThen := isOver.after walks
  split
  · split
    · exact passing moves_freshId fun id _ _ => spans_declaration leaves isOver _ _ _
    · exact spans_declaration leaves isOver _ _ _
    · exact spans_assignment leaves isOver _ overThen isFirst
  · exact spans_assignment leaves isOver _ overThen isFirst

/-- **The expressions of a statement are spanned**, however deep its blocks may nest. -/
theorem spans_stmtUpTo (leaves : g.LeavesEnd) (isOver : c.Over name text tokens) (n : Nat) :
    Delivers c (stmtUpTo g n) (fun stmt _ => stmt.Spanned tokens) c := by
  cases n with
  | zero => exact .halt
  | succ n =>
    refine .onKind ?_
    split
    next form found =>
      have inner (s c : Cursor) : Delivers s (blockOf (stmtUpTo g n)) (fun _ _ => True) c :=
        (delivers_blockOf (fun c => (delivers_self (delivers_stmtUpTo leaves n c)).weaken
          fun _ _ run => ⟨n, run⟩) s c).weaken fun _ _ _ => trivial
      exact spans_formStmt leaves isOver inner (ne_eof_of_some leaves.stmt found) form
    next => exact spans_simple leaves isOver

/-! ## Structures -/

theorem spans_field (leaves : g.LeavesEnd) (isOver : s.Over name text tokens) :
    Delivers s (field g) (fun field _ => ∀ value ∈ field.initial, value.Spanned tokens) c := by
  refine .start (passing (moves_consume nofun) fun isMutable _ _ => ?_)
  refine passing moves_name.weaken fun type _ _ => passing moves_arrayMark fun isArray _ _ => ?_
  refine passing (moves_further nofun) fun token _ _ => passing (moves_consume nofun) fun _ _ _ => ?_
  dsimp only
  split
  · refine .onward (spans_someExpr leaves isOver) fun initial _ _ isSpanned => ?_
    exact passing (moves_further nofun) fun _ _ _ => .close (.pure isSpanned)
  · rw [pure_bind]
    exact passing (moves_further nofun) fun _ _ _ => .close (.pure nofun)

/-- What stands in a structure has spanned initial values. -/
abbrev SpannedMember (tokens : List Token) : Field ⊕ StructDecl → Prop
  | .inl field => ∀ value ∈ field.initial, value.Spanned tokens
  | .inr d => ∀ value ∈ d.initials, value.Spanned tokens

theorem spans_structMember (leaves : g.LeavesEnd) (isOver : c.Over name text tokens)
    {inner : Parse StructDecl}
    (each : Delivers c inner (fun d _ => ∀ value ∈ d.initials, value.Spanned tokens) c) :
    Delivers c (structMember g inner) (fun member _ => SpannedMember tokens member) c := by
  refine .onKind ?_
  split
  · exact .map each fun _ _ areSpanned => areSpanned
  · exact .map each fun _ _ areSpanned => areSpanned
  · exact .map (spans_field leaves isOver) fun _ _ isSpanned => isSpanned

/-- **The initial values of a structure are spanned**, also those of the structures inside it. -/
theorem spans_structUpTo (leaves : g.LeavesEnd) (n : Nat) (c : Cursor)
    (isOver : c.Over name text tokens) :
    Delivers c (structUpTo g n) (fun d _ => ∀ value ∈ d.initials, value.Spanned tokens) c := by
  induction n generalizing c with
  | zero => exact .halt
  | succ n ih =>
    refine .start (passing (moves_consume nofun) fun isClosed _ _ => ?_)
    refine passing (moves_further nofun) fun _ _ _ => passing (moves_further nofun) fun token _ _ => ?_
    refine passing moves_typeParameters fun parameters _ _ => passing moves_bases fun bases _ _ => ?_
    refine passing (moves_further nofun) fun _ _ _ => ?_
    refine .onward (delivers_each isOver fun c there _ =>
      spans_structMember leaves there (ih c there)) fun members _ _ areSpanned => ?_
    refine passing (moves_further nofun) fun _ _ _ => .close (.pure ?_)
    simp only [StructDecl.initials, StructDecl.initialsOf_eq, List.forall_mem_append,
      List.forall_mem_flatMap, List.forall_mem_filterMap]
    constructor
    · intro member mem field isField value isInitial
      cases member with
      | inl f =>
        cases isField
        exact areSpanned _ mem value isInitial
      | inr d => cases isField
    · intro member mem d isInner value isInitial
      cases member with
      | inl f => cases isInner
      | inr e =>
        cases isInner
        exact areSpanned _ mem value isInitial

/-! ## Parameters -/

/-- A separator is a comma that is taken, or the closing token, which is not. -/
theorem delivers_separator {closing : Kind} : Delivers s (separator closing)
    (fun _ c' => c.kind = .comma ∧ c' = c.next ∨ c.kind = closing ∧ c' = c) c := by
  refine .look ?_
  split
  next isComma =>
    have notEnd : c.kind ≠ .eof := by rw [isComma]; nofun
    exact step notEnd fun _ => .pure (.inl ⟨isComma, rfl⟩)
  next =>
    split
    next isClosing => exact .pure (.inr ⟨isClosing, rfl⟩)
    next => exact .look .halt

/-- The current token and the one behind it stand side by side. -/
theorem current_pair (more : c.ahead ≠ []) : [c.current, c.next.current] <:+: c.tokens := by
  obtain ⟨behind, current, ahead, nextId, file⟩ := c
  cases ahead with
  | nil => exact absurd rfl more
  | cons token rest => exact ⟨behind.reverse, rest, by simp [Cursor.tokens, Cursor.next]⟩

/-- **A parameter** is closed behind its separator. -/
theorem spans_parameter (isOver : c.Over name text tokens) :
    Delivers c parameter (fun parameter _ => parameter.ReachesOver tokens) c := by
  refine .start (passing moves_name.weaken fun type c₁ walks => ?_)
  refine passing moves_arrayMark fun isArray c₂ walksOn => ?_
  have toName : c.Walks c₂ := walks.trans walksOn
  have overName := isOver.after toName
  refine .onward (delivers_taking (by decide)) fun token c₃ _ taken => ?_
  obtain ⟨here, rfl, rfl⟩ := taken
  refine .onward delivers_separator fun _ c₄ walksLast closes => .close (.pure ?_)
  have more := overName.ends.ahead_ne_nil (by rw [here]; decide)
  have begins : c.here.offset ≤ c₂.here.offset := toName.here_le isOver.ascends
  have pair := current_pair more
  rw [overName.kept, ← uncommented] at pair
  refine ⟨c₂.current, c₂.next.current, pair, here, rfl, begins, ?_⟩
  rcases closes with ⟨isComma, rfl⟩ | ⟨isClosing, rfl⟩
  · refine .inl ⟨isComma, ?_⟩
    have overComma := overName.after (.single (.token (by rw [here]; decide)))
    have moreThen := overComma.ends.ahead_ne_nil (by rw [isComma]; decide)
    exact (Cursor.next_taken moreThen).2
  · exact .inr ⟨isClosing, (Cursor.next_taken more).2⟩

theorem spans_inputs (isOver : s.Over name text tokens) : Delivers s inputs
    (fun inputs _ => ∀ parameter ∈ inputs, parameter.ReachesOver tokens) c := by
  refine passing (moves_further nofun) fun _ _ _ => ?_
  refine .onward (delivers_each isOver fun c there _ => spans_parameter there)
    fun _ _ _ areClosed => ?_
  exact passing (moves_further nofun) fun _ _ _ => .pure areClosed

/-! ## Declarations -/

theorem spans_function (leaves : g.LeavesEnd) (isOver : s.Over name text tokens) :
    Delivers s (function g)
      (fun f _ => ∀ parameter ∈ f.inputs, parameter.ReachesOver tokens) c := by
  refine .start (passing (moves_consume nofun) fun _ _ _ => ?_)
  refine passing (moves_further nofun) fun _ _ _ => ?_
  refine passing moves_typeParameters fun _ _ _ => passing moves_name.weaken fun _ _ _ => ?_
  refine .onward (spans_inputs isOver) fun inputs _ _ areClosed => passing moves_output fun _ _ _ => ?_
  exact passing (moves_block leaves).weaken fun _ _ _ => .close (.pure areClosed)

theorem spans_method (isOver : s.Over name text tokens) : Delivers s method
    (fun m _ => ∀ parameter ∈ m.inputs, parameter.ReachesOver tokens) c := by
  refine .start (passing (moves_consume nofun) fun _ _ _ => ?_)
  refine passing (moves_further nofun) fun _ _ _ => ?_
  refine passing (moves_further nofun) fun _ _ _ => ?_
  refine .onward (spans_inputs isOver) fun inputs _ _ areClosed => passing moves_output fun _ _ _ => ?_
  exact passing (moves_further nofun) fun _ _ _ => .close (.pure areClosed)

theorem spans_interface (isOver : s.Over name text tokens) (notEnd : c.kind ≠ .eof) :
    Delivers s interface (fun d _ => ∀ m ∈ d.methods, ∀ parameter ∈ m.inputs,
      parameter.ReachesOver tokens) c := by
  refine step notEnd fun _ => passing (moves_further nofun) fun _ _ _ => ?_
  refine passing moves_typeParameters fun _ _ _ => passing (moves_further nofun) fun _ _ _ => ?_
  refine .onward (delivers_each isOver fun c there _ => spans_method there)
    fun _ _ _ areClosed => ?_
  exact passing (moves_further nofun) fun _ _ _ => .close (.pure areClosed)

/-- **The initial values of a declaration are spanned**, and its parameters reach over their
separators. -/
theorem spans_decl (leaves : g.LeavesEnd) (isOver : c.Over name text tokens) :
    Delivers c (decl g) (fun d _ => d.Spanned tokens) c := by
  refine .onKind ?_
  split
  next =>
    refine .map (.look (spans_structUpTo leaves _ c isOver)) fun d _ areSpanned => ?_
    exact ⟨areSpanned, nofun, nofun⟩
  next =>
    refine .map (spans_function leaves isOver) fun d _ areClosed => ⟨nofun, ?_, nofun⟩
    rintro _ ⟨⟩
    exact areClosed
  next known =>
    have notEnd := ne_eof_of_some leaves.decl known
    refine .map (spans_interface isOver notEnd) fun d _ areClosed => ⟨nofun, nofun, ?_⟩
    rintro _ ⟨⟩
    exact areClosed
  next known =>
    refine .map (delivers_synonym (ne_eof_of_some leaves.decl known)) fun _ _ _ => ?_
    exact ⟨nofun, nofun, nofun⟩
  next known =>
    refine .map (delivers_enum (ne_eof_of_some leaves.decl known)) fun _ _ _ => ?_
    exact ⟨nofun, nofun, nofun⟩
  next => exact .look .halt

end Parse

end FrontEnd

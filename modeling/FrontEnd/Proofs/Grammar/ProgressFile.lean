import FrontEnd.Grammar.Decl
import FrontEnd.Proofs.Grammar.Entering
import FrontEnd.Proofs.Grammar.Progress

/-!
# Parsing files makes progress

The rules of progress, applied to expressions, statements, declarations and files. All of these take
a token when they end well, in every grammar in which the end of the file begins and continues
nothing (`Grammar.LeavesEnd`).

**The law** (`File.ofTokens_terminates`): whatever the tokens and the first number, a file is parsed
without running out of budget, along a walk from the start.
-/

namespace FrontEnd

/-- **A grammar leaves the end** when a token of the end begins and continues nothing. -/
structure Grammar.LeavesEnd (g : Grammar) : Prop where
  lead : g.lead .eof = none
  follow : g.follow .eof = none
  stmt : g.stmt .eof = none
  decl : g.decl .eof = none

theorem Grammar.leavesEnd_standard : standard.LeavesEnd :=
  ⟨rfl, rfl, rfl, rfl⟩

/-- A kind that a table knows is not that of the end. -/
theorem ne_eof_of_some {α : Type} {table : Token.Kind → Option α} (leaves : table .eof = none)
    {k : Token.Kind} {form : α} (found : table k = some form) : k ≠ .eof := by
  rintro rfl
  rw [leaves] at found
  cases found

namespace Parse

open Token

variable {c : Cursor} {g : Grammar}

/-! ## What begins an expression -/

theorem moves_literal {α : Type} {read : String → Option α} {build : α → Span → Expr}
    (notEnd : c.kind ≠ .eof) : Moves (literal read build) 1 c := by
  refine .advance notEnd fun _ _ => ?_
  cases read c.current.text with
  | some value => exact .pure _
  | none => exact moves_fail _ _

theorem moves_textLiteral {build : String → Span → Expr} (notEnd : c.kind ≠ .eof) :
    Moves (textLiteral build) 1 c :=
  .advance notEnd fun _ _ => .pure _

theorem moves_primary : Moves primary 1 c := by
  refine .onKind ?_
  split
  next here => exact moves_literal (by rw [here]; nofun)
  next here => exact moves_literal (by rw [here]; nofun)
  next here => exact .advance (by rw [here]; nofun) fun _ _ => .pure _
  next here => exact .advance (by rw [here]; nofun) fun _ _ => .pure _
  next here => exact moves_textLiteral (by rw [here]; nofun)
  next here => exact moves_textLiteral (by rw [here]; nofun)
  next =>
    refine .first moves_identifier fun found _ _ => ?_
    cases found <;> exact .pure _
  next => exact moves_unexpected _

section Inner

variable {expr : Precedence → Parse Expr} {n : Nat}
  (inner : ∀ c p, c.left.length ≤ n → Moves (expr p) 1 c)

include inner

theorem moves_sign (few : c.left.length ≤ n + 1) (notEnd : c.kind ≠ .eof) :
    Moves (sign expr) 1 c := by
  refine .advance notEnd fun fewer _ => .skip (inner _ _ (by omega)).weaken fun operand _ _ => ?_
  split
  · exact .pure _
  · exact .pure _
  · exact .pure _
  · exact .pure _
  · exact moves_fail _ _

theorem moves_group (few : c.left.length ≤ n + 1) (notEnd : c.kind ≠ .eof) :
    Moves (group expr) 1 c :=
  .advance notEnd fun _ _ => .skip (inner _ _ (by omega)).weaken fun _ _ _ =>
    .skip (moves_further nofun) fun _ _ _ => .pure _

theorem moves_fieldValue (few : c.left.length ≤ n + 1) : Moves (fieldValue expr) 1 c := by
  refine .first (moves_expect nofun) fun _ _ _ => .skip (moves_further nofun) fun token c' _ => ?_
  refine .onKind ?_
  split
  · exact .pure _
  · exact .pure _
  · exact .skip (moves_further nofun) fun _ _ _ =>
      .skip (inner _ _ (by omega)).weaken fun _ _ _ => .pure _

theorem moves_structLiteral (few : c.left.length ≤ n + 1) : Moves (structLiteral expr) 1 c := by
  refine .skip moves_here fun start _ _ => .skip (moves_consume nofun) fun isMutable _ _ => ?_
  refine .first (moves_expect nofun) fun _ _ _ => ?_
  refine .skip (moves_separated fun _ _ => moves_fieldValue inner (by omega)) fun fields _ _ => ?_
  exact .skip (moves_further nofun) fun _ _ _ => .skip (moves_spanFrom _) fun _ _ _ => .pure _

theorem moves_arrayLiteral (few : c.left.length ≤ n + 1) : Moves (arrayLiteral expr) 1 c := by
  refine .skip moves_here fun start _ _ => .first (moves_expect nofun) fun _ _ _ => ?_
  refine .skip (moves_separated fun _ _ => inner _ _ (by omega)) fun values _ _ => ?_
  exact .skip (moves_further nofun) fun _ _ _ => .skip (moves_spanFrom _) fun _ _ _ => .pure _

theorem moves_lead (few : c.left.length ≤ n + 1) (notEnd : c.kind ≠ .eof) (form : Lead) :
    Moves (lead expr form) 1 c := by
  cases form with
  | primary => exact moves_primary
  | sign => exact moves_sign inner few notEnd
  | group => exact moves_group inner few notEnd
  | structLiteral => exact moves_structLiteral inner few
  | arrayLiteral => exact moves_arrayLiteral inner few

/-! ## What continues an expression -/

theorem moves_binary (few : c.left.length ≤ n + 1) (notEnd : c.kind ≠ .eof) (left : Expr)
    (precedence : Precedence) : Moves (binary expr left precedence) 1 c := by
  refine .advance notEnd fun _ _ => ?_
  cases Operator.ofKind? c.current.kind with
  | none => exact moves_fail _ _
  | some operator => exact .skip (inner _ _ (by omega)).weaken fun _ _ _ => .pure _

theorem moves_call (few : c.left.length ≤ n + 1) (notEnd : c.kind ≠ .eof) (left : Expr) :
    Moves (call expr left) 1 c :=
  .advance notEnd fun _ _ => .skip (moves_separated fun _ _ => inner _ _ (by omega)) fun _ _ _ =>
    .skip (moves_further nofun) fun _ _ _ => .skip (moves_spanFrom _) fun _ _ _ => .pure _

theorem moves_index (few : c.left.length ≤ n + 1) (notEnd : c.kind ≠ .eof) (left : Expr) :
    Moves (index expr left) 1 c :=
  .advance notEnd fun _ _ => .skip (inner _ _ (by omega)).weaken fun _ _ _ =>
    .skip (moves_further nofun) fun _ _ _ => .skip (moves_spanFrom _) fun _ _ _ => .pure _

omit inner in
theorem moves_member (notEnd : c.kind ≠ .eof) (left : Expr) : Moves (member left) 1 c := by
  have select (base : Expr) (c : Cursor) : Moves
      (do
        let token ← expect .identifier
        return Expr.member base token.text (← spanFrom base.span.start)) 0 c :=
    .skip (moves_further nofun) fun _ _ _ => .skip (moves_spanFrom _) fun _ _ _ => .pure _
  refine .advance notEnd fun _ _ => ?_
  cases left with
  | symbol text span =>
    exact .skip moves_freshId fun _ _ _ => .skip moves_segment.weaken fun _ _ _ =>
      .skip (moves_spanFrom _) fun _ _ _ => .pure _
  | name name =>
    exact .skip moves_segment.weaken fun _ _ _ => .skip (moves_spanFrom _) fun _ _ _ => .pure _
  | _ => exact select _ _

theorem moves_extend (ends : g.LeavesEnd) (few : c.left.length ≤ n + 1) (left : Expr) 
    (known : (g.follow c.kind).isSome) : Moves (extend g expr left) 1 c := by
  obtain ⟨form, found⟩ := Option.isSome_iff_exists.1 known
  have notEnd := ne_eof_of_some ends.follow found
  refine .onKind ?_
  rw [found]
  cases form with
  | binary => exact moves_binary inner few notEnd left _
  | call => exact moves_call inner few notEnd left
  | index => exact moves_index inner few notEnd left
  | member => exact moves_member notEnd left

theorem moves_opening (ends : g.LeavesEnd) (few : c.left.length ≤ n + 1) :
    Moves (opening g expr) 1 c := by
  refine .look ?_
  cases found : g.lead c.kind with
  | none => exact moves_fail _ _
  | some form => exact moves_lead inner few (ne_eof_of_some ends.lead found) form

end Inner

theorem moves_exprUpTo (ends : g.LeavesEnd) (n : Nat) (precedence : Precedence)
    (few : c.left.length ≤ n) : Moves (exprUpTo g n precedence) 1 c := by
  induction n generalizing c precedence with
  | zero =>
    have some := c.length_left_pos
    omega
  | succ n ih =>
    have inner (c : Cursor) (p : Precedence) (few : c.left.length ≤ n) :
        Moves (exprUpTo g n p) 1 c := ih p few
    refine .first (moves_opening inner ends few) fun first c' fewer => ?_
    refine moves_growWhile first fun left c'' fewerToo goesOn => ?_
    refine moves_extend inner ends (by omega) left ?_
    rw [continues, Bool.and_eq_true] at goesOn
    exact goesOn.2

/-- **An expression takes a token.** -/
theorem moves_expr (ends : g.LeavesEnd) (precedence : Precedence) :
    Moves (expr g precedence) 1 c :=
  .look (moves_exprUpTo ends _ precedence (Nat.le_refl _))

/-! ## Statements -/

theorem moves_condition (ends : g.LeavesEnd) : Moves (condition g) 1 c :=
  .first (moves_expect nofun) fun _ _ _ => .skip (moves_expr ends _).weaken fun _ _ _ =>
    .skip (moves_further nofun) fun _ _ _ => .pure _

theorem moves_declaration (ends : g.LeavesEnd) (isMutable : Bool) (type : Name)
    (start : Position) : Moves (declaration g isMutable type start) 0 c :=
  .skip moves_arrayMark fun _ _ _ => .skip (moves_further nofun) fun _ _ _ =>
    .skip (moves_further nofun) fun _ _ _ => .skip (moves_expr ends _).weaken fun _ _ _ =>
      .skip (moves_further nofun) fun _ _ _ => .skip (moves_spanFrom _) fun _ _ _ => .pure _

theorem moves_assignment (ends : g.LeavesEnd) (target : Expr) (start : Position) :
    Moves (assignment g target start) 0 c := by
  refine .onKind ?_
  cases found : assignedValue? c.kind with
  | none => exact .skip (moves_further nofun) fun _ _ _ => .skip (moves_spanFrom _) fun _ _ _ => .pure _
  | some assigned =>
    have notEnd : c.kind ≠ .eof := ne_eof_of_some rfl found
    refine .ite (fun _ => ?_) fun _ => moves_fail _ _
    refine (Moves.advance notEnd fun _ _ => ?_).weaken
    exact .skip (moves_expr ends _).weaken fun _ _ _ => .skip (moves_further nofun) fun _ _ _ =>
      .skip (moves_spanFrom _) fun _ _ _ => .pure _

theorem moves_simple (ends : g.LeavesEnd) : Moves (simple g) 1 c := by
  refine .skip moves_here fun start _ _ => .first (moves_expr ends _) fun first _ _ => .look ?_
  refine .ite (fun _ => ?_) fun _ => moves_assignment ends first start
  cases first with
  | symbol text span => exact .skip moves_freshId fun _ _ _ => moves_declaration ends false _ start
  | name type => exact moves_declaration ends false type start
  | _ => exact moves_assignment ends _ start

section Blocks

variable {block : Parse (List Stmt)} {n : Nat}
  (inner : ∀ c, c.left.length ≤ n → Moves block 1 c)

include inner

theorem moves_loop (ends : g.LeavesEnd) (few : c.left.length ≤ n + 1) (notEnd : c.kind ≠ .eof) :
    Moves (loop g block) 1 c :=
  .advance notEnd fun _ _ => .skip (moves_condition ends).weaken fun _ _ _ =>
    .skip (inner _ (by omega)).weaken fun _ _ _ => .skip (moves_spanFrom _) fun _ _ _ => .pure _

theorem moves_arm (ends : g.LeavesEnd) (few : c.left.length ≤ n + 1) : Moves (arm g block) 1 c :=
  .first (moves_condition ends) fun _ _ _ => .skip (inner _ (by omega)).weaken fun _ _ _ => .pure _

theorem moves_branch (ends : g.LeavesEnd) (few : c.left.length ≤ n + 1) (notEnd : c.kind ≠ .eof) :
    Moves (branch g block) 1 c := by
  refine .advance notEnd fun _ _ => .skip (moves_arm inner ends (by omega)).weaken fun first c' _ => ?_
  refine .skip (moves_repeatWhile fun c'' _ elseIf => ?_) fun others _ _ => ?_
  · simp only [Bool.and_eq_true, decide_eq_true_eq] at elseIf
    refine .advance (by rw [elseIf.1]; nofun) fun _ isIf => ?_
    refine (Moves.advance (by rw [isIf, elseIf.2]; nofun) fun _ _ => ?_).weaken
    exact (moves_arm inner ends (by omega)).weaken
  · refine .skip (moves_consume nofun) fun hasLast _ _ => .ite (fun _ => ?_) fun _ => ?_
    · exact .skip (inner _ (by omega)).weaken fun _ _ _ => .skip (moves_spanFrom _) fun _ _ _ => .pure _
    · simp only [pure_bind]
      exact .skip (moves_spanFrom _) fun _ _ _ => .pure _

theorem moves_caseBody (ends : g.LeavesEnd) (few : c.left.length ≤ n) :
    Moves (caseBody g block) 1 c :=
  .onKind (.ite (fun _ => (inner c few).map _) fun _ => (moves_expr ends _).map _)

theorem moves_case (ends : g.LeavesEnd) (few : c.left.length ≤ n + 1) : Moves (case g block) 1 c :=
  .first (moves_expr ends _) fun _ _ _ => .skip (moves_further nofun) fun _ _ _ =>
    .skip (moves_caseBody inner ends (by omega)).weaken fun _ _ _ =>
      .skip (moves_separator _) fun _ _ _ => .pure _

theorem moves_lastCase (ends : g.LeavesEnd) (few : c.left.length ≤ n) :
    Moves (lastCase g block) 0 c :=
  .skip (moves_consume nofun) fun _ _ _ => .ite
    (fun _ => .skip (moves_further nofun) fun _ _ _ =>
      .skip (moves_caseBody inner ends (by omega)).weaken fun _ _ _ =>
        .skip (moves_separator _) fun _ _ _ => .pure _)
    fun _ => .pure _

theorem moves_select (ends : g.LeavesEnd) (few : c.left.length ≤ n + 1) (notEnd : c.kind ≠ .eof) :
    Moves (select g block) 1 c := by
  refine .advance notEnd fun _ _ => .skip (moves_condition ends).weaken fun subject _ _ => ?_
  refine .skip (moves_further nofun) fun _ _ _ => ?_
  refine .skip (moves_repeatWhile fun _ _ _ => moves_case inner ends (by omega)) fun cases _ _ => ?_
  refine .skip (moves_lastCase inner ends (by omega)) fun _ _ _ => ?_
  exact .skip (moves_further nofun) fun _ _ _ => .skip (moves_spanFrom _) fun _ _ _ => .pure _

omit inner in
theorem moves_returnWith (ends : g.LeavesEnd) (notEnd : c.kind ≠ .eof) :
    Moves (returnWith g) 1 c := by
  refine .advance notEnd fun _ _ => .onKind (.ite (fun _ => ?_) fun _ => ?_)
  · rw [pure_bind]
    exact .skip (moves_further nofun) fun _ _ _ => .skip (moves_spanFrom _) fun _ _ _ => .pure _
  · exact .skip ((moves_expr ends _).map _).weaken fun _ _ _ => .skip (moves_further nofun)
      fun _ _ _ => .skip (moves_spanFrom _) fun _ _ _ => .pure _

omit inner in
theorem moves_control {build : Span → Stmt} (notEnd : c.kind ≠ .eof) :
    Moves (control build) 1 c :=
  .advance notEnd fun _ _ => .skip (moves_further nofun) fun _ _ _ =>
    .skip (moves_spanFrom _) fun _ _ _ => .pure _

omit inner in
theorem moves_declareMutable (ends : g.LeavesEnd) (notEnd : c.kind ≠ .eof) :
    Moves (declareMutable g) 1 c :=
  .advance notEnd fun _ _ => .skip moves_name.weaken fun _ _ _ => moves_declaration ends true _ _

theorem moves_formStmt (ends : g.LeavesEnd) (few : c.left.length ≤ n + 1) (notEnd : c.kind ≠ .eof)
    (form : StmtForm) : Moves (formStmt g block form) 1 c := by
  cases form with
  | loop => exact moves_loop inner ends few notEnd
  | branch => exact moves_branch inner ends few notEnd
  | returnWith => exact moves_returnWith ends notEnd
  | select => exact moves_select inner ends few notEnd
  | breakLoop => exact moves_control notEnd
  | continueLoop => exact moves_control notEnd
  | declareMutable => exact moves_declareMutable ends notEnd

end Blocks

theorem moves_blockOf {stmt : Parse Stmt} {n : Nat} (few : c.left.length ≤ n + 1)
    (inner : ∀ c, c.left.length ≤ n → Moves stmt 1 c) : Moves (blockOf stmt) 1 c :=
  .first (moves_expect nofun) fun _ _ _ =>
    .skip (moves_repeatWhile fun _ _ _ => inner _ (by omega)) fun _ _ _ =>
      .skip (moves_further nofun) fun _ _ _ => .pure _

theorem moves_stmtUpTo (ends : g.LeavesEnd) (n : Nat) (few : c.left.length ≤ n) :
    Moves (stmtUpTo g n) 1 c := by
  induction n generalizing c with
  | zero =>
    have some := c.length_left_pos
    omega
  | succ n ih =>
    have inner (c : Cursor) (few : c.left.length ≤ n) : Moves (blockOf (stmtUpTo g n)) 1 c :=
      moves_blockOf (Nat.le_succ_of_le few) fun c few => ih few
    refine .onKind ?_
    cases found : g.stmt c.kind with
    | some form => exact moves_formStmt inner ends few (ne_eof_of_some ends.stmt found) form
    | none => exact moves_simple ends

/-- **A statement takes a token.** -/
theorem moves_stmt (ends : g.LeavesEnd) : Moves (stmt g) 1 c :=
  .look (moves_stmtUpTo ends _ (Nat.le_refl _))

theorem moves_block (ends : g.LeavesEnd) : Moves (block g) 1 c :=
  moves_blockOf (Nat.le_succ c.left.length) fun _ _ => moves_stmt ends

/-! ## Declarations -/

theorem moves_field (ends : g.LeavesEnd) : Moves (field g) 1 c := by
  refine .skip moves_here fun start _ _ => .skip (moves_consume nofun) fun isMutable _ _ => ?_
  refine .first moves_name fun type _ _ => .skip moves_arrayMark fun isArray _ _ => ?_
  refine .skip (moves_further nofun) fun token _ _ => .skip (moves_consume nofun) fun _ _ _ => ?_
  refine .ite (fun _ => ?_) fun _ => ?_
  · exact .skip ((moves_expr ends _).map _).weaken fun _ _ _ => .skip (moves_further nofun)
      fun _ _ _ => .skip (moves_spanFrom _) fun _ _ _ => .pure _
  · rw [pure_bind]
    exact .skip (moves_further nofun) fun _ _ _ => .skip (moves_spanFrom _) fun _ _ _ => .pure _

theorem moves_structMember (ends : g.LeavesEnd) {inner : Parse StructDecl}
    (each : Moves inner 1 c) : Moves (structMember g inner) 1 c := by
  refine .onKind ?_
  split
  · exact each.map _
  · exact each.map _
  · exact (moves_field ends).map _

theorem moves_bases : Moves bases 0 c :=
  .skip (moves_consume nofun) fun _ _ _ =>
    .ite (fun _ => moves_separated fun _ _ => moves_name) fun _ => .pure _

theorem moves_structUpTo (ends : g.LeavesEnd) (n : Nat) (few : c.left.length ≤ n) :
    Moves (structUpTo g n) 1 c := by
  induction n generalizing c with
  | zero =>
    have some := c.length_left_pos
    omega
  | succ n ih =>
    refine .skip moves_here fun start _ _ => .skip (moves_consume nofun) fun isClosed _ _ => ?_
    refine .first (moves_expect nofun) fun _ _ _ => .skip (moves_further nofun) fun token _ _ => ?_
    refine .skip moves_typeParameters fun parameters _ _ => .skip moves_bases fun bases _ _ => ?_
    refine .skip (moves_further nofun) fun _ _ _ => ?_
    refine .skip (moves_repeatUntil fun _ _ => moves_structMember ends (ih (by omega)))
      fun members _ _ => ?_
    exact .skip (moves_further nofun) fun _ _ _ => .skip (moves_spanFrom _) fun _ _ _ => .pure _

theorem moves_struct (ends : g.LeavesEnd) : Moves (struct g) 1 c :=
  .look (moves_structUpTo ends _ (Nat.le_refl _))

theorem moves_parameter : Moves parameter 1 c :=
  .skip moves_here fun _ _ _ => .first moves_name fun _ _ _ => .skip moves_arrayMark fun _ _ _ =>
    .skip (moves_further nofun) fun _ _ _ => .skip (moves_separator _) fun _ _ _ =>
      .skip (moves_spanFrom _) fun _ _ _ => .pure _

theorem moves_inputs : Moves inputs 0 c :=
  .skip (moves_further nofun) fun _ _ _ =>
    .skip (moves_repeatUntil fun _ _ => moves_parameter) fun _ _ _ =>
      .skip (moves_further nofun) fun _ _ _ => .pure _

theorem moves_output : Moves output 0 c :=
  .skip (moves_further nofun) fun _ _ _ => .skip moves_name.weaken fun _ _ _ =>
    .skip moves_arrayMark fun _ _ _ => .pure _

theorem moves_function (ends : g.LeavesEnd) : Moves (function g) 1 c :=
  .skip moves_here fun _ _ _ => .skip (moves_consume nofun) fun _ _ _ =>
    .first (moves_expect nofun) fun _ _ _ => .skip moves_typeParameters fun _ _ _ =>
      .skip moves_name.weaken fun _ _ _ => .skip moves_inputs fun _ _ _ =>
        .skip moves_output fun _ _ _ => .skip (moves_block ends).weaken fun _ _ _ =>
          .skip (moves_spanFrom _) fun _ _ _ => .pure _

theorem moves_method : Moves method 1 c :=
  .skip moves_here fun _ _ _ => .skip (moves_consume nofun) fun _ _ _ =>
    .first (moves_expect nofun) fun _ _ _ => .skip (moves_further nofun) fun _ _ _ =>
      .skip moves_inputs fun _ _ _ => .skip moves_output fun _ _ _ =>
        .skip (moves_further nofun) fun _ _ _ => .skip (moves_spanFrom _) fun _ _ _ => .pure _

theorem moves_interface (notEnd : c.kind ≠ .eof) : Moves interface 1 c :=
  .advance notEnd fun _ _ => .skip (moves_further nofun) fun _ _ _ =>
    .skip moves_typeParameters fun _ _ _ => .skip (moves_further nofun) fun _ _ _ =>
      .skip (moves_repeatUntil fun _ _ => moves_method) fun _ _ _ =>
        .skip (moves_further nofun) fun _ _ _ => .skip (moves_spanFrom _) fun _ _ _ => .pure _

theorem moves_synonym (notEnd : c.kind ≠ .eof) : Moves synonym 1 c :=
  .advance notEnd fun _ _ => .skip (moves_further nofun) fun _ _ _ =>
    .skip (moves_further nofun) fun _ _ _ => .skip moves_name.weaken fun _ _ _ =>
      .skip (moves_further nofun) fun _ _ _ => .skip (moves_spanFrom _) fun _ _ _ => .pure _

theorem moves_enum (notEnd : c.kind ≠ .eof) : Moves enum 1 c := by
  have value (c : Cursor) : Moves enumValue 1 c :=
    .first (moves_expect nofun) fun _ _ _ => .pure _
  exact .advance notEnd fun _ _ => .skip (moves_further nofun) fun _ _ _ =>
    .skip (moves_further nofun) fun _ _ _ => .skip (moves_separated fun _ _ => value _) fun _ _ _ =>
      .skip (moves_further nofun) fun _ _ _ => .skip (moves_spanFrom _) fun _ _ _ => .pure _

/-- **A declaration takes a token.** -/
theorem moves_decl (ends : g.LeavesEnd) : Moves (decl g) 1 c := by
  refine .onKind ?_
  cases found : g.decl c.kind with
  | none => exact moves_unexpected _
  | some form =>
    have notEnd := ne_eof_of_some ends.decl found
    cases form with
    | struct => exact (moves_struct ends).map _
    | function => exact (moves_function ends).map _
    | interface => exact (moves_interface notEnd).map _
    | synonym => exact (moves_synonym notEnd).map _
    | enum => exact (moves_enum notEnd).map _

/-! ## Files -/

theorem moves_moduleTexts : Moves moduleTexts 1 c := by
  refine .skip (moves_repeatWhile fun c' _ dotted => ?_) fun front c' _ => ?_
  · simp only [Bool.and_eq_true, decide_eq_true_eq] at dotted
    refine .advance (by rw [dotted.1]; nofun) fun _ isDot => ?_
    have dot : c'.next.kind ≠ .eof := by
      rw [isDot, dotted.2]
      nofun
    have taken : Moves (advance >>= fun _ => pure c'.current.text) 1 c'.next :=
      .advance dot fun _ _ => .pure _
    exact taken.weaken
  · exact moves_consume_bind nofun (fun _ => .pure _) fun _ =>
      .first (moves_expect nofun) fun _ _ _ => .pure _

/-- The import behind its word. -/
theorem moves_importPath (notEnd : c.kind ≠ .eof) : Moves importPath 1 c :=
  .advance notEnd fun _ _ => .skip moves_moduleTexts.weaken fun _ _ _ =>
    .skip (moves_further nofun) fun _ _ _ => .skip (moves_spanFrom _) fun _ _ _ => .pure _

theorem moves_exportPath : Moves exportPath 1 c :=
  .skip moves_here fun _ _ _ => .first moves_moduleTexts fun _ _ _ =>
    .skip (moves_spanFrom _) fun _ _ _ => .pure _

theorem moves_exports (notEnd : c.kind ≠ .eof) : Moves exports 1 c :=
  .advance notEnd fun _ _ => .skip (moves_further nofun) fun _ _ _ =>
    .skip (moves_separated fun _ _ => moves_exportPath) fun _ _ _ =>
      .skip (moves_further nofun) fun _ _ _ => .pure _

/-- **An item of a file takes a token.** -/
theorem moves_item (ends : g.LeavesEnd) (sofar : Contents) : Moves (item g sofar) 1 c := by
  refine .onKind ?_
  split
  next here => exact .first (moves_importPath (by rw [here]; nofun)) fun _ _ _ => .pure _
  next here =>
    cases sofar.exports with
    | none => exact .first (moves_exports (by rw [here]; nofun)) fun _ _ _ => .pure _
    | some paths => exact .skip moves_here fun _ _ _ => moves_fail _ _
  next => exact .first (moves_decl ends) fun _ _ _ => .pure _

theorem moves_file (ends : g.LeavesEnd) : Moves (file g) 0 c :=
  .skip (moves_growWhile _ fun sofar _ _ _ => moves_item ends sofar) fun _ _ _ =>
    .look (.pure _)

end Parse

/-! ## The cursor of a file -/

namespace Cursor

variable {c later : Cursor}

/-- **A cursor stands validly** on tokens that are none of them comments and that end: its index is
one of theirs, and no token of the end stands at a lower one. -/
structure Valid (c : Cursor) : Prop where
  nonempty : c.tokens ≠ []
  noComment : ∀ token ∈ c.tokens, token.kind ≠ .comment
  ends : c.Ends
  within : c.tokens[c.index]? = some c.current
  clear : ∀ i < c.index, ∀ token ∈ c.tokens[i]?, token.kind ≠ .eof

theorem tokens_ne_nil (c : Cursor) : c.tokens ≠ [] := by
  simp [tokens]

theorem current_eq (c : Cursor) : c.tokens[c.index]? = some c.current := by
  simp [tokens, index]

/-- A token at a lower index is one of those behind. -/
theorem mem_behind {i : Nat} (lower : i < c.index) {token : Token}
    (at_i : token ∈ c.tokens[i]?) : token ∈ c.behind := by
  rw [tokens, List.getElem?_append_left (by simpa [index] using lower)] at at_i
  exact List.mem_reverse.1 (List.mem_of_getElem? at_i)

/-- The tokens behind a token, once closed, end with one of the end. -/
theorem getLast?_closed (last : Token) (rest : List Token) :
    ((last :: closed last rest).map Token.kind).getLast? = some .eof := by
  induction rest generalizing last with
  | nil =>
    unfold closed
    split
    next isEnd => simp [isEnd]
    next => simp [Token.ending]
  | cons token rest ih => simpa [closed] using ih token

theorem mem_closed {last token : Token} {rest : List Token} (mem : token ∈ closed last rest) :
    token ∈ rest ∨ token.kind = .eof := by
  induction rest generalizing last with
  | nil =>
    unfold closed at mem
    split at mem
    · cases mem
    · rw [List.mem_singleton.1 mem]
      exact .inr rfl
  | cons first rest ih =>
    rcases List.mem_cons.1 mem with rfl | mem
    · exact .inl (List.mem_cons_self ..)
    · exact (ih mem).imp_left (List.mem_cons_of_mem _)

theorem ends_ofTokens (tokens : List Token) (firstId : Nat) : (ofTokens tokens firstId).Ends := by
  unfold ofTokens
  split
  · rfl
  · exact getLast?_closed _ _

/-- The tokens of the cursor that enters a sequence are those of the sequence that are no comments,
and perhaps one of the end. -/
theorem mem_ofTokens {tokens : List Token} {firstId : Nat} {token : Token}
    (mem : token ∈ (ofTokens tokens firstId).tokens) :
    token ∈ tokens ∧ token.kind ≠ .comment ∨ token.kind = .eof := by
  unfold ofTokens at mem
  split at mem
  · rw [List.mem_singleton.1 mem]
    exact .inr rfl
  next first rest kept =>
    have known : ∀ token ∈ first :: rest, token ∈ tokens ∧ token.kind ≠ .comment := by
      rw [← kept]
      simp
    rcases List.mem_cons.1 mem with rfl | mem
    · exact .inl (known _ (List.mem_cons_self ..))
    · exact (mem_closed mem).imp_left fun mem => known _ (List.mem_cons_of_mem _ mem)

theorem noComment_ofTokens (tokens : List Token) (firstId : Nat) :
    ∀ token ∈ (ofTokens tokens firstId).tokens, token.kind ≠ .comment := by
  intro token mem
  rcases mem_ofTokens mem with ⟨-, notComment⟩ | isEnd
  · exact notComment
  · rw [isEnd]
    nofun

/-- **Every cursor that the start of a sequence walks to is valid.** -/
theorem Walks.valid {tokens : List Token} {firstId : Nat}
    (walks : (ofTokens tokens firstId).Walks c) : c.Valid := by
  have clear : c.Clear := walks.clear fun token mem => by
    rw [behind_ofTokens] at mem
    cases mem
  refine ⟨c.tokens_ne_nil, ?_, walks.ends (ends_ofTokens _ _), c.current_eq, ?_⟩
  · rw [walks.tokens_eq]
    exact noComment_ofTokens tokens firstId
  · exact fun i lower token at_i => clear token (mem_behind lower at_i)

end Cursor

namespace Parse

open Token

variable {α β : Type} {action : Parse α} {c : Cursor}

/-- **A call of an action makes progress**: it returns, with a value or a diagnostic, it leaves the
cursor further along the walk, and at a higher index where it returns a value. -/
structure Progresses (action : Parse α) (c : Cursor) : Prop where
  returns : ∀ c', action c ≠ .error .exhausted c'
  walks : ∀ value c', action c = .ok value c' → c.Walks c'
  walksToFault : ∀ halt c', action c = .error halt c' → c.Walks c'
  further : ∀ value c', action c = .ok value c' → c.index < c'.index

theorem Progresses.of_moves (ends : c.Ends) (moves : Moves action 1 c) : Progresses action c := by
  have moved := moves ends
  refine ⟨?_, ?_, ?_, ?_⟩
  · intro c' run
    rw [run] at moved
    cases moved with
    | halted _ notBudget => exact notBudget rfl
  · intro value c' run
    rw [run] at moved
    cases moved with
    | ended walks _ => exact walks
  · intro halt c' run
    rw [run] at moved
    cases moved with
    | halted walks _ => exact walks
  · intro value c' run
    rw [run] at moved
    cases moved with
    | ended walks fewer =>
      have total := c.index_add_length_left
      have totalThen := c'.index_add_length_left
      rw [walks.tokens_eq] at totalThen
      omega

/-- An action that takes a token makes progress behind a token taken whatever it is. On the last
token, where nothing is passed, it is the action alone that does. -/
theorem index_lt_of_advance {next : Token → Parse β} (ends : c.Ends)
    (behind : ∀ token, Moves (next token) 1 c.next) {value : β} {c' : Cursor}
    (run : (advance >>= next) c = .ok value c') : c.index < c'.index := by
  have endsToo := ends.next
  have notLess : c.index ≤ c.next.index := by
    rw [c.index_next]
    split <;> omega
  have further := (Progresses.of_moves endsToo (behind c.current)).further value c' run
  omega

end Parse

/-- **A file is parsed within its budget**, whatever the tokens and the first number. -/
theorem File.ofTokens_ne_exhausted (tokens : List Token) (firstId : Nat) :
    File.ofTokens tokens firstId ≠ .error .exhausted := by
  have moved := Parse.moves_file Grammar.leavesEnd_standard (Cursor.ends_ofTokens tokens firstId)
  unfold ofTokens
  rw [EStateM.run]
  cases run : Parse.file .standard (.ofTokens tokens firstId) with
  | ok file c => nofun
  | error halt c =>
    rw [run] at moved
    cases moved with
    | halted _ notBudget => exact fun same => notBudget (Except.error.inj same)

/-- **Parsing terminates with a valid cursor.** Whatever the tokens and the first number, a file is
parsed within its budget, along a walk from the start. Every cursor on a walk from the start is
valid, and no later one has a lower index. From each of them a call for a name, an expression, a
statement, a block or a declaration makes progress, and so does one for an import or for exports,
which begins behind a word of its own. -/
theorem File.ofTokens_terminates (tokens : List Token) (firstId : Nat) :
    let start := Cursor.ofTokens tokens firstId
    File.ofTokens tokens firstId ≠ .error .exhausted ∧
    Moved start 0 (Parse.file .standard start) ∧
    ∀ c, start.Walks c → c.Valid ∧ c.tokens = start.tokens ∧
      (∀ later, c.Walks later → c.index ≤ later.index) ∧
      Parse.Progresses Parse.name c ∧
      (∀ precedence, Parse.Progresses (Parse.expr .standard precedence) c) ∧
      Parse.Progresses (Parse.stmt .standard) c ∧ Parse.Progresses (Parse.block .standard) c ∧
      Parse.Progresses (Parse.decl .standard) c ∧
      (c.kind ≠ .eof → Parse.Progresses Parse.importPath c ∧ Parse.Progresses Parse.exports c) ∧
      (∀ value c', Parse.importPath c = .ok value c' → c.index < c'.index) ∧
      ∀ value c', Parse.exports c = .ok value c' → c.index < c'.index := by
  intro start
  have leaves := Grammar.leavesEnd_standard
  have moved : Moved start 0 (Parse.file .standard start) :=
    Parse.moves_file leaves (Cursor.ends_ofTokens tokens firstId)
  refine ⟨?_, moved, fun c walks => ?_⟩
  · cases run : Parse.file .standard start with
    | ok file c =>
      rw [ofTokens, EStateM.run, run]
      intro same
      cases same
    | error halt c =>
      rw [run] at moved
      cases moved with
      | halted _ notBudget =>
        rw [ofTokens, EStateM.run, run]
        exact fun same => notBudget (Except.error.inj same)
  · have ends := walks.ends (Cursor.ends_ofTokens tokens firstId)
    have progress {α : Type} {action : Parse α} (moves : Moves action 1 c) :
        Parse.Progresses action c := .of_moves ends moves
    refine ⟨walks.valid, walks.tokens_eq, fun later => Cursor.Walks.index_le,
      progress Parse.moves_name, fun _ => progress (Parse.moves_expr leaves _),
      progress (Parse.moves_stmt leaves), progress (Parse.moves_block leaves),
      progress (Parse.moves_decl leaves), fun notEnd => ?_, fun value c' run => ?_,
      fun value c' run => ?_⟩
    · exact ⟨progress (Parse.moves_importPath notEnd), progress (Parse.moves_exports notEnd)⟩
    · refine Parse.index_lt_of_advance ends (fun _ => ?_) run
      exact .first Parse.moves_moduleTexts fun _ _ _ => .skip (Parse.moves_further (by decide))
        fun _ _ _ => .skip (Parse.moves_spanFrom _) fun _ _ _ => .pure _
    · refine Parse.index_lt_of_advance ends (fun _ => ?_) run
      exact .first (Parse.moves_expect (by decide)) fun _ _ _ =>
        .skip (Parse.moves_separated fun _ _ => Parse.moves_exportPath) fun _ _ _ =>
          .skip (Parse.moves_further (by decide)) fun _ _ _ => .pure _

end FrontEnd

import FrontEnd.Grammar.Decl
import FrontEnd.Proofs.Grammar.Carrying

/-!
# Parsing files commutes with relabelling

The rules of carrying, applied to expressions, statements, declarations and files, in the order in
which these are built from each other.

**The law** (`File.ofTokens_shift`): the first number of a file is only an offset. The same tokens
are read from every first number or from none, with the same diagnostic, and what they write differs
by a shift of all numbers.
-/

namespace FrontEnd

namespace Parse

open Token

variable {m : Relabel} {g : Grammar}

/-! ## What begins an expression -/

theorem commutes_literal {α : Type} {read : String → Option α} {build : α → Span → Expr}
    (plain : ∀ value span, (build value span).relabel m = build value (m.span span)) :
    Commutes m (literal read build) (Expr.relabel m) := by
  refine .bind commutes_advance fun token => ?_
  obtain ⟨kind, text, span⟩ := token
  dsimp only [Relabel.token]
  cases read text with
  | some value => exact .pure (plain value span)
  | none => exact commutes_fail _ _

theorem commutes_textLiteral {build : String → Span → Expr}
    (plain : ∀ value span, (build value span).relabel m = build value (m.span span)) :
    Commutes m (textLiteral build) (Expr.relabel m) :=
  .bind commutes_advance fun token => .pure (plain token.text token.span)

theorem commutes_primary (counts : m.Counts) : Commutes m primary (Expr.relabel m) := by
  refine .plain commutes_kind fun kind => ?_
  split
  · exact commutes_literal fun _ _ => rfl
  · exact commutes_literal fun _ _ => rfl
  · exact .bind commutes_advance fun _ => .pure rfl
  · exact .bind commutes_advance fun _ => .pure rfl
  · exact commutes_textLiteral fun _ _ => rfl
  · exact commutes_textLiteral fun _ _ => rfl
  · refine .bind (commutes_identifier counts) fun found => ?_
    cases found with
    | plain text span => exact .pure rfl
    | applied segment =>
      refine .pure ?_
      rw [Expr.relabel, Name.relabel, relabelSegments_eq, Segment.span_relabel]
      rfl
  · exact commutes_unexpected _

section Inner

variable {expr : Precedence → Parse Expr} (inner : ∀ p, Commutes m (expr p) (Expr.relabel m))

include inner

theorem commutes_sign : Commutes m (sign expr) (Expr.relabel m) := by
  refine .bind commutes_advance fun token => .bind (inner _) fun operand => ?_
  obtain ⟨kind, text, span⟩ := token
  dsimp only [Relabel.token]
  split
  · refine .pure ?_
    rw [Expr.span_relabel, Expr.relabel]
    rfl
  · exact .pure (Expr.relabel_operation ..)
  · exact .pure (Expr.relabel_operation ..)
  · exact .pure (Expr.relabel_operation ..)
  · exact commutes_fail _ _

theorem commutes_group : Commutes m (group expr) (Expr.relabel m) :=
  .bind commutes_advance fun _ => .bind (inner _) fun _ =>
    .bind (commutes_expect _) fun _ => .pure rfl

theorem commutes_fieldValue :
    Commutes m (fieldValue expr) (Prod.map (fun name => name) (Expr.relabel m)) := by
  refine .bind (commutes_expect _) fun _ => .bind (commutes_expect _) fun token => ?_
  refine .plain commutes_kind fun kind => ?_
  split
  · exact .pure rfl
  · exact .pure rfl
  · exact .bind (commutes_expect _) fun _ => .bind (inner _) fun value => .pure rfl

theorem commutes_structLiteral : Commutes m (structLiteral expr) (Expr.relabel m) := by
  refine .bind commutes_here fun start => .plain (commutes_consume _) fun isMutable => ?_
  refine .bind (commutes_expect _) fun _ => ?_
  refine .bind (commutes_separated (commutes_fieldValue inner) _) fun fields => ?_
  refine .bind (commutes_expect _) fun _ => .bind (carries_spanFrom _) fun span => .pure ?_
  rw [Expr.relabel, relabelFields_eq]
  rfl

theorem commutes_arrayLiteral : Commutes m (arrayLiteral expr) (Expr.relabel m) := by
  refine .bind commutes_here fun start => .bind (commutes_expect _) fun _ => ?_
  refine .bind (commutes_separated (inner _) _) fun values => ?_
  refine .bind (commutes_expect _) fun _ => .bind (carries_spanFrom _) fun span => .pure ?_
  rw [Expr.relabel, relabelExprs_eq]

theorem commutes_lead (counts : m.Counts) (form : Lead) :
    Commutes m (lead expr form) (Expr.relabel m) := by
  cases form with
  | primary => exact commutes_primary counts
  | sign => exact commutes_sign inner
  | group => exact commutes_group inner
  | structLiteral => exact commutes_structLiteral inner
  | arrayLiteral => exact commutes_arrayLiteral inner

/-! ## What continues an expression -/

theorem carries_binary (left : Expr) (precedence : Precedence) :
    Carries m (binary expr left precedence) (binary expr (left.relabel m) precedence)
      (Expr.relabel m) := by
  refine .bind commutes_advance fun token => ?_
  obtain ⟨kind, text, span⟩ := token
  dsimp only [Relabel.token]
  cases Operator.ofKind? kind with
  | none => exact commutes_fail _ _
  | some operator => exact .bind (inner _) fun right => .pure (Expr.relabel_operation ..)

theorem carries_call (left : Expr) :
    Carries m (call expr left) (call expr (left.relabel m)) (Expr.relabel m) := by
  refine .bind commutes_advance fun _ => .bind (commutes_separated (inner _) _) fun arguments => ?_
  rw [Expr.span_relabel]
  refine .bind (commutes_expect _) fun _ => .bind (carries_spanFrom _) fun span => .pure ?_
  rw [Expr.relabel, relabelExprs_eq]

theorem carries_index (left : Expr) :
    Carries m (index expr left) (index expr (left.relabel m)) (Expr.relabel m) := by
  refine .bind commutes_advance fun _ => .bind (inner _) fun position => ?_
  rw [Expr.span_relabel]
  exact .bind (commutes_expect _) fun _ => .bind (carries_spanFrom _) fun span => .pure rfl

omit inner in
theorem carries_member (counts : m.Counts) (left : Expr) :
    Carries m (member left) (member (left.relabel m)) (Expr.relabel m) := by
  refine .bind commutes_advance fun _ => ?_
  have select (base : Expr) : Carries m
      (do
        let token ← expect .identifier
        return .member base token.text (← spanFrom base.span.start))
      (do
        let token ← expect .identifier
        return .member (base.relabel m) token.text (← spanFrom (base.relabel m).span.start))
      (Expr.relabel m) := by
    refine .bind (commutes_expect _) fun token => ?_
    rw [Expr.span_relabel]
    exact .bind (carries_spanFrom _) fun span => .pure rfl
  cases left with
  | symbol text span =>
    refine .bind (commutes_freshId counts) fun id => .bind (commutes_segment counts) fun second => ?_
    refine .bind (carries_spanFrom _) fun span => .pure ?_
    rw [Expr.relabel, Name.relabel, relabelSegments_eq]
    rfl
  | name name =>
    refine .bind (commutes_segment counts) fun next => ?_
    rw [Name.span_relabel]
    refine .bind (carries_spanFrom _) fun span => .pure ?_
    rw [Expr.relabel, Name.relabel, relabelSegments_eq, Name.segments_relabel, List.map_append]
    rfl
  | _ => exact select _

theorem carries_extend (counts : m.Counts) (left : Expr) :
    Carries m (extend g expr left) (extend g expr (left.relabel m)) (Expr.relabel m) := by
  refine .plain commutes_kind fun kind => ?_
  cases g.follow kind with
  | none => exact .pure rfl
  | some form =>
    cases form with
    | binary => exact carries_binary inner left _
    | call => exact carries_call inner left
    | index => exact carries_index inner left
    | member => exact carries_member counts left

theorem commutes_opening (counts : m.Counts) :
    Commutes m (opening g expr) (Expr.relabel m) := by
  refine .bind commutes_get fun c => ?_
  rw [m.kind_cursor, m.here_cursor]
  cases g.lead c.kind with
  | none => exact commutes_fail _ _
  | some form => exact commutes_lead inner counts form

end Inner

theorem continues_cursor (m : Relabel) (g : Grammar) (precedence : Precedence) (c : Cursor) :
    continues g precedence (m.cursor c) = continues g precedence c := by
  rw [continues, continues, m.kind_cursor, m.peek_cursor]

theorem commutes_exprUpTo (counts : m.Counts) (n : Nat) (precedence : Precedence) :
    Commutes m (exprUpTo g n precedence) (Expr.relabel m) := by
  induction n generalizing precedence with
  | zero => exact commutes_exhausted
  | succ n ih =>
    refine .bind (commutes_opening ih counts) fun first => ?_
    exact commutes_growWhile (continues_cursor m g precedence) (carries_extend ih counts) first

/-- **Parsing an expression commutes with relabelling.** -/
theorem commutes_expr (counts : m.Counts) (precedence : Precedence) :
    Commutes m (expr g precedence) (Expr.relabel m) := by
  refine .bind commutes_get fun c => ?_
  rw [m.length_left_cursor]
  exact commutes_exprUpTo counts _ precedence

/-! ## Statements -/

theorem commutes_condition (counts : m.Counts) : Commutes m (condition g) (Expr.relabel m) :=
  .bind (commutes_expect _) fun _ => .bind (commutes_expr counts _) fun _ =>
    .bind (commutes_expect _) fun _ => .pure rfl

theorem carries_declaration (counts : m.Counts) (isMutable : Bool) (type : Name)
    (start : Position) :
    Carries m (declaration g isMutable type start)
      (declaration g isMutable (type.relabel m) (m.position start)) (Stmt.relabel m) :=
  .plain commutes_arrayMark fun _ => .bind (commutes_expect _) fun _ =>
    .bind (commutes_expect _) fun _ => .bind (commutes_expr counts _) fun _ =>
      .bind (commutes_expect _) fun _ => .bind (carries_spanFrom _) fun _ => .pure rfl

/-- What an assignment makes of its two sides commutes with relabelling. -/
theorem relabel_assignedValue {kind : Kind} {assigned : Expr → Expr → Expr}
    (found : assignedValue? kind = some assigned) (target value : Expr) :
    (assigned target value).relabel m = assigned (target.relabel m) (value.relabel m) := by
  rcases assignedValue?_cases found with ⟨-, rfl⟩ | ⟨-, operator, rfl⟩
  · rfl
  · exact Expr.relabel_operation ..

theorem carries_assignment (counts : m.Counts) (target : Expr) (start : Position) :
    Carries m (assignment g target start)
      (assignment g (target.relabel m) (m.position start)) (Stmt.relabel m) := by
  refine .plain commutes_kind fun kind => ?_
  cases found : assignedValue? kind with
  | none =>
    exact .bind (commutes_expect _) fun _ => .bind (carries_spanFrom _) fun _ => .pure rfl
  | some assigned =>
    dsimp only
    rw [Expr.isAssignable_relabel, Expr.form_relabel, Expr.span_relabel]
    refine .ite (fun _ => ?_) (fun _ => commutes_fail _ _)
    refine .bind commutes_advance fun _ => .bind (commutes_expr counts _) fun value => ?_
    refine .bind (commutes_expect _) fun _ => .bind (carries_spanFrom _) fun span => .pure ?_
    rw [Stmt.relabel, relabel_assignedValue found]

theorem declares_cursor (m : Relabel) (c : Cursor) : declares (m.cursor c) = declares c := by
  rw [declares, declares, m.kind_cursor, m.peek_cursor, m.peek_cursor]

theorem commutes_simple (counts : m.Counts) : Commutes m (simple g) (Stmt.relabel m) := by
  refine .bind commutes_here fun start => .bind (commutes_expr counts _) fun first => ?_
  refine .bind commutes_get fun c => ?_
  rw [declares_cursor]
  refine .ite (fun _ => ?_) (fun _ => carries_assignment counts first start)
  cases first with
  | symbol text span =>
    exact .bind (commutes_freshId counts) fun id => carries_declaration counts false _ start
  | name type => exact carries_declaration counts false type start
  | _ => exact carries_assignment counts _ start

section Blocks

variable {block : Parse (List Stmt)} (inner : Commutes m block (List.map (Stmt.relabel m)))

include inner

theorem commutes_loop (counts : m.Counts) : Commutes m (loop g block) (Stmt.relabel m) := by
  refine .bind commutes_advance fun token => .bind (commutes_condition counts) fun condition => ?_
  refine .bind inner fun body => .bind (carries_spanFrom _) fun span => .pure ?_
  rw [Stmt.relabel, relabelStmts_eq]

theorem commutes_arm (counts : m.Counts) : Commutes m (arm g block) (Arm.relabel m) := by
  refine .bind (commutes_condition counts) fun condition => .bind inner fun body => .pure ?_
  rw [Arm.relabel, relabelStmts_eq]

theorem commutes_branch (counts : m.Counts) : Commutes m (branch g block) (Stmt.relabel m) := by
  have arm := commutes_arm (g := g) inner counts
  refine .bind commutes_advance fun token => .bind arm fun first => ?_
  refine .bind (commutes_repeatWhile (fun c => by rw [m.kind_cursor, m.peek_cursor])
    (.bind commutes_advance fun _ => .bind commutes_advance fun _ => arm)) fun others => ?_
  refine .plain (commutes_consume _) fun hasLast => .ite (fun _ => ?_) (fun _ => ?_)
  · refine .bind inner fun otherwise => .bind (carries_spanFrom _) fun span => .pure ?_
    rw [Stmt.relabel, relabelArms_eq, relabelStmts_eq]
  · simp only [pure_bind]
    refine .bind (carries_spanFrom _) fun span => .pure ?_
    rw [Stmt.relabel, relabelArms_eq, relabelStmts]

theorem commutes_caseBody (counts : m.Counts) :
    Commutes m (caseBody g block) (CaseBody.relabel m) := by
  refine .plain commutes_kind fun kind => .ite (fun _ => ?_) (fun _ => ?_)
  · refine .map inner fun body => ?_
    rw [CaseBody.relabel, relabelStmts_eq]
  · exact .map (commutes_expr counts _) fun _ => rfl

theorem commutes_case (counts : m.Counts) : Commutes m (case g block) (Case.relabel m) := by
  refine .bind (commutes_expr counts _) fun pattern => .bind (commutes_expect _) fun _ => ?_
  exact .bind (commutes_caseBody inner counts) fun body =>
    .plain (commutes_separator _) fun _ => .pure rfl

theorem commutes_lastCase (counts : m.Counts) :
    Commutes m (lastCase g block) (Option.map (CaseBody.relabel m)) := by
  refine .plain (commutes_consume _) fun hasLast => .ite (fun _ => ?_) (fun _ => .pure rfl)
  refine .bind (commutes_expect _) fun _ => .bind (commutes_caseBody inner counts) fun body => ?_
  exact .plain (commutes_separator _) fun _ => .pure rfl

theorem commutes_select (counts : m.Counts) : Commutes m (select g block) (Stmt.relabel m) := by
  refine .bind commutes_advance fun token => .bind (commutes_condition counts) fun subject => ?_
  refine .bind (commutes_expect _) fun _ => ?_
  refine .bind (commutes_repeatWhile (fun c => by rw [m.kind_cursor])
    (commutes_case inner counts)) fun cases => ?_
  refine .bind (commutes_lastCase inner counts) fun otherwise => .bind (commutes_expect _) fun _ => ?_
  refine .bind (carries_spanFrom _) fun span => .pure ?_
  rw [Stmt.relabel, relabelCases_eq, relabelLast_eq]

omit inner in
theorem commutes_returnWith (counts : m.Counts) :
    Commutes m (returnWith g) (Stmt.relabel m) := by
  have value : Commutes m (some <$> expr g .loosest) (Option.map (Expr.relabel m)) :=
    .map (commutes_expr counts _) fun _ => rfl
  refine .bind commutes_advance fun token => .plain commutes_kind fun kind => ?_
  refine .ite (fun _ => ?_) (fun _ => ?_)
  · rw [pure_bind]
    exact .bind (commutes_expect _) fun _ => .bind (carries_spanFrom _) fun _ => .pure rfl
  · refine .bind value fun value => .bind (commutes_expect _) fun _ => ?_
    exact .bind (carries_spanFrom _) fun span => .pure (Stmt.relabel_returnWith ..)

omit inner in
theorem commutes_control {build : Span → Stmt}
    (plain : ∀ span, (build span).relabel m = build (m.span span)) :
    Commutes m (control build) (Stmt.relabel m) :=
  .bind commutes_advance fun _ => .bind (commutes_expect _) fun _ =>
    .bind (carries_spanFrom _) fun span => .pure (plain span)

theorem commutes_formStmt (counts : m.Counts) (form : StmtForm) :
    Commutes m (formStmt g block form) (Stmt.relabel m) := by
  cases form with
  | loop => exact commutes_loop inner counts
  | branch => exact commutes_branch inner counts
  | returnWith => exact commutes_returnWith counts
  | select => exact commutes_select inner counts
  | breakLoop => exact commutes_control fun _ => rfl
  | continueLoop => exact commutes_control fun _ => rfl
  | declareMutable =>
    exact .bind commutes_advance fun token => .bind (commutes_name counts) fun type =>
      carries_declaration counts true type _

end Blocks

theorem commutes_blockOf {stmt : Parse Stmt} (each : Commutes m stmt (Stmt.relabel m)) :
    Commutes m (blockOf stmt) (List.map (Stmt.relabel m)) :=
  .bind (commutes_expect _) fun _ =>
    .bind (commutes_repeatWhile (fun c => by rw [m.kind_cursor]) each) fun _ =>
      .bind (commutes_expect _) fun _ => .pure rfl

theorem commutes_stmtUpTo (counts : m.Counts) (n : Nat) :
    Commutes m (stmtUpTo g n) (Stmt.relabel m) := by
  induction n with
  | zero => exact commutes_exhausted
  | succ n ih =>
    refine .plain commutes_kind fun kind => ?_
    cases g.stmt kind with
    | some form => exact commutes_formStmt (commutes_blockOf ih) counts form
    | none => exact commutes_simple counts

/-- **Parsing a block commutes with relabelling.** -/
theorem commutes_block (counts : m.Counts) :
    Commutes m (block g) (List.map (Stmt.relabel m)) := by
  refine commutes_blockOf (.bind commutes_get fun c => ?_)
  rw [m.length_left_cursor]
  exact commutes_stmtUpTo counts _

/-! ## Declarations -/

theorem commutes_field (counts : m.Counts) : Commutes m (field g) (Field.relabel m) := by
  have initial : Commutes m (some <$> expr g .loosest) (Option.map (Expr.relabel m)) :=
    .map (commutes_expr counts _) fun _ => rfl
  refine .bind commutes_here fun start => .plain (commutes_consume _) fun isMutable => ?_
  refine .bind (commutes_name counts) fun type => .plain commutes_arrayMark fun isArray => ?_
  refine .bind (commutes_expect _) fun token => .plain (commutes_consume _) fun hasInitial => ?_
  refine .ite (fun _ => ?_) (fun _ => ?_)
  · exact .bind initial fun _ => .bind (commutes_expect _) fun _ =>
      .bind (carries_spanFrom _) fun _ => .pure rfl
  · rw [pure_bind]
    exact .bind (commutes_expect _) fun _ => .bind (carries_spanFrom _) fun _ => .pure rfl

theorem commutes_structMember (counts : m.Counts) {inner : Parse StructDecl}
    (each : Commutes m inner (StructDecl.relabel m)) :
    Commutes m (structMember g inner) (Sum.map (Field.relabel m) (StructDecl.relabel m)) := by
  refine .plain commutes_kind fun kind => ?_
  split
  · exact .map each fun _ => rfl
  · exact .map each fun _ => rfl
  · exact .map (commutes_field counts) fun _ => rfl

theorem commutes_bases (counts : m.Counts) : Commutes m bases (List.map (Name.relabel m)) :=
  .plain (commutes_consume _) fun _ => .ite
    (fun _ => commutes_separated (commutes_name counts) _) (fun _ => .pure rfl)

/-- The values of one sort among values of two sorts, changed sort by sort. -/
theorem filterMap_getLeft?_map {α β : Type} (f : α → α) (h : β → β) (values : List (α ⊕ β)) :
    (values.map (Sum.map f h)).filterMap Sum.getLeft? =
      (values.filterMap Sum.getLeft?).map f := by
  rw [List.filterMap_map, List.map_filterMap]
  refine congrArg (List.filterMap · values) (funext fun value => ?_)
  cases value <;> rfl

theorem filterMap_getRight?_map {α β : Type} (f : α → α) (h : β → β) (values : List (α ⊕ β)) :
    (values.map (Sum.map f h)).filterMap Sum.getRight? =
      (values.filterMap Sum.getRight?).map h := by
  rw [List.filterMap_map, List.map_filterMap]
  refine congrArg (List.filterMap · values) (funext fun value => ?_)
  cases value <;> rfl

theorem commutes_structUpTo (counts : m.Counts) (n : Nat) :
    Commutes m (structUpTo g n) (StructDecl.relabel m) := by
  induction n with
  | zero => exact commutes_exhausted
  | succ n ih =>
    refine .bind commutes_here fun start => .plain (commutes_consume _) fun isClosed => ?_
    refine .bind (commutes_expect _) fun _ => .bind (commutes_expect _) fun token => ?_
    refine .bind (commutes_typeParameters counts) fun parameters => ?_
    refine .bind (commutes_bases counts) fun bases => .bind (commutes_expect _) fun _ => ?_
    refine .bind (commutes_repeatUntil (commutes_structMember counts ih) _) fun members => ?_
    refine .bind (commutes_expect _) fun _ => .bind (carries_spanFrom _) fun span => .pure ?_
    rw [StructDecl.relabel, relabelStructs_eq, filterMap_getLeft?_map, filterMap_getRight?_map]
    rfl

theorem commutes_struct (counts : m.Counts) : Commutes m (struct g) (StructDecl.relabel m) := by
  refine .bind commutes_get fun c => ?_
  rw [m.length_left_cursor]
  exact commutes_structUpTo counts _

theorem commutes_parameter (counts : m.Counts) : Commutes m parameter (Parameter.relabel m) :=
  .bind commutes_here fun _ => .bind (commutes_name counts) fun _ =>
    .plain commutes_arrayMark fun _ => .bind (commutes_expect _) fun _ =>
      .plain (commutes_separator _) fun _ => .bind (carries_spanFrom _) fun _ => .pure rfl

theorem commutes_inputs (counts : m.Counts) :
    Commutes m inputs (List.map (Parameter.relabel m)) :=
  .bind (commutes_expect _) fun _ =>
    .bind (commutes_repeatUntil (commutes_parameter counts) _) fun _ =>
      .bind (commutes_expect _) fun _ => .pure rfl

theorem commutes_output (counts : m.Counts) : Commutes m output (ReturnType.relabel m) :=
  .bind (commutes_expect _) fun _ => .bind (commutes_name counts) fun _ =>
    .plain commutes_arrayMark fun _ => .pure rfl

theorem commutes_function (counts : m.Counts) : Commutes m (function g) (FnDecl.relabel m) :=
  .bind commutes_here fun _ => .plain (commutes_consume _) fun _ =>
    .bind (commutes_expect _) fun _ => .bind (commutes_typeParameters counts) fun _ =>
      .bind (commutes_name counts) fun _ => .bind (commutes_inputs counts) fun _ =>
        .bind (commutes_output counts) fun _ => .bind (commutes_block counts) fun _ =>
          .bind (carries_spanFrom _) fun _ => .pure rfl

theorem commutes_method (counts : m.Counts) : Commutes m method (Method.relabel m) :=
  .bind commutes_here fun _ => .plain (commutes_consume _) fun _ =>
    .bind (commutes_expect _) fun _ => .bind (commutes_expect _) fun _ =>
      .bind (commutes_inputs counts) fun _ => .bind (commutes_output counts) fun _ =>
        .bind (commutes_expect _) fun _ => .bind (carries_spanFrom _) fun _ => .pure rfl

theorem commutes_interface (counts : m.Counts) :
    Commutes m interface (InterfaceDecl.relabel m) :=
  .bind commutes_advance fun _ => .bind (commutes_expect _) fun _ =>
    .bind (commutes_typeParameters counts) fun _ => .bind (commutes_expect _) fun _ =>
      .bind (commutes_repeatUntil (commutes_method counts) _) fun _ =>
        .bind (commutes_expect _) fun _ => .bind (carries_spanFrom _) fun _ => .pure rfl

theorem commutes_synonym (counts : m.Counts) : Commutes m synonym (SynonymDecl.relabel m) :=
  .bind commutes_advance fun _ => .bind (commutes_expect _) fun _ =>
    .bind (commutes_expect _) fun _ => .bind (commutes_name counts) fun _ =>
      .bind (commutes_expect _) fun _ => .bind (carries_spanFrom _) fun _ => .pure rfl

theorem commutes_enum : Commutes m enum (EnumDecl.relabel m) := by
  have value : Commutes m enumValue fun text => text :=
    .bind (commutes_expect _) fun _ => .pure rfl
  refine .bind commutes_advance fun _ => .bind (commutes_expect _) fun _ => ?_
  refine .bind (commutes_expect _) fun _ => .bind (commutes_separated value _) fun values => ?_
  rw [List.map_id' values]
  exact .bind (commutes_expect _) fun _ => .bind (carries_spanFrom _) fun _ => .pure rfl

theorem commutes_decl (counts : m.Counts) : Commutes m (decl g) (Decl.relabel m) := by
  refine .plain commutes_kind fun kind => ?_
  cases g.decl kind with
  | none => exact commutes_unexpected _
  | some form =>
    cases form with
    | struct => exact .map (commutes_struct counts) fun _ => rfl
    | function => exact .map (commutes_function counts) fun _ => rfl
    | interface => exact .map (commutes_interface counts) fun _ => rfl
    | synonym => exact .map (commutes_synonym counts) fun _ => rfl
    | enum => exact .map commutes_enum fun _ => rfl

/-! ## Files -/

theorem commutes_moduleTexts : Commutes m moduleTexts fun texts => texts := by
  have text : Commutes m (do let token ← advance; let _ ← advance; return token.text)
      fun text => text :=
    .bind commutes_advance fun _ => .bind commutes_advance fun _ => .pure rfl
  refine .bind (commutes_repeatWhile (fun c => by rw [m.kind_cursor, m.peek_cursor]) text)
    fun front => ?_
  rw [List.map_id' front]
  exact .plain (commutes_consume _) fun _ => .ite (fun _ => .pure rfl)
    (fun _ => .bind (commutes_expect _) fun _ => .pure rfl)

theorem commutes_importPath : Commutes m importPath (ModulePath.relabel m) :=
  .bind commutes_advance fun _ => .plain commutes_moduleTexts fun _ =>
    .bind (commutes_expect _) fun _ => .bind (carries_spanFrom _) fun _ => .pure rfl

theorem commutes_exports : Commutes m exports (List.map (ModulePath.relabel m)) := by
  have path : Commutes m exportPath (ModulePath.relabel m) :=
    .bind commutes_here fun _ => .plain commutes_moduleTexts fun _ =>
      .bind (carries_spanFrom _) fun _ => .pure rfl
  exact .bind commutes_advance fun _ => .bind (commutes_expect _) fun _ =>
    .bind (commutes_separated path _) fun _ => .bind (commutes_expect _) fun _ => .pure rfl

/-- What of a file has been read, with other labels. -/
def Contents.relabel (m : Relabel) (contents : Contents) : Contents :=
  ⟨contents.imports.map (ModulePath.relabel m), contents.declarations.map (Decl.relabel m),
    contents.exports.map (List.map (ModulePath.relabel m))⟩

theorem carries_item (counts : m.Counts) (sofar : Contents) :
    Carries m (item g sofar) (item g (sofar.relabel m)) (Contents.relabel m) := by
  obtain ⟨imports, declarations, exports?⟩ := sofar
  refine .plain commutes_kind fun kind => ?_
  dsimp only [Contents.relabel]
  split
  · refine .bind commutes_importPath fun path => .pure ?_
    simp [Contents.relabel]
  · cases exports? with
    | none => exact .bind commutes_exports fun paths => .pure rfl
    | some paths => exact .bind commutes_here fun position => commutes_fail _ _
  · refine .bind (commutes_decl counts) fun d => .pure ?_
    simp [Contents.relabel]

/-- **Parsing a file commutes with relabelling.** -/
theorem commutes_file (counts : m.Counts) : Commutes m (file g) (File.relabel m) := by
  refine .bind (commutes_growWhile (fun c => by rw [m.kind_cursor]) (carries_item counts)
    ⟨[], [], none⟩) fun contents => .bind commutes_get fun c => .pure ?_
  obtain ⟨imports, declarations, exports?⟩ := contents
  cases exports? <;> rfl

end Parse

/-! ## The first number is an offset -/

/-- What a file is read from and read to, all numbers shifted. -/
theorem Relabel.cursor_shift_ofTokens (distance : Nat) (tokens : List Token) (firstId : Nat) :
    (shift distance).cursor (.ofTokens tokens firstId) = .ofTokens tokens (firstId + distance) := by
  have same (tokens : List Token) : tokens.map (shift distance).token = tokens := List.map_id' tokens
  unfold Cursor.ofTokens
  dsimp only
  split
  · rfl
  · simp only [cursor, same]
    rfl

theorem Relabel.halt_shift (distance : Nat) (h : Halt) : (shift distance).halt h = h := by
  cases h <;> rfl

/-- **The first number of a file is only an offset**: from a later first number the same tokens are
read with the same outcome, all numbers shifted. -/
theorem File.ofTokens_shift (tokens : List Token) (firstId distance : Nat) :
    File.ofTokens tokens (firstId + distance) =
      (File.ofTokens tokens firstId).map fun (file, nextId) =>
        (file.relabel (.shift distance), nextId + distance) := by
  have run := Parse.commutes_file (g := .standard) (Relabel.counts_shift distance)
    (.ofTokens tokens firstId)
  rw [Relabel.cursor_shift_ofTokens] at run
  unfold File.ofTokens
  rw [EStateM.run, EStateM.run, run]
  cases Parse.file .standard (.ofTokens tokens firstId) with
  | ok file c => rfl
  | error h c =>
    change Except.error ((Relabel.shift distance).halt h) = Except.error h
    rw [Relabel.halt_shift]

/-! ## A parse keeps to what its tokens carry -/

/-- A cursor is its own relabelling when each of its tokens is. -/
theorem Relabel.cursor_eq_self {m : Relabel} {c : Cursor}
    (each : ∀ token ∈ c.tokens, m.token token = token) (nextId : m.id c.nextId = c.nextId)
    (file : m.file c.file = c.file) : m.cursor c = c := by
  obtain ⟨behind, current, ahead, id, name⟩ := c
  have same (tokens : List Token) (among : ∀ token ∈ tokens, m.token token = token) :
      tokens.map m.token = tokens :=
    (List.map_congr_left among).trans (List.map_id tokens)
  have before := same behind fun token mem => each token (by simp [Cursor.tokens, mem])
  have here := each current (by simp [Cursor.tokens])
  have after := same ahead fun token mem => each token (by simp [Cursor.tokens, mem])
  rw [cursor, before, here, after, nextId, file]

/-- **What a cursor leads to is its own relabelling** when the cursor is: nothing that a parse gives,
its fault included, carries what its tokens do not carry. -/
theorem File.ofTokens_eq_self {m : Relabel} (counts : m.Counts) {tokens : List Token} {firstId : Nat}
    (entered : m.cursor (.ofTokens tokens firstId) = .ofTokens tokens firstId) :
    (∀ file nextId, ofTokens tokens firstId = .ok (file, nextId) → file.relabel m = file) ∧
      ∀ h, ofTokens tokens firstId = .error h → m.halt h = h := by
  have run := Parse.commutes_file (g := .standard) counts (.ofTokens tokens firstId)
  rw [entered] at run
  unfold ofTokens
  rw [EStateM.run]
  cases parsed : Parse.file .standard (.ofTokens tokens firstId) with
  | ok found c =>
    rw [parsed] at run
    obtain ⟨files, -⟩ := EStateM.Result.ok.inj run
    refine ⟨fun file nextId same => ?_, nofun⟩
    cases same
    exact files.symm
  | error halt c =>
    rw [parsed] at run
    obtain ⟨halts, -⟩ := EStateM.Result.error.inj run
    refine ⟨nofun, fun h same => ?_⟩
    cases same
    exact halts.symm

end FrontEnd

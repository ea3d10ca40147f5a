import FrontEnd.Grammar.Decl
import FrontEnd.Proofs.Grammar.Confining

/-!
# Declarations and statements are confined to their tokens

Every expression needs a token of the excerpt behind it, for it goes on as long as the current token
continues it. A statement ends with a semicolon or with a block, and so does a declaration, or with
a closing brace; so they may end where the excerpt does. Only a branch looks further, for the word
that begins another arm; where the excerpt ends there is no such word.

**The laws** (`Parse.confined_stmt`, `Parse.confined_decl`): a statement and a declaration are
confined to the tokens that they take.
-/

namespace FrontEnd

open Token

namespace Excerpt.Beside

variable {x : Excerpt} {e : List Token} {c d : Cursor} {g : Grammar}

/-- What continues an expression is the same in both places: a bracket has a token behind it. -/
theorem continues_eq (beside : x.Beside e c d) (some : e ≠ []) (precedence : Precedence) :
    Parse.continues g precedence d = Parse.continues g precedence c := by
  have inside := List.length_pos_iff.2 some
  rw [Parse.continues, Parse.continues, beside.kind_eq some]
  by_cases opens : c.kind = .openBracket
  · have longer : 1 < e.length := beside.succ_lt inside (congrArg Kind.isFinal opens)
    rw [beside.peek_eq longer]
  · rw [beq_false_of_ne opens, Bool.false_and, Bool.false_and]

/-- Whether a declaration follows is the same in both places. -/
theorem declares_eq (beside : x.Beside e c d) (some : e ≠ []) :
    Parse.declares d = Parse.declares c := by
  have inside := List.length_pos_iff.2 some
  rw [Parse.declares, Parse.declares, beside.kind_eq some]
  congr 1
  by_cases opens : c.kind = .openBracket
  · have longer : 1 < e.length := beside.succ_lt inside (congrArg Kind.isFinal opens)
    rw [beside.peek_eq longer]
    by_cases closes : c.peek 1 = .closeBracket
    · rw [beside.peek_eq (beside.succ_lt longer (congrArg Kind.isFinal closes))]
    · rw [beq_false_of_ne closes, Bool.and_false, Bool.false_and, Bool.false_and]
  · rw [beq_false_of_ne opens, Bool.false_and, Bool.false_and, Bool.false_and, Bool.false_and]

/-- Whether a further arm follows is the same in both places. -/
theorem furtherArm_eq (beside : x.Beside e c d) (some : e ≠ []) :
    (decide (d.kind = .elseWord) && decide (d.peek 1 = .ifWord)) =
      (decide (c.kind = .elseWord) && decide (c.peek 1 = .ifWord)) := by
  have inside := List.length_pos_iff.2 some
  rw [beside.kind_eq some]
  by_cases isElse : c.kind = .elseWord
  · rw [beside.peek_eq (beside.succ_lt inside (congrArg Kind.isFinal isElse))]
  · rw [decide_eq_false isElse, Bool.false_and, Bool.false_and]

end Excerpt.Beside

namespace Parse

variable {α : Type} {x : Excerpt} {begun : Nat} {g : Grammar}

/-! ## Expressions -/

theorem confined_literal {read : String → Option α} {build : α → Span → Expr} :
    Confined x begun 1 1 (literal read build) (literal read build) := by
  refine .bind confined_advance (fun token => ?_) (Nat.le_refl _)
  cases read token.text with
  | none => exact confined_fail
  | some value => exact .pure

theorem confined_textLiteral {build : String → Span → Expr} :
    Confined x begun 1 1 (textLiteral build) (textLiteral build) :=
  .bind confined_advance (fun _ => .pure) (Nat.le_refl _)

theorem confined_primary : Confined x begun 1 1 primary primary := by
  refine .onKind (fun k => ?_) (Nat.le_add_left ..)
  split
  · exact confined_literal
  · exact confined_literal
  · exact .bind confined_advance (fun _ => .pure) (Nat.le_refl _)
  · exact .bind confined_advance (fun _ => .pure) (Nat.le_refl _)
  · exact confined_textLiteral
  · exact confined_textLiteral
  · refine .bind confined_identifier (fun found => ?_) (Nat.le_refl _)
    cases found with
    | plain text span => exact .pure
    | applied segment => exact .pure
  · exact confined_unexpected

section Parts

variable {expr other : Precedence → Parse Expr}
  (each : ∀ precedence begun, Confined x begun 1 1 (expr precedence) (other precedence))

include each

theorem confined_sign : Confined x begun 1 1 (sign expr) (sign other) := by
  refine .bind confined_advance (fun token => ?_) (Nat.le_refl _)
  refine .bind (each _ _) (fun operand => ?_) (Nat.le_refl _)
  split
  · exact .pure
  · exact .pure
  · exact .pure
  · exact .pure
  · exact confined_fail

theorem confined_group : Confined x begun 1 1 (group expr) (group other) :=
  .bind confined_advance (fun _ => .bind (each _ _) (fun _ => .bind (confined_expect nofun)
    (fun _ => .pure) (Nat.zero_le _)) (Nat.le_refl _)) (Nat.le_refl _)

theorem confined_fieldValue : Confined x begun 1 1 (fieldValue expr) (fieldValue other) := by
  refine .bind (confined_expect nofun) (fun _ => ?_) (Nat.zero_le _)
  refine .bind (confined_expect nofun) (fun token => ?_) (Nat.zero_le _)
  refine .onKind (fun k => ?_) (Nat.le_refl _)
  split
  · exact .pure
  · exact .pure
  · exact .bind (confined_expect nofun) (fun _ => .bind (each _ _) (fun _ => .pure) (Nat.le_refl _))
      (Nat.zero_le _)

theorem confined_structLiteral :
    Confined x begun 1 1 (structLiteral expr) (structLiteral other) := by
  refine .bind confined_here (fun start => ?_) (Nat.le_add_left ..)
  refine .bind confined_consume (fun isMutable => ?_) (Nat.le_add_left ..)
  refine .bind (confined_expect nofun) (fun _ => ?_) (Nat.zero_le _)
  refine .bind (confined_separated (confined_fieldValue each)) (fun fields => ?_) (Nat.le_refl _)
  exact (confined_ending .closeCurly nofun).few

theorem confined_arrayLiteral :
    Confined x begun 1 1 (arrayLiteral expr) (arrayLiteral other) := by
  refine .bind confined_here (fun start => ?_) (Nat.le_add_left ..)
  refine .bind (confined_expect nofun) (fun _ => ?_) (Nat.zero_le _)
  refine .bind (confined_separated (each _ _)) (fun values => ?_) (Nat.le_refl _)
  exact (confined_ending .closeBracket nofun).few

theorem confined_lead (form : Lead) : Confined x begun 1 1 (lead expr form) (lead other form) := by
  cases form with
  | primary => exact confined_primary
  | sign => exact confined_sign each
  | group => exact confined_group each
  | structLiteral => exact confined_structLiteral each
  | arrayLiteral => exact confined_arrayLiteral each

theorem confined_binary (left : Expr) (precedence : Precedence) :
    Confined x begun 1 1 (binary expr left precedence) (binary other left precedence) := by
  refine .bind confined_advance (fun token => ?_) (Nat.le_refl _)
  split
  · exact confined_fail
  · exact .bind (each _ _) (fun _ => .pure) (Nat.le_refl _)

theorem confined_call (left : Expr) : Confined x begun 1 1 (call expr left) (call other left) := by
  refine .bind confined_advance (fun _ => ?_) (Nat.le_refl _)
  refine .bind (confined_separated (each _ _)) (fun arguments => ?_) (Nat.le_refl _)
  exact (confined_ending .closeParen nofun).few

theorem confined_index (left : Expr) :
    Confined x begun 1 1 (index expr left) (index other left) := by
  refine .bind confined_advance (fun _ => ?_) (Nat.le_refl _)
  refine .bind (each _ _) (fun position => ?_) (Nat.le_refl _)
  exact (confined_ending .closeBracket nofun).few

omit each in
theorem confined_member (left : Expr) : Confined x begun 1 1 (member left) (member left) := by
  refine .bind confined_advance (fun _ => ?_) (Nat.le_refl _)
  split
  · refine .bind confined_freshId (fun id => ?_) (Nat.zero_le _)
    refine .bind confined_segment (fun second => ?_) (Nat.le_refl _)
    exact confined_spanned
  · refine .bind confined_segment (fun next => ?_) (Nat.le_refl _)
    exact confined_spanned
  · refine .bind (confined_expect nofun) (fun token => ?_) (Nat.zero_le _)
    exact confined_spanned

theorem confined_follow (form : Follow) (left : Expr) (precedence : Precedence) :
    Confined x begun 1 1 (follow expr form left precedence)
      (follow other form left precedence) := by
  cases form with
  | binary => exact confined_binary each left precedence
  | call => exact confined_call each left
  | index => exact confined_index each left
  | member => exact confined_member left

theorem confined_extend (left : Expr) :
    Confined x begun 0 1 (extend g expr left) (extend g other left) := by
  refine .onKind (fun k => ?_) (Nat.le_refl _)
  split
  · exact (confined_follow each _ left _).few
  · exact .pure

theorem confined_opening : Confined x begun 1 1 (opening g expr) (opening g other) := by
  refine .look (fun c => ?_) fun e c d beside long => ?_
  · split
    · exact confined_lead each _
    · exact confined_fail
  · have same := beside.current_eq (List.length_pos_iff.1 (Nat.lt_of_succ_le (Nat.le_of_lt long)))
    rw [Cursor.kind, Cursor.here, Cursor.kind, Cursor.here, same]

end Parts

/-- **An expression is confined**, however deep it may nest, where a token follows. -/
theorem confined_exprUpTo (n m : Nat) (precedence : Precedence) (begun : Nat) :
    Confined x begun 1 1 (exprUpTo g n precedence) (exprUpTo g m precedence) := by
  induction n generalizing m precedence begun with
  | zero => exact .halt
  | succ n ih =>
    have goes (m : Nat) :
        Confined x begun 1 1 (exprUpTo g (n + 1) precedence) (exprUpTo g (m + 1) precedence) := by
      refine .bind (confined_opening (ih m)) (fun first => ?_) (Nat.le_refl _)
      exact confined_growWhile (fun e c d beside some => beside.continues_eq some _)
        (fun left => confined_extend (ih m) left) first
    cases m with
    | zero => exact (goes 0).spent
    | succ m => exact goes m

theorem confined_expr (precedence : Precedence) :
    Confined x begun 1 1 (expr g precedence) (expr g precedence) :=
  .byLength fun n m => confined_exprUpTo n m precedence _

/-! ## Statements -/

/-- What ends with a semicolon may end where the excerpt does. -/
theorem confined_closing {start : Position} {build : Span → α} :
    Confined x begun 1 0 (do let _ ← expect .semicolon; return build (← spanFrom start))
      (do let _ ← expect .semicolon; return build (← spanFrom start)) :=
  confined_ending .semicolon nofun

theorem confined_condition : Confined x begun 3 0 (condition g) (condition g) :=
  .bind (confined_expect nofun) (fun _ => .bind (confined_expr _) (fun _ =>
    .bind (confined_expect nofun) (fun _ => .pure) (Nat.zero_le _)) (Nat.le_refl _)) (Nat.zero_le _)

theorem confined_declaration (isMutable : Bool) (type : Name) (start : Position) :
    Confined x begun 4 0 (declaration g isMutable type start)
      (declaration g isMutable type start) := by
  refine .bind confined_arrayMark (fun isArray => ?_) (Nat.le_add_left ..)
  refine .bind (confined_expect nofun) (fun token => ?_) (Nat.zero_le _)
  refine .bind (confined_expect nofun) (fun _ => ?_) (Nat.zero_le _)
  exact .bind (confined_expr _) (fun initial => confined_closing) (Nat.le_refl _)

theorem confined_assignment (target : Expr) (start : Position) :
    Confined x begun 1 0 (assignment g target start) (assignment g target start) := by
  refine .onKind (fun k => ?_) (Nat.le_refl _)
  split
  · exact confined_closing
  · refine .ite ?_ confined_fail
    suffices whole : Confined x begun 3 0 _ _ from whole.one
    exact .bind confined_advance (fun _ => .bind (confined_expr _) (fun value => confined_closing)
      (Nat.le_refl _)) (Nat.le_add_left ..)

theorem confined_simple : Confined x begun 2 0 (simple g) (simple g) := by
  refine .bind confined_here (fun start => ?_) (Nat.le_add_left ..)
  refine .bind (confined_expr _) (fun first => .look (fun c => .ite ?_ ?_) ?_) (Nat.le_refl _)
  · split
    · suffices whole : Confined x _ 4 0 _ _ from whole.one
      exact .bind confined_freshId (fun id => confined_declaration ..) (Nat.zero_le _)
    · exact (confined_declaration ..).one
    · exact confined_assignment _ _
  · exact confined_assignment _ _
  · intro e c d beside long
    rw [beside.declares_eq (List.length_pos_iff.1 long)]

theorem confined_returnWith : Confined x begun 2 0 (returnWith g) (returnWith g) := by
  refine .bind confined_advance (fun token => .onKind (fun k => ?_) (Nat.le_refl _)) (Nat.le_refl _)
  dsimp only
  refine .ite ?_ ?_
  · exact .bind .pure (fun value => confined_closing) (Nat.zero_le _)
  · suffices whole : Confined x (begun + 1) 2 0 _ _ from whole.one
    exact .bind (confined_expr _).map (fun value => confined_closing) (Nat.le_refl _)

theorem confined_control {build : Span → Stmt} :
    Confined x begun 2 0 (control build) (control build) :=
  .bind confined_advance (fun _ => confined_closing) (Nat.le_refl _)

theorem confined_declareMutable : Confined x begun 6 0 (declareMutable g) (declareMutable g) :=
  .bind confined_advance (fun _ => .bind confined_name (fun _ => confined_declaration ..)
    (Nat.le_add_left ..)) (Nat.le_add_left ..)

theorem confined_blockOf {stmt other : Parse Stmt}
    (each : ∀ begun, Confined x begun 1 0 stmt other) :
    Confined x begun 2 0 (blockOf stmt) (blockOf other) := by
  refine .bind (confined_expect nofun) (fun _ => ?_) (Nat.zero_le _)
  refine .bind (confined_repeatWhile ?_ (.inl (Nat.le_refl _)) ?_) (fun body => ?_) (Nat.le_refl _)
  · intro e c d beside some
    rw [beside.kind_eq some]
  · exact (each _).weaken (Nat.le_refl _) (Nat.le_refl _) (Nat.zero_le _)
  · exact .bind (confined_expect nofun) (fun _ => .pure) (Nat.zero_le _)

section Blocks

variable {block other : Parse (List Stmt)} (inner : ∀ begun, Confined x begun 2 0 block other)

include inner

theorem confined_loop : Confined x begun 6 0 (loop g block) (loop g other) := by
  refine .bind confined_advance (fun token => ?_) (Nat.le_add_left ..)
  refine .bind confined_condition (fun condition => ?_) (Nat.zero_le _)
  refine .bind (inner _) (fun body => ?_) (Nat.zero_le _)
  exact confined_spanned

theorem confined_arm : Confined x begun 5 0 (arm g block) (arm g other) :=
  .bind confined_condition (fun _ => .bind (inner _) (fun _ => .pure) (Nat.zero_le _))
    (Nat.zero_le _)

/-- A branch may end behind any of its blocks, for no further arm follows where the excerpt ends. -/
theorem confined_branch : Confined x begun 6 0 (branch g block) (branch g other) := by
  refine .bind confined_advance (fun token => ?_) (Nat.le_add_left ..)
  refine .bind (confined_arm inner) (fun first => ?_) (Nat.zero_le _)
  refine .bind (confined_repeatWhile (fun e c d beside some => beside.furtherArm_eq some)
    (.inr fun d isEnd => ?_) ?_) (fun others => ?_) (Nat.zero_le _)
  · rw [isEnd]
    rfl
  · suffices whole : Confined x (begun + 1 + 5) 7 0 _ _ from whole.one
    exact .bind confined_advance (fun _ => .bind confined_advance (fun _ => confined_arm inner)
      (Nat.le_add_left ..)) (Nat.le_add_left ..)
  · refine confined_consume_bind nofun ?_ ?_
    · suffices last : Confined x _ 2 0 _ _ from last.one
      exact .bind (inner _) (fun _ => confined_spanned) (Nat.zero_le _)
    · exact .bind .pure (fun _ => confined_spanned) (Nat.zero_le _)

theorem confined_caseBody : Confined x begun 1 1 (caseBody g block) (caseBody g other) := by
  refine .onKind (fun k => .ite ?_ (confined_expr _).map) (Nat.le_add_left ..)
  exact ((inner _).map.one).weaken (Nat.le_refl _) (Nat.le_refl _) (Nat.zero_le _)

theorem confined_case : Confined x begun 1 1 (case g block) (case g other) := by
  refine .bind (confined_expr _) (fun pattern => ?_) (Nat.le_refl _)
  refine .bind (confined_expect nofun) (fun _ => ?_) (Nat.zero_le _)
  refine .bind (confined_caseBody inner) (fun body => ?_) (Nat.le_refl _)
  exact .bind (confined_separator _) (fun _ => .pure) (Nat.le_refl _)

theorem confined_lastCase : Confined x begun 0 1 (lastCase g block) (lastCase g other) := by
  refine .bind confined_consume (fun follows => .ite ?_ .pure) (Nat.le_refl _)
  refine .bind (confined_expect nofun) (fun _ => ?_) (Nat.zero_le _)
  refine .bind (confined_caseBody inner) (fun body => ?_) (Nat.le_refl _)
  exact .bind (confined_separator _) (fun _ => .pure) (Nat.le_refl _)

theorem confined_select : Confined x begun 6 0 (select g block) (select g other) := by
  refine .bind confined_advance (fun token => ?_) (Nat.le_add_left ..)
  refine .bind confined_condition (fun subject => ?_) (Nat.zero_le _)
  refine .bind (confined_expect nofun) (fun _ => ?_) (Nat.zero_le _)
  refine .bind (confined_repeatWhile ?_ (.inl (Nat.le_refl _)) (confined_case inner))
    (fun cases => ?_) (Nat.le_refl _)
  · intro e c d beside some
    rw [beside.kind_eq some]
  · refine .bind (confined_lastCase inner) (fun otherwise => ?_) (Nat.le_refl _)
    exact confined_ending .closeCurly nofun

theorem confined_formStmt (form : StmtForm) :
    Confined x begun 1 0 (formStmt g block form) (formStmt g other form) := by
  cases form with
  | loop => exact (confined_loop inner).one
  | branch => exact (confined_branch inner).one
  | returnWith => exact confined_returnWith.one
  | select => exact (confined_select inner).one
  | breakLoop => exact confined_control.one
  | continueLoop => exact confined_control.one
  | declareMutable => exact confined_declareMutable.one

end Blocks

/-- **A statement is confined**, however deep its blocks may nest. -/
theorem confined_stmtUpTo (n m begun : Nat) :
    Confined x begun 1 0 (stmtUpTo g n) (stmtUpTo g m) := by
  induction n generalizing m begun with
  | zero => exact .halt
  | succ n ih =>
    have goes (m : Nat) : Confined x begun 1 0 (stmtUpTo g (n + 1)) (stmtUpTo g (m + 1)) := by
      refine .onKind (fun k => ?_) (Nat.le_refl _)
      split
      · exact confined_formStmt (fun _ => confined_blockOf (ih m)) _
      · exact confined_simple.one
    cases m with
    | zero => exact (goes 0).spent
    | succ m => exact goes m

theorem confined_stmt : Confined x begun 1 0 (stmt g) (stmt g) :=
  .byLength fun n m => confined_stmtUpTo n m _

theorem confined_block : Confined x begun 2 0 (block g) (block g) :=
  confined_blockOf fun _ => confined_stmt

/-! ## Declarations -/

theorem confined_field : Confined x begun 3 0 (field g) (field g) := by
  refine .bind confined_here (fun start => ?_) (Nat.le_add_left ..)
  refine .bind confined_consume (fun isMutable => ?_) (Nat.le_add_left ..)
  refine .bind confined_name (fun type => ?_) (Nat.le_add_left ..)
  refine .bind confined_arrayMark (fun isArray => ?_) (Nat.le_add_left ..)
  refine .bind (confined_expect nofun) (fun token => ?_) (Nat.zero_le _)
  refine .bind confined_consume (fun follows => ?_) (Nat.le_refl _)
  dsimp only
  refine .ite ?_ ?_
  · suffices whole : Confined x _ 2 0 _ _ from whole.one
    exact .bind (confined_expr _).map (fun value => confined_closing) (Nat.le_refl _)
  · exact .bind .pure (fun value => confined_closing) (Nat.zero_le _)

theorem confined_structMember {inner other : Parse StructDecl}
    (each : Confined x begun 1 0 inner other) :
    Confined x begun 1 0 (structMember g inner) (structMember g other) := by
  refine .onKind (fun k => ?_) (Nat.le_refl _)
  split
  · exact each.map
  · exact each.map
  · exact confined_field.map.one

theorem confined_bases : Confined x begun 0 1 bases bases := by
  refine .bind confined_consume (fun follows => .ite ?_ .pure) (Nat.le_refl _)
  exact confined_separated confined_name

/-- **A structure is confined**, however deep it may nest. -/
theorem confined_structUpTo (n m begun : Nat) :
    Confined x begun 1 0 (structUpTo g n) (structUpTo g m) := by
  induction n generalizing m begun with
  | zero => exact .halt
  | succ n ih =>
    have goes (m : Nat) : Confined x begun 4 0 (structUpTo g (n + 1)) (structUpTo g (m + 1)) := by
      refine .bind confined_here (fun start => ?_) (Nat.le_add_left ..)
      refine .bind confined_consume (fun isClosed => ?_) (Nat.le_add_left ..)
      refine .bind (confined_expect nofun) (fun _ => ?_) (Nat.zero_le _)
      refine .bind (confined_expect nofun) (fun token => ?_) (Nat.zero_le _)
      refine .bind confined_typeParameters (fun parameters => ?_) (Nat.le_add_left ..)
      refine .bind confined_bases (fun bases => ?_) (Nat.le_add_left ..)
      refine .bind (confined_expect nofun) (fun _ => ?_) (Nat.zero_le _)
      refine .bind (confined_repeatUntil ((confined_structMember (ih m _)).weaken (Nat.le_refl _)
        (Nat.le_refl _) (Nat.zero_le _))) (fun members => ?_) (Nat.le_refl _)
      exact confined_ending .closeCurly nofun
    cases m with
    | zero => exact (goes 0).spent.one
    | succ m => exact (goes m).one

theorem confined_struct : Confined x begun 1 0 (struct g) (struct g) :=
  .byLength fun n m => confined_structUpTo n m _

theorem confined_parameter : Confined x begun 1 1 parameter parameter := by
  refine .bind confined_here (fun start => ?_) (Nat.le_add_left ..)
  refine .bind confined_name (fun type => ?_) (Nat.le_refl _)
  refine .bind confined_arrayMark (fun isArray => ?_) (Nat.le_refl _)
  refine .bind (confined_expect nofun) (fun token => ?_) (Nat.zero_le _)
  refine .bind (confined_separator _) (fun _ => ?_) (Nat.le_refl _)
  exact confined_spanned

theorem confined_inputs : Confined x begun 2 0 inputs inputs :=
  .bind (confined_expect nofun) (fun _ => .bind (confined_repeatUntil confined_parameter)
    (fun _ => .bind (confined_expect nofun) (fun _ => .pure) (Nat.zero_le _)) (Nat.le_refl _))
    (Nat.zero_le _)

theorem confined_output : Confined x begun 2 1 output output :=
  .bind (confined_expect nofun) (fun _ => .bind confined_name (fun _ => .bind confined_arrayMark
    (fun _ => .pure) (Nat.le_refl _)) (Nat.le_refl _)) (Nat.zero_le _)

theorem confined_function : Confined x begun 8 0 (function g) (function g) := by
  refine .bind confined_here (fun start => ?_) (Nat.le_add_left ..)
  refine .bind confined_consume (fun isMutable => ?_) (Nat.le_add_left ..)
  refine .bind (confined_expect nofun) (fun _ => ?_) (Nat.zero_le _)
  refine .bind confined_typeParameters (fun parameters => ?_) (Nat.le_add_left ..)
  refine .bind confined_name (fun name => ?_) (Nat.le_add_left ..)
  refine .bind confined_inputs (fun inputs => ?_) (Nat.zero_le _)
  refine .bind confined_output (fun output => ?_) (Nat.le_add_left ..)
  refine .bind confined_block (fun body => ?_) (Nat.zero_le _)
  exact confined_spanned

theorem confined_method : Confined x begun 7 0 method method := by
  refine .bind confined_here (fun start => ?_) (Nat.le_add_left ..)
  refine .bind confined_consume (fun isMutable => ?_) (Nat.le_add_left ..)
  refine .bind (confined_expect nofun) (fun _ => ?_) (Nat.zero_le _)
  refine .bind (confined_expect nofun) (fun token => ?_) (Nat.zero_le _)
  refine .bind confined_inputs (fun inputs => ?_) (Nat.zero_le _)
  exact .bind confined_output (fun output => confined_closing) (Nat.le_refl _)

theorem confined_interface : Confined x begun 4 0 interface interface := by
  refine .bind confined_advance (fun token => ?_) (Nat.le_add_left ..)
  refine .bind (confined_expect nofun) (fun name => ?_) (Nat.zero_le _)
  refine .bind confined_typeParameters (fun parameters => ?_) (Nat.le_add_left ..)
  refine .bind (confined_expect nofun) (fun _ => ?_) (Nat.zero_le _)
  refine .bind (confined_repeatUntil (confined_method.weaken (Nat.le_refl _) (Nat.le_add_left ..)
    (Nat.zero_le _))) (fun methods => ?_) (Nat.le_refl _)
  exact confined_ending .closeCurly nofun

theorem confined_synonym : Confined x begun 5 0 synonym synonym := by
  refine .bind confined_advance (fun token => ?_) (Nat.le_add_left ..)
  refine .bind (confined_expect nofun) (fun name => ?_) (Nat.zero_le _)
  refine .bind (confined_expect nofun) (fun _ => ?_) (Nat.zero_le _)
  exact .bind confined_name (fun type => confined_closing) (Nat.le_refl _)

theorem confined_enum : Confined x begun 4 0 enum enum := by
  refine .bind confined_advance (fun token => ?_) (Nat.le_add_left ..)
  refine .bind (confined_expect nofun) (fun name => ?_) (Nat.zero_le _)
  refine .bind (confined_expect nofun) (fun _ => ?_) (Nat.zero_le _)
  refine .bind (confined_separated ?_) (fun values => ?_) (Nat.le_refl _)
  · exact .bind (confined_expect nofun) (fun _ => .pure) (Nat.zero_le _)
  · exact confined_ending .closeCurly nofun

/-- **A declaration is confined.** -/
theorem confined_decl : Confined x begun 1 0 (decl g) (decl g) := by
  refine .onKind (fun k => ?_) (Nat.le_refl _)
  split
  · exact confined_struct.map
  · exact confined_function.map.one
  · exact confined_interface.map.one
  · exact confined_synonym.map.one
  · exact confined_enum.map.one
  · exact confined_unexpected

end Parse

end FrontEnd

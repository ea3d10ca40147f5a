import FrontEnd.Grammar.Expr
import FrontEnd.Proofs.Grammar.Numbering

/-!
# The numbers of an expression

Every name in an expression has its numbers from the parsing of that expression, and an expression
that is taken into a longer one keeps them: no two segments of its names share a number
(`Parse.numbers_expr`). A point behind a symbol makes it the first segment of a name, with a number
of its own.
-/

namespace FrontEnd

namespace Parse

open Token

variable {g : Grammar}

/-! ## Expressions -/

theorem numbers_literal {α : Type} {read : String → Option α} {build : α → Span → Expr}
    (plain : ∀ value span, (build value span).ids = []) :
    Numbers [] (literal read build) Expr.ids := by
  refine .skip quiet_advance fun token => ?_
  split
  next value _ => exact .pure (plain value token.span ▸ .nil)
  next => exact .halt

theorem numbers_textLiteral {build : String → Span → Expr}
    (plain : ∀ text span, (build text span).ids = []) :
    Numbers [] (textLiteral build) Expr.ids :=
  .skip quiet_advance fun token => .pure (plain token.text token.span ▸ .nil)

theorem numbers_primary : Numbers [] primary Expr.ids := by
  refine .skip quiet_kind fun kind => ?_
  split
  · exact numbers_literal fun _ _ => rfl
  · exact numbers_literal fun _ _ => rfl
  · exact .skip quiet_advance fun _ => .pure .nil
  · exact .skip quiet_advance fun _ => .pure .nil
  · exact numbers_textLiteral fun _ _ => rfl
  · exact numbers_textLiteral fun _ _ => rfl
  · refine .bind numbers_identifier fun identifier => ?_
    cases identifier with
    | plain text span => exact .pure .nil
    | applied segment =>
      refine .pure ?_
      rw [Expr.ids_name, Name.ids_eq, List.flatMap_singleton]
      exact .refl _
  · exact numbers_unexpected _

section Parts

variable {expr : Precedence → Parse Expr}

theorem numbers_sign (each : ∀ p, Numbers [] (expr p) Expr.ids) :
    Numbers [] (sign expr) Expr.ids := by
  refine .skip quiet_advance fun token => .bind (each _) fun operand => ?_
  split
  · exact .pure (.refl _)
  · exact .pure (by simp [Expr.operation, List.Perm.refl])
  · exact .pure (by simp [Expr.operation, List.Perm.refl])
  · exact .pure (by simp [Expr.operation, List.Perm.refl])
  · exact .halt

theorem numbers_group (each : ∀ p, Numbers [] (expr p) Expr.ids) :
    Numbers [] (group expr) Expr.ids :=
  .skip quiet_advance fun _ => .bind (each _) fun _ => .skip (quiet_expect _) fun _ =>
    .pure (.refl _)

theorem numbers_fieldValue (each : ∀ p, Numbers [] (expr p) Expr.ids) :
    Numbers [] (fieldValue expr) (·.2.ids) := by
  refine .skip (quiet_expect _) fun _ => .skip (quiet_expect _) fun token => ?_
  refine .skip quiet_kind fun kind => ?_
  split
  · exact .pure .nil
  · exact .pure .nil
  · exact .skip (quiet_expect _) fun _ => .bind (each _) fun _ => .pure (.refl _)

theorem numbers_structLiteral (each : ∀ p, Numbers [] (expr p) Expr.ids) :
    Numbers [] (structLiteral expr) Expr.ids := by
  refine .skip quiet_here fun _ => .skip (quiet_consume _) fun _ => .skip (quiet_expect _) fun _ => ?_
  refine .bind (numbers_separated (numbers_fieldValue each) _) fun fields => ?_
  refine .skip (quiet_expect _) fun _ => .skip (quiet_spanFrom _) fun _ => .pure ?_
  rw [Expr.ids_structLiteral]
  exact .refl _

theorem numbers_arrayLiteral (each : ∀ p, Numbers [] (expr p) Expr.ids) :
    Numbers [] (arrayLiteral expr) Expr.ids := by
  refine .skip quiet_here fun _ => .skip (quiet_expect _) fun _ => ?_
  refine .bind (numbers_separated (each _) _) fun values => ?_
  refine .skip (quiet_expect _) fun _ => .skip (quiet_spanFrom _) fun _ => .pure ?_
  rw [Expr.ids_arrayLiteral]
  exact .refl _

theorem numbers_lead (each : ∀ p, Numbers [] (expr p) Expr.ids) (form : Lead) :
    Numbers [] (lead expr form) Expr.ids := by
  cases form with
  | primary => exact numbers_primary
  | sign => exact numbers_sign each
  | group => exact numbers_group each
  | structLiteral => exact numbers_structLiteral each
  | arrayLiteral => exact numbers_arrayLiteral each

theorem numbers_binary (each : ∀ p, Numbers [] (expr p) Expr.ids) (left : Expr)
    (precedence : Precedence) : Numbers left.ids (binary expr left precedence) Expr.ids := by
  refine .skip quiet_advance fun token => ?_
  split
  · exact .halt
  · refine .bind (each _) fun right => .pure ?_
    rw [Expr.operation, Expr.ids_binary]

theorem numbers_call (each : ∀ p, Numbers [] (expr p) Expr.ids) (left : Expr) :
    Numbers left.ids (call expr left) Expr.ids := by
  refine .skip quiet_advance fun _ => .bind (numbers_separated (each _) _) fun arguments => ?_
  refine .skip (quiet_expect _) fun _ => .skip (quiet_spanFrom _) fun _ => .pure ?_
  rw [Expr.ids_call]

theorem numbers_index (each : ∀ p, Numbers [] (expr p) Expr.ids) (left : Expr) :
    Numbers left.ids (index expr left) Expr.ids := by
  refine .skip quiet_advance fun _ => .bind (each _) fun position => ?_
  refine .skip (quiet_expect _) fun _ => .skip (quiet_spanFrom _) fun _ => .pure ?_
  rw [Expr.ids_index]

/-- A name that gets longer keeps its numbers, and so does what a member is selected from. -/
theorem numbers_member (left : Expr) : Numbers left.ids (member left) Expr.ids := by
  refine .skip quiet_advance fun _ => ?_
  split
  next text span =>
    refine .bind numbers_freshId fun id => .bind numbers_segment fun second => ?_
    refine .skip (quiet_spanFrom _) fun _ => .pure ?_
    rw [Expr.ids_name, Name.ids_eq, List.flatMap_cons, List.flatMap_singleton, Segment.ids_eq]
    exact .refl _
  next name =>
    refine .bind numbers_segment fun next => .skip (quiet_spanFrom _) fun _ => .pure ?_
    rw [Expr.ids_name, Expr.ids_name, Name.ids_eq, Name.ids_eq, List.flatMap_append,
      List.flatMap_singleton]
  next =>
    exact .skip (quiet_expect _) fun _ => .skip (quiet_spanFrom _) fun _ => .pure (.refl _)

theorem numbers_follow (each : ∀ p, Numbers [] (expr p) Expr.ids) (form : Follow) (left : Expr)
    (precedence : Precedence) :
    Numbers left.ids (follow expr form left precedence) Expr.ids := by
  cases form with
  | binary => exact numbers_binary each left precedence
  | call => exact numbers_call each left
  | index => exact numbers_index each left
  | member => exact numbers_member left

theorem numbers_extend (each : ∀ p, Numbers [] (expr p) Expr.ids) (left : Expr) :
    Numbers left.ids (extend g expr left) Expr.ids := by
  refine .skip quiet_kind fun kind => ?_
  split
  · exact numbers_follow each _ left _
  · exact .pure (.refl _)

theorem numbers_opening (each : ∀ p, Numbers [] (expr p) Expr.ids) :
    Numbers [] (opening g expr) Expr.ids := by
  refine .skip quiet_get fun c => ?_
  split
  · exact numbers_lead each _
  · exact .halt

end Parts

theorem numbers_exprUpTo (n : Nat) (precedence : Precedence) :
    Numbers [] (exprUpTo g n precedence) Expr.ids := by
  induction n generalizing precedence with
  | zero => exact .halt
  | succ n ih =>
    exact .bind (numbers_opening ih) fun first => numbers_growWhile (numbers_extend ih) _ first

/-- **An expression is numbered**: no two segments of its names share a number. -/
theorem numbers_expr (precedence : Precedence) : Numbers [] (expr g precedence) Expr.ids :=
  .skip quiet_get fun _ => numbers_exprUpTo _ precedence

end Parse

end FrontEnd

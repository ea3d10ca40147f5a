import FrontEnd.Grammar.Expr
import FrontEnd.Proofs.Grammar.Keeping

/-!
# Parsing expressions keeps the data of their tokens

The rules for expressions, one for each action. A field of a structure literal that has no value
repeats its word, and a sign adds the number that it stands for; nothing else is added.

The actions for what a token leads to take the token without looking at it again. So the tables of a
grammar are asked for one thing: what they lead to by their kinds are marks, except for literals and
identifiers (`Grammar.ByMarks`).
-/

namespace FrontEnd

open Token

/-- **A grammar tells by marks** what begins and what continues: only what begins with a literal or
an identifier begins with a datum. -/
structure Grammar.ByMarks (g : Grammar) : Prop where
  lead {k : Kind} {form : Lead} : g.lead k = some form → form ≠ .primary → k.isMark = true
  follow {k : Kind} {form : Follow} : g.follow k = some form → k.isMark = true
  stmt {k : Kind} {form : StmtForm} : g.stmt k = some form → k.isMark = true
  decl {k : Kind} {form : DeclForm} : g.decl k = some form → k.isMark = true

theorem Grammar.byMarks_standard : Grammar.standard.ByMarks where
  lead {k form} leads other := by
    cases k <;> first | rfl | exact absurd (Option.some.inj leads).symm other | cases leads
  follow {k form} follows := by cases k <;> first | rfl | cases follows
  stmt {k form} begins := by cases k <;> first | rfl | cases begins
  decl {k form} begins := by cases k <;> first | rfl | cases begins

/-- The datum of a token of an integer is what the text is read as. -/
theorem Token.Scanned.datum?_int {token : Token} (scanned : token.Scanned)
    (isInt : token.kind = .int) {value : Int} (read : integer? token.text = some value) :
    token.datum? = some (.int value) := by
  obtain ⟨signed, -⟩ := Option.filter_eq_some_iff.1 read
  rw [signedNumeral?_of_isNumeral (scanned.int isInt)] at signed
  rw [datum?, isInt, ← Option.some.inj signed]

namespace Parse

variable {g : Grammar} {c : Cursor}

/-! ## What begins an expression -/

theorem keeps_int (isInt : c.kind = .int) : Keeps 0 (literal integer? .int) Expr.data c := by
  refine .take (by rw [isInt]; nofun) fun scanned _ => ?_
  split
  next value read =>
    refine .pure ?_
    rw [Token.data_singleton, scanned.datum?_int isInt read, zero_add]
    rfl
  next => exact .halt

/-- A literal without a datum. -/
theorem keeps_double (isDouble : c.kind = .double) :
    Keeps 0 (literal Binary64.ofText? .double) Expr.data c := by
  refine .mark (isDouble ▸ rfl) fun _ => ?_
  split
  · exact .pure rfl
  · exact .halt

theorem keeps_textLiteral {build : String → Span → Expr} (notEnd : c.kind ≠ .eof)
    (datum : ∀ span, (c.current.datum?.toList : Multiset Datum) =
      (build c.current.text span).data) :
    Keeps 0 (textLiteral build) Expr.data c := by
  refine .take notEnd fun _ _ => .pure ?_
  rw [Token.data_singleton, datum, zero_add]

theorem keeps_primary : Keeps 0 primary Expr.data c := by
  refine .onKind ?_
  split
  next isInt => exact keeps_int isInt
  next isDouble => exact keeps_double isDouble
  next isTrue => exact .mark (isTrue ▸ rfl) fun _ => .pure rfl
  next isFalse => exact .mark (isFalse ▸ rfl) fun _ => .pure rfl
  next isString =>
    have datum : c.current.datum? = some (.string c.current.text) := by
      rw [Token.datum?, ← Cursor.kind, isString]
    exact keeps_textLiteral (by rw [isString]; decide) fun _ => by rw [datum]; rfl
  next isChar =>
    have datum : c.current.datum? = some (.char c.current.text) := by
      rw [Token.datum?, ← Cursor.kind, isChar]
    exact keeps_textLiteral (by rw [isChar]; decide) fun _ => by rw [datum]; rfl
  next =>
    refine .bind (keeps_identifierOf fun _ => keeps_name) fun found _ => ?_
    cases found with
    | plain text span => exact .pure (zero_add _).symm
    | applied segment =>
      refine .pure ?_
      rw [Expr.data, Name.data_eq, total_cons, total_nil, add_zero, zero_add]
      rfl
  next => exact keeps_unexpected _

section Inner

variable {expr : Precedence → Parse Expr} (each : ∀ p c, Keeps 0 (expr p) Expr.data c)

include each

/-- **A sign** adds the number that it stands for. -/
theorem keeps_sign (isMark : c.kind.isMark = true) : Keeps 0 (sign expr) Expr.data c := by
  refine .mark isMark fun _ => .bind (each _ _) fun operand _ => ?_
  rw [zero_add]
  split
  · exact .pure rfl
  · exact .pure_of_kept (.add_int _ _ _)
  · exact .pure_of_kept (.add_int _ _ _)
  · exact .pure_of_kept (.add_int _ _ _)
  · exact .halt

theorem keeps_group (isMark : c.kind.isMark = true) : Keeps 0 (group expr) Expr.data c :=
  .mark isMark fun _ => .bind (each _ _) fun _ _ => .skip (silent_expect rfl) fun _ _ =>
    .pure (zero_add _).symm

/-- **A field without a value** repeats its word. -/
theorem keeps_fieldValue :
    Keeps 0 (fieldValue expr) (fun field => {.word field.1} + field.2.data) c := by
  refine .skip (silent_expect rfl) fun _ _ => .word fun token _ _ _ => .onKind ?_
  rw [zero_add]
  split
  · exact .pure_of_kept (.word_twice _ _)
  · exact .pure_of_kept (.word_twice _ _)
  · exact .skip (silent_expect rfl) fun _ _ => .bind (each _ _) fun _ _ => .pure rfl

theorem keeps_structLiteral : Keeps 0 (structLiteral expr) Expr.data c := by
  refine .skip silent_here fun start _ => .skip (silent_consume rfl) fun isMutable _ => ?_
  refine .skip (silent_expect rfl) fun _ _ => ?_
  refine .bind (keeps_separated fun _ => keeps_fieldValue each) fun fields _ => ?_
  refine .skip (silent_expect rfl) fun _ _ => .skip (silent_spanFrom _) fun _ _ => .pure ?_
  rw [Expr.data, dataOfFieldValues_eq, zero_add]

theorem keeps_arrayLiteral : Keeps 0 (arrayLiteral expr) Expr.data c := by
  refine .skip silent_here fun start _ => .skip (silent_expect rfl) fun _ _ => ?_
  refine .bind (keeps_separated fun _ => each _ _) fun values _ => ?_
  refine .skip (silent_expect rfl) fun _ _ => .skip (silent_spanFrom _) fun _ _ => .pure ?_
  rw [Expr.data, dataOfValues_eq, zero_add]

theorem keeps_lead (form : Lead) (isMark : form ≠ .primary → c.kind.isMark = true) :
    Keeps 0 (lead expr form) Expr.data c := by
  cases form with
  | primary => exact keeps_primary
  | sign => exact keeps_sign each (isMark nofun)
  | group => exact keeps_group each (isMark nofun)
  | structLiteral => exact keeps_structLiteral each
  | arrayLiteral => exact keeps_arrayLiteral each

/-! ## What continues an expression -/

theorem keeps_binary (isMark : c.kind.isMark = true) (left : Expr) (precedence : Precedence) :
    Keeps left.data (binary expr left precedence) Expr.data c := by
  refine .mark isMark fun _ => ?_
  split
  · exact .halt
  · exact .bind (each _ _) fun _ _ => .pure rfl

theorem keeps_call (isMark : c.kind.isMark = true) (left : Expr) :
    Keeps left.data (call expr left) Expr.data c := by
  refine .mark isMark fun _ => .bind (keeps_separated fun _ => each _ _) fun arguments _ => ?_
  refine .skip (silent_expect rfl) fun _ _ => .skip (silent_spanFrom _) fun _ _ => .pure ?_
  rw [Expr.data, dataOfValues_eq]

theorem keeps_index (isMark : c.kind.isMark = true) (left : Expr) :
    Keeps left.data (index expr left) Expr.data c :=
  .mark isMark fun _ => .bind (each _ _) fun _ _ => .skip (silent_expect rfl) fun _ _ =>
    .skip (silent_spanFrom _) fun _ _ => .pure rfl

omit each in
/-- **A point** keeps the name in front of it, or the value that a member is selected of. -/
theorem keeps_member (isMark : c.kind.isMark = true) (left : Expr) :
    Keeps left.data (member left) Expr.data c := by
  refine .mark isMark fun _ => ?_
  split
  next text span =>
    refine .skip silent_freshId fun id _ => .bind keeps_segment fun second _ => ?_
    refine .skip (silent_spanFrom _) fun _ _ => .pure ?_
    simp [Expr.data, Name.data_eq, Segment.data_eq]
  next name =>
    refine .bind keeps_segment fun next _ => .skip (silent_spanFrom _) fun _ _ => .pure ?_
    simp [Expr.data, Name.data_eq]
  next =>
    exact .word fun token _ _ _ => .skip (silent_spanFrom _) fun _ _ => .pure rfl

theorem keeps_follow (isMark : c.kind.isMark = true) (form : Follow) (left : Expr)
    (precedence : Precedence) : Keeps left.data (follow expr form left precedence) Expr.data c := by
  cases form with
  | binary => exact keeps_binary each isMark left precedence
  | call => exact keeps_call each isMark left
  | index => exact keeps_index each isMark left
  | member => exact keeps_member isMark left

end Inner

/-! ## Expressions -/

/-- An expression at a depth. -/
theorem keeps_exprUpTo (marks : g.ByMarks) (n : Nat) (precedence : Precedence) :
    Keeps 0 (exprUpTo g n precedence) Expr.data c := by
  induction n generalizing precedence c with
  | zero => exact .halt
  | succ n ih =>
    have opened : Keeps 0 (opening g (exprUpTo g n)) Expr.data c := by
      refine .look ?_
      split
      next form leads => exact keeps_lead (fun p c => ih p) form (marks.lead leads)
      next => exact .halt
    have extended (left : Expr) (c : Cursor) :
        Keeps left.data (extend g (exprUpTo g n) left) Expr.data c := by
      refine .onKind ?_
      split
      next form follows => exact keeps_follow (fun p c => ih p) (marks.follow follows) form left _
      next => exact .pure rfl
    refine .seq opened fun first _ => ?_
    exact keeps_growWhile (fun left c _ => extended left c) first

/-- **An expression keeps data.** -/
theorem keeps_expr (marks : g.ByMarks) (precedence : Precedence) :
    Keeps 0 (expr g precedence) Expr.data c :=
  .look (keeps_exprUpTo marks _ precedence)

end Parse

end FrontEnd

import FrontEnd.Proofs.Grammar.Placing
import FrontEnd.Proofs.Scope.Faults

/-!
# The marks of a text ascend

A use of a name has the offset of a token, and so has a word that controls a loop. They are visited
in the order of the tree, which is not the order in which the tree is made: the operation that a
sign stands for gets a number that no token is, a field without a value is a use of its own name,
and an assignment with an operator has its target twice. Still no part of a tree stands before one
that was read earlier.

Marks are said to lie in ascending order in the space that an action takes (`Spread`), and the rules
for offsets that lie in a space apply (`Lies`).

**The law** (`FnDecl.marks_ascend`): the marks of the body of a function that was read from a text
ascend, with no offset among them twice.
-/

namespace FrontEnd

/-- **Offsets taken between two places in ascending order.** -/
structure Spread (first : Nat) (offsets : List Nat) (next : Nat) : Prop where
  le : first ≤ next
  inside : ∀ offset ∈ offsets, first ≤ offset ∧ offset < next
  ascend : offsets.Pairwise (· < ·)

namespace Spread

variable {first next last : Nat} {offsets further : List Nat}

theorem append (before : Spread first offsets next) (behind : Spread next further last) :
    Spread first (offsets ++ further) last where
  le := Nat.le_trans before.le behind.le
  inside := by
    intro offset mem
    rcases List.mem_append.1 mem with mem | mem
    · have within := before.inside offset mem
      exact ⟨within.1, Nat.lt_of_lt_of_le within.2 behind.le⟩
    · have within := behind.inside offset mem
      exact ⟨Nat.le_trans before.le within.1, within.2⟩
  ascend := by
    refine List.pairwise_append.2 ⟨before.ascend, behind.ascend, fun a memA b memB => ?_⟩
    exact Nat.lt_of_lt_of_le (before.inside a memA).2 (behind.inside b memB).1

end Spread

instance : TakingLaw Spread List.Sublist where
  none place := ⟨Nat.le_refl place, nofun, .nil⟩
  single place := ⟨Nat.le_succ place, by simp, List.pairwise_singleton ..⟩
  append := .append
  mono taken further :=
    ⟨Nat.le_trans taken.le further, fun offset mem =>
      ⟨(taken.inside offset mem).1, Nat.lt_of_lt_of_le (taken.inside offset mem).2 further⟩,
      taken.ascend⟩
  fewer taken sub :=
    ⟨taken.le, fun offset mem => taken.inside offset (sub.subset mem), taken.ascend.sublist sub⟩
  refl := .refl

/-- **An action spreads the marks of what it gives** over the space that it takes. -/
abbrev Spreads {α : Type} (used : List Nat) (action : Parse α) (marks : α → List Nat)
    (c : Cursor) : Prop :=
  Lies Spread used action marks c

/-! ## The marks of expressions -/

namespace Expr

theorem marks_binary (operator : Operator) (left right : Expr) (span : Span) :
    (binary operator left right span).marks = left.marks ++ right.marks :=
  List.map_append

theorem marks_operation (operator : Operator) (left right : Expr) :
    (operation operator left right).marks = left.marks ++ right.marks :=
  marks_binary ..

theorem marks_call (callee : Expr) (arguments : List Expr) (span : Span) :
    (call callee arguments span).marks = callee.marks ++ arguments.flatMap marks := by
  rw [marks, uses, usesOfList_eq, List.map_append, List.map_flatMap]
  rfl

theorem marks_index (base position : Expr) (span : Span) :
    (index base position span).marks = base.marks ++ position.marks :=
  List.map_append

theorem marks_structLiteral (isMutable : Bool) (fields : List (String × Expr)) (span : Span) :
    (structLiteral isMutable fields span).marks = fields.flatMap (·.2.marks) := by
  rw [marks, uses, usesOfFields_eq, List.map_flatMap, List.flatMap_map]
  rfl

theorem marks_arrayLiteral (values : List Expr) (span : Span) :
    (arrayLiteral values span).marks = values.flatMap marks := by
  rw [marks, uses, usesOfList_eq, List.map_flatMap]
  rfl

end Expr

/-- The mark of an identifier, if it is a use. -/
def Identifier.mark : Identifier → Nat
  | .plain _ span => span.start.offset
  | .applied segment => segment.span.start.offset

/-- The marks of a declaration. -/
def Decl.marks : Decl → List Nat
  | .function d => marksOfBody d.body
  | _ => []

namespace Parse

open Token

variable {g : Grammar} {c : Cursor}

/-! ## Expressions -/

theorem spreads_identifier : Spreads [] identifier (fun found => [found.mark]) c := by
  refine .bind (lies_expect nofun) fun token c => .look ?_
  split
  · refine .pass moves_freshId fun id c => .pass ?_ fun arguments c => ?_
    · exact (moves_typeArguments (Nat.le_succ c.left.length) fun _ _ => moves_name).weaken
    · exact .close fun stop => .pure (.refl _)
  · exact .pure (.refl _)

theorem spreads_segment : Spreads [] segment (fun found => [found.span.start.offset]) c := by
  refine .bind spreads_identifier fun found _ => ?_
  cases found with
  | plain text span => exact .pass moves_freshId fun _ _ => .pure (.refl _)
  | applied segment => exact .pure (.refl _)

theorem spreads_literal {α : Type} {read : String → Option α} {build : α → Span → Expr}
    (plain : ∀ value span, (build value span).marks = []) (notEnd : c.kind ≠ .eof) :
    Spreads [] (literal read build) Expr.marks c := by
  refine .pass (moves_advance notEnd).weaken fun token _ => ?_
  split
  next value _ => exact .pure (plain value token.span ▸ .refl _)
  next => exact .halt

theorem spreads_textLiteral {build : String → Span → Expr}
    (plain : ∀ text span, (build text span).marks = []) (notEnd : c.kind ≠ .eof) :
    Spreads [] (textLiteral build) Expr.marks c :=
  .pass (moves_advance notEnd).weaken fun token _ => .pure (plain token.text token.span ▸ .refl _)

theorem spreads_primary : Spreads [] primary Expr.marks c := by
  refine .onKind ?_
  split
  next here => exact spreads_literal (fun _ _ => rfl) (by rw [here]; nofun)
  next here => exact spreads_literal (fun _ _ => rfl) (by rw [here]; nofun)
  next here => exact .pass (moves_advance (by rw [here]; nofun)).weaken fun _ _ => .pure (.refl _)
  next here => exact .pass (moves_advance (by rw [here]; nofun)).weaken fun _ _ => .pure (.refl _)
  next here => exact spreads_textLiteral (fun _ _ => rfl) (by rw [here]; nofun)
  next here => exact spreads_textLiteral (fun _ _ => rfl) (by rw [here]; nofun)
  next =>
    refine .bind spreads_identifier fun found _ => ?_
    cases found with
    | plain text span => exact .pure (.refl _)
    | applied segment => exact .pure (.refl _)
  next => exact .look .halt

section Parts

variable {expr : Precedence → Parse Expr} (each : ∀ p c, Spreads [] (expr p) Expr.marks c)

include each

theorem spreads_sign (notEnd : c.kind ≠ .eof) : Spreads [] (sign expr) Expr.marks c := by
  refine .pass (moves_advance notEnd).weaken fun token _ => .bind (each _ _) fun operand _ => ?_
  have alone (operator : Operator) (value : Int) :
      (Expr.operation operator operand (.int value token.span)).marks = operand.marks :=
    (Expr.marks_operation ..).trans (List.append_nil _)
  split
  · exact .pure (.refl _)
  · exact .pure (alone .multiply (-1) ▸ .refl _)
  · exact .pure (alone .add 1 ▸ .refl _)
  · exact .pure (alone .subtract 1 ▸ .refl _)
  · exact .halt

theorem spreads_group (notEnd : c.kind ≠ .eof) : Spreads [] (group expr) Expr.marks c :=
  .pass (moves_advance notEnd).weaken fun _ _ => .bind (each _ _) fun _ _ =>
    .pass (moves_further nofun) fun _ _ => .pure (.refl _)

/-- A field without a value is a use at its name; with one, the name is none. -/
theorem spreads_fieldValue : Spreads [] (fieldValue expr) (·.2.marks) c := by
  refine .pass (moves_further nofun) fun _ _ => .bind (lies_expect nofun) fun token _ => .onKind ?_
  split
  · exact .pure (.refl _)
  · exact .pure (.refl _)
  · refine .pass (moves_further nofun) fun _ _ => .bind (each _ _) fun value _ => .pure ?_
    exact List.sublist_append_right ..

theorem spreads_structLiteral : Spreads [] (structLiteral expr) Expr.marks c := by
  refine .pass moves_here fun _ _ => .pass (moves_consume nofun) fun _ _ => ?_
  refine .pass (moves_further nofun) fun _ _ => ?_
  refine .bind (lies_separated (fun _ => spreads_fieldValue each) _) fun fields _ => ?_
  refine .pass (moves_further nofun) fun _ _ => .close fun _ => .pure ?_
  rw [Expr.marks_structLiteral]
  exact .refl _

theorem spreads_arrayLiteral : Spreads [] (arrayLiteral expr) Expr.marks c := by
  refine .pass moves_here fun _ _ => .pass (moves_further nofun) fun _ _ => ?_
  refine .bind (lies_separated (each _) _) fun values _ => ?_
  refine .pass (moves_further nofun) fun _ _ => .close fun _ => .pure ?_
  rw [Expr.marks_arrayLiteral]
  exact .refl _

theorem spreads_lead (notEnd : c.kind ≠ .eof) (form : Lead) :
    Spreads [] (lead expr form) Expr.marks c := by
  cases form with
  | primary => exact spreads_primary
  | sign => exact spreads_sign each notEnd
  | group => exact spreads_group each notEnd
  | structLiteral => exact spreads_structLiteral each
  | arrayLiteral => exact spreads_arrayLiteral each

theorem spreads_binary (notEnd : c.kind ≠ .eof) (left : Expr) (precedence : Precedence) :
    Spreads left.marks (binary expr left precedence) Expr.marks c := by
  refine .pass (moves_advance notEnd).weaken fun token _ => ?_
  split
  · exact .halt
  · refine .bind (each _ _) fun right _ => .pure ?_
    rw [Expr.marks_operation]

theorem spreads_call (notEnd : c.kind ≠ .eof) (left : Expr) :
    Spreads left.marks (call expr left) Expr.marks c := by
  refine .pass (moves_advance notEnd).weaken fun _ _ => ?_
  refine .bind (lies_separated (each _) _) fun arguments _ => ?_
  refine .pass (moves_further nofun) fun _ _ => .close fun _ => .pure ?_
  rw [Expr.marks_call]

theorem spreads_index (notEnd : c.kind ≠ .eof) (left : Expr) :
    Spreads left.marks (index expr left) Expr.marks c := by
  refine .pass (moves_advance notEnd).weaken fun _ _ => .bind (each _ _) fun position _ => ?_
  refine .pass (moves_further nofun) fun _ _ => .close fun _ => .pure ?_
  rw [Expr.marks_index]

omit each in
/-- A symbol that becomes the first segment of a name keeps its place. -/
theorem spreads_member (notEnd : c.kind ≠ .eof) (left : Expr) :
    Spreads left.marks (member left) Expr.marks c := by
  refine .pass (moves_advance notEnd).weaken fun _ _ => ?_
  split
  next text span =>
    exact .pass moves_freshId fun id _ => .pass moves_segment.weaken fun second _ =>
      .close fun _ => .pure (.refl _)
  next name =>
    refine .bind spreads_segment fun next _ => .close fun _ => .pure ?_
    obtain ⟨_ | ⟨first, rest⟩, span⟩ := name
    · exact .refl _
    · exact List.sublist_append_left ..
  next =>
    exact .pass (moves_further nofun) fun _ _ => .close fun _ => .pure (.refl _)

theorem spreads_follow (notEnd : c.kind ≠ .eof) (form : Follow) (left : Expr)
    (precedence : Precedence) :
    Spreads left.marks (follow expr form left precedence) Expr.marks c := by
  cases form with
  | binary => exact spreads_binary each notEnd left precedence
  | call => exact spreads_call each notEnd left
  | index => exact spreads_index each notEnd left
  | member => exact spreads_member notEnd left

theorem spreads_extend (ends : g.LeavesEnd) (left : Expr) :
    Spreads left.marks (extend g expr left) Expr.marks c := by
  refine .onKind ?_
  split
  next form found => exact spreads_follow each (ne_eof_of_some ends.follow found) form left _
  next => exact .pure (.refl _)

theorem spreads_opening (ends : g.LeavesEnd) : Spreads [] (opening g expr) Expr.marks c := by
  refine .look ?_
  split
  next form found => exact spreads_lead each (ne_eof_of_some ends.lead found) form
  next => exact .halt

end Parts

theorem spreads_exprUpTo (ends : g.LeavesEnd) (n : Nat) (precedence : Precedence) (c : Cursor) :
    Spreads [] (exprUpTo g n precedence) Expr.marks c := by
  induction n generalizing precedence c with
  | zero => exact .halt
  | succ n ih =>
    refine .bind (spreads_opening ih ends) fun first _ => ?_
    exact lies_growWhile (fun left _ => spreads_extend ih ends left) _ first

/-- **The uses in an expression ascend**, in the space that the expression takes. -/
theorem spreads_expr (ends : g.LeavesEnd) (precedence : Precedence) (c : Cursor) :
    Spreads [] (expr g precedence) Expr.marks c :=
  .look (spreads_exprUpTo ends _ precedence c)

/-! ## Statements -/

theorem spreads_declaration (ends : g.LeavesEnd) (used : List Nat) (isMutable : Bool) (type : Name)
    (start : Position) : Spreads used (declaration g isMutable type start) Stmt.marks c := by
  refine .pass moves_arrayMark fun _ _ => .pass (moves_further nofun) fun _ _ => ?_
  refine .pass (moves_further nofun) fun _ _ => .bind (spreads_expr ends _ _) fun initial _ => ?_
  exact .pass (moves_further nofun) fun _ _ => .close fun _ => .pure (List.sublist_append_right ..)

/-- What the value of an assignment has beside its target are marks of the right side. -/
theorem marksBeside_sublist {k : Kind} {assigned : Expr → Expr → Expr}
    (h : assignedValue? k = some assigned) (target value : Expr) :
    (target.marksBeside (assigned target value)).Sublist value.marks := by
  rcases assignedValue?_cases h with ⟨-, rfl⟩ | ⟨-, operator, rfl⟩
  · exact List.filter_sublist.map _
  · have repeated : target.uses.filter (· ∉ target.uses) = [] := by simp
    rw [Expr.marksBeside, Expr.operation, Expr.uses, List.filter_append, repeated]
    exact List.filter_sublist.map _

theorem spreads_assignment (ends : g.LeavesEnd) (target : Expr) (start : Position) :
    Spreads target.marks (assignment g target start) Stmt.marks c := by
  refine .onKind ?_
  split
  · exact .pass (moves_further nofun) fun _ _ => .close fun _ => .pure (.refl _)
  next assigned assigns =>
    split
    · refine .pass (moves_advance (ne_eof_of_some rfl assigns)).weaken fun _ _ => ?_
      refine .bind (spreads_expr ends _ _) fun value _ => .pass (moves_further nofun) fun _ _ => ?_
      exact .close fun _ => .pure ((marksBeside_sublist assigns target value).append_left _)
    · exact .halt

theorem spreads_simple (ends : g.LeavesEnd) : Spreads [] (simple g) Stmt.marks c := by
  refine .pass moves_here fun start _ => .bind (spreads_expr ends _ _) fun first _ => .look ?_
  split
  · split
    · exact .pass moves_freshId fun id _ => spreads_declaration ends _ _ _ _
    · exact spreads_declaration ends _ _ _ _
    · exact spreads_assignment ends _ _
  · exact spreads_assignment ends _ _

section Blocks

variable {block : Parse (List Stmt)}

theorem spreads_condition (ends : g.LeavesEnd) : Spreads [] (condition g) Expr.marks c :=
  .pass (moves_further nofun) fun _ _ => .bind (spreads_expr ends _ _) fun _ _ =>
    .pass (moves_further nofun) fun _ _ => .pure (.refl _)

theorem spreads_returnWith (ends : g.LeavesEnd) (notEnd : c.kind ≠ .eof) :
    Spreads [] (returnWith g) Stmt.marks c := by
  refine .pass (moves_advance notEnd).weaken fun _ _ => .onKind ?_
  dsimp only
  split
  · rw [pure_bind]
    exact .pass (moves_further nofun) fun _ _ => .close fun _ => .pure (.refl _)
  · rw [map_eq_pure_bind, bind_assoc]
    refine .bind (spreads_expr ends _ _) fun value _ => ?_
    rw [pure_bind]
    exact .pass (moves_further nofun) fun _ _ => .close fun _ => .pure (.refl _)

/-- A word that controls a loop has its own mark. -/
theorem spreads_control {build : Span → Stmt} (notEnd : c.kind ≠ .eof)
    (marked : ∀ span, (build span).marks = [span.start.offset]) :
    Spreads [] (control build) Stmt.marks c := by
  refine .bind (.advance notEnd) fun token _ => .pass (moves_further nofun) fun _ _ => ?_
  refine .close fun stop => .pure ?_
  rw [marked]
  exact .refl _

theorem spreads_declareMutable (ends : g.LeavesEnd) (notEnd : c.kind ≠ .eof) :
    Spreads [] (declareMutable g) Stmt.marks c :=
  .pass (moves_advance notEnd).weaken fun _ _ => .pass moves_name.weaken fun type _ =>
    spreads_declaration ends _ true type _

variable (inner : ∀ c, Spreads [] block marksOfBody c)

include inner

theorem spreads_loop (ends : g.LeavesEnd) (notEnd : c.kind ≠ .eof) :
    Spreads [] (loop g block) Stmt.marks c :=
  .pass (moves_advance notEnd).weaken fun _ _ => .bind (spreads_condition ends) fun _ _ =>
    .bind (inner _) fun _ _ => .close fun _ => .pure (.refl _)

theorem spreads_arm (ends : g.LeavesEnd) : Spreads [] (arm g block) Arm.marks c :=
  .bind (spreads_condition ends) fun _ _ => .bind (inner _) fun _ _ => .pure (.refl _)

theorem spreads_furtherArm (ends : g.LeavesEnd)
    (elseIf : (decide (c.kind = .elseWord) && decide (c.peek 1 = .ifWord)) = true) :
    Spreads [] (do let _ ← advance; let _ ← advance; arm g block) Arm.marks c := by
  obtain ⟨isElse, isIf⟩ : c.kind = .elseWord ∧ c.peek 1 = .ifWord := by simpa using elseIf
  refine .step (by rw [isElse]; nofun) fun next => ?_
  exact .step (by rw [next, isIf]; nofun) fun _ => spreads_arm inner ends

theorem spreads_branch (ends : g.LeavesEnd) (notEnd : c.kind ≠ .eof) :
    Spreads [] (branch g block) Stmt.marks c := by
  refine .pass (moves_advance notEnd).weaken fun _ _ => ?_
  refine .bind (spreads_arm inner ends) fun first _ => ?_
  refine .bind (lies_repeatWhile fun c => spreads_furtherArm inner ends) fun others _ => ?_
  rw [← marksOfArms_eq]
  refine .pass (moves_consume nofun) fun hasLast _ => ?_
  dsimp only
  split
  · refine .bind (inner _) fun otherwise _ => .close fun _ => .pure ?_
    rw [List.nil_append, List.append_assoc]
    exact .refl _
  · rw [pure_bind]
    refine .close fun _ => .pure ?_
    rw [List.nil_append, Stmt.marks, marksOfBody, List.append_nil]

theorem spreads_caseBody (ends : g.LeavesEnd) : Spreads [] (caseBody g block) CaseBody.marks c := by
  refine .onKind ?_
  split
  · exact .map (inner _) fun _ => .refl _
  · exact .map (spreads_expr ends _ _) fun _ => .refl _

theorem spreads_case (ends : g.LeavesEnd) : Spreads [] (case g block) Case.marks c :=
  .bind (spreads_expr ends _ _) fun _ _ => .pass (moves_further nofun) fun _ _ =>
    .bind (spreads_caseBody inner ends) fun _ _ => .pass (moves_separator _) fun _ _ =>
      .pure (.refl _)

theorem spreads_lastCase (ends : g.LeavesEnd) :
    Spreads [] (lastCase g block) marksOfLast c := by
  refine .pass (moves_consume nofun) fun hasLast _ => ?_
  split
  · exact .pass (moves_further nofun) fun _ _ => .bind (spreads_caseBody inner ends) fun _ _ =>
      .pass (moves_separator _) fun _ _ => .pure (.refl _)
  · exact .pure (.refl _)

theorem spreads_select (ends : g.LeavesEnd) (notEnd : c.kind ≠ .eof) :
    Spreads [] (select g block) Stmt.marks c := by
  refine .pass (moves_advance notEnd).weaken fun _ _ => ?_
  refine .bind (spreads_condition ends) fun subject _ => .pass (moves_further nofun) fun _ _ => ?_
  refine .bind (lies_repeatWhile fun c _ => spreads_case inner ends) fun cases _ => ?_
  refine .bind (spreads_lastCase inner ends) fun otherwise _ => ?_
  refine .pass (moves_further nofun) fun _ _ => .close fun _ => .pure ?_
  rw [← marksOfCases_eq, List.nil_append, List.append_assoc]
  exact .refl _

theorem spreads_formStmt (ends : g.LeavesEnd) (notEnd : c.kind ≠ .eof) (form : StmtForm) :
    Spreads [] (formStmt g block form) Stmt.marks c := by
  cases form with
  | loop => exact spreads_loop inner ends notEnd
  | branch => exact spreads_branch inner ends notEnd
  | returnWith => exact spreads_returnWith ends notEnd
  | select => exact spreads_select inner ends notEnd
  | breakLoop => exact spreads_control notEnd fun _ => rfl
  | continueLoop => exact spreads_control notEnd fun _ => rfl
  | declareMutable => exact spreads_declareMutable ends notEnd

end Blocks

theorem spreads_blockOf {stmt : Parse Stmt} (each : ∀ c, Spreads [] stmt Stmt.marks c) :
    Spreads [] (blockOf stmt) marksOfBody c := by
  refine .pass (moves_further nofun) fun _ _ => ?_
  refine .bind (lies_repeatWhile fun c _ => each c) fun body _ => ?_
  refine .pass (moves_further nofun) fun _ _ => .pure ?_
  rw [marksOfBody_eq]
  exact .refl _

theorem spreads_stmtUpTo (ends : g.LeavesEnd) (n : Nat) (c : Cursor) :
    Spreads [] (stmtUpTo g n) Stmt.marks c := by
  induction n generalizing c with
  | zero => exact .halt
  | succ n ih =>
    refine .onKind ?_
    split
    next form found =>
      exact spreads_formStmt (fun _ => spreads_blockOf ih) ends
        (ne_eof_of_some ends.stmt found) form
    next => exact spreads_simple ends

/-- **The marks of a block ascend**, in the space that the block takes. -/
theorem spreads_block (ends : g.LeavesEnd) : Spreads [] (block g) marksOfBody c :=
  spreads_blockOf fun c => .look (spreads_stmtUpTo ends _ c)

/-! ## Declarations -/

theorem spreads_function (ends : g.LeavesEnd) :
    Spreads [] (function g) (fun d => marksOfBody d.body) c := by
  refine .pass moves_here fun _ _ => .pass (moves_consume nofun) fun _ _ => ?_
  refine .pass (moves_further nofun) fun _ _ => .pass moves_typeParameters fun _ _ => ?_
  refine .pass moves_name.weaken fun _ _ => .pass moves_inputs fun _ _ => ?_
  refine .pass moves_output fun _ _ => .bind (spreads_block ends) fun body _ => ?_
  exact .close fun _ => .pure (.refl _)

theorem spreads_decl (ends : g.LeavesEnd) : Spreads [] (decl g) Decl.marks c := by
  refine .onKind ?_
  split
  next => exact .map (.idle (moves_struct ends).weaken) fun _ => .refl _
  next => exact .map (spreads_function ends) fun _ => .refl _
  next known =>
    exact .map (.idle (moves_interface (ne_eof_of_some ends.decl known)).weaken) fun _ => .refl _
  next known =>
    exact .map (.idle (moves_synonym (ne_eof_of_some ends.decl known)).weaken) fun _ => .refl _
  next known =>
    exact .map (.idle (moves_enum (ne_eof_of_some ends.decl known)).weaken) fun _ => .refl _
  next => exact .look .halt

end Parse

/-- **The marks of a file ascend**, over all its functions, when it is parsed from a text. -/
theorem File.marks_ascend {name text : String} {tokens : List Token} {firstId nextId : Nat}
    {file : File} (scanned : Token.ofText name text = .ok tokens)
    (parsed : File.ofTokens tokens firstId = .ok (file, nextId)) :
    (file.declarations.flatMap Decl.marks).Pairwise (· < ·) := by
  obtain ⟨first, last, spread⟩ := File.lies_declarations
    (fun _ => Parse.spreads_decl Grammar.leavesEnd_standard) scanned parsed
  exact spread.ascend

/-- **The marks of a function ascend** that stands in a file parsed from a text. -/
theorem FnDecl.marks_ascend {name text : String} {tokens : List Token} {firstId nextId : Nat}
    {file : File} {function : FnDecl} (scanned : Token.ofText name text = .ok tokens)
    (parsed : File.ofTokens tokens firstId = .ok (file, nextId)) (mem : function ∈ file.functions) :
    (marksOfBody function.body).Pairwise (· < ·) := by
  obtain ⟨d, mem, isFunction⟩ := List.mem_filterMap.1 mem
  obtain ⟨front, behind, split⟩ := List.append_of_mem mem
  have ascends := File.marks_ascend scanned parsed
  rw [split, List.flatMap_append, List.flatMap_cons] at ascends
  have own : d.marks.Pairwise (· < ·) :=
    (List.pairwise_append.1 (List.pairwise_append.1 ascends).2.1).1
  cases d with
  | function d =>
    cases isFunction
    exact own
  | _ => cases isFunction

end FrontEnd

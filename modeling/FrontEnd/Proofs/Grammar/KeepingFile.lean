import FrontEnd.Grammar.Decl
import FrontEnd.Proofs.Grammar.KeepingExpr

/-!
# Parsing files keeps the data of their tokens

The rules for statements, declarations and files, one for each action. What is read of a file grows
item by item, and each item keeps the data of those before it. Only one statement repeats more than
a word: the value of a compound assignment has the target in it.

**The law** (`Parse.keeps_file`): the action for files keeps data.
-/

namespace FrontEnd

open Token

namespace Parse

variable {g : Grammar} {c : Cursor}

/-! ## Statements -/

section Statements

variable (marks : g.ByMarks)

include marks

theorem keeps_condition : Keeps 0 (condition g) Expr.data c :=
  .skip (silent_expect rfl) fun _ _ => .bind (keeps_expr marks _) fun _ _ =>
    .skip (silent_expect rfl) fun _ _ => .pure (zero_add _).symm

theorem keeps_declaration (isMutable : Bool) (type : Name) (start : Position) :
    Keeps type.data (declaration g isMutable type start) Stmt.data c := by
  refine .skip silent_arrayMark fun isArray _ => .word fun token _ _ _ => ?_
  refine .skip (silent_expect rfl) fun _ _ => .bind (keeps_expr marks _) fun initial _ => ?_
  exact .skip (silent_expect rfl) fun _ _ => .skip (silent_spanFrom _) fun _ _ => .pure rfl

/-- **An assignment** keeps the data of both sides; a compound one repeats those of its target. -/
theorem keeps_assignment (target : Expr) (start : Position) :
    Keeps target.data (assignment g target start) Stmt.data c := by
  refine .onKind ?_
  split
  · exact .skip (silent_expect rfl) fun _ _ => .skip (silent_spanFrom _) fun _ _ => .pure rfl
  next assigned assigns =>
    refine .ite (fun _ => ?_) fun _ => .halt
    rcases assignedValue?_cases assigns with ⟨isAssignment, rfl⟩ | ⟨isOther, operator, rfl⟩
    · have isMark : c.kind.isMark = true := isAssignment ▸ rfl
      refine .mark isMark fun _ => .bind (keeps_expr marks _) fun value _ => ?_
      exact .skip (silent_expect rfl) fun _ _ => .skip (silent_spanFrom _) fun _ _ => .pure rfl
    · have isCompound : ∀ k ∈ [Kind.plusEquals, .minusEquals, .starEquals, .slashEquals],
          k.isCompound = true := by decide
      refine .compound (isCompound _ isOther) (.twice _) ?_
      refine .bind (keeps_expr marks _) fun value _ => ?_
      refine .skip (silent_expect rfl) fun _ _ => .skip (silent_spanFrom _) fun _ _ => .pure ?_
      exact (add_assoc ..).symm

/-- **A statement that begins with an expression**: where it declares a variable, the expression is
the type. -/
theorem keeps_simple : Keeps 0 (simple g) Stmt.data c := by
  refine .skip silent_here fun start _ => .seq (keeps_expr marks _) fun first c' => .look ?_
  split
  · split
    next text span =>
      refine .skip silent_freshId fun id c' => ?_
      have words : (Name.single id text span).data = (Expr.symbol text span).data := by
        simp [Name.data_eq, Name.single, Segment.data_eq, Expr.data]
      rw [← words]
      exact keeps_declaration marks false (.single id text span) start
    next type => exact keeps_declaration marks false type start
    next => exact keeps_assignment marks first start
  · exact keeps_assignment marks first start

section Blocks

variable {block : Parse (List Stmt)} (inner : ∀ c, Keeps 0 block (total Stmt.data) c)

include inner

theorem keeps_loop (isMark : c.kind.isMark = true) : Keeps 0 (loop g block) Stmt.data c := by
  refine .mark isMark fun _ => .bind (keeps_condition marks) fun condition _ => ?_
  refine .bind (inner _) fun body _ => .skip (silent_spanFrom _) fun _ _ => .pure ?_
  rw [Stmt.data, dataOfBody_eq, zero_add]

theorem keeps_arm : Keeps 0 (arm g block) Arm.data c := by
  refine .bind (keeps_condition marks) fun condition _ => .bind (inner _) fun body _ => .pure ?_
  rw [Arm.data, dataOfBody_eq, zero_add]

/-- A further arm stands behind two words. -/
theorem keeps_furtherArm (follows : c.kind = .elseWord ∧ c.peek 1 = .ifWord) :
    Keeps 0 (do let _ ← advance; let _ ← advance; arm g block) Arm.data c := by
  refine .mark (follows.1 ▸ rfl) fun next => .mark ?_ fun _ => keeps_arm marks inner
  rw [next, follows.2]
  rfl

theorem keeps_branch (isMark : c.kind.isMark = true) : Keeps 0 (branch g block) Stmt.data c := by
  refine .mark isMark fun _ => .bind (keeps_arm marks inner) fun first _ => ?_
  refine .bind (keeps_repeatWhile fun c goesOn => keeps_furtherArm marks inner ?_)
    fun others _ => ?_
  · simpa using goesOn
  refine .skip (silent_consume rfl) fun hasLast _ => ?_
  dsimp only
  split
  · refine .bind (inner _) fun otherwise _ => .skip (silent_spanFrom _) fun _ _ => .pure ?_
    rw [Stmt.data, dataOfArms_eq, dataOfBody_eq, zero_add]
  · rw [pure_bind]
    refine .skip (silent_spanFrom _) fun _ _ => .pure ?_
    rw [Stmt.data, dataOfArms_eq, dataOfBody, add_zero, zero_add]

omit inner in
theorem keeps_returnWith (isMark : c.kind.isMark = true) :
    Keeps 0 (returnWith g) Stmt.data c := by
  refine .mark isMark fun _ => .onKind ?_
  dsimp only
  split
  · rw [pure_bind]
    exact .skip (silent_expect rfl) fun _ _ => .skip (silent_spanFrom _) fun _ _ => .pure rfl
  · have value (c : Cursor) : Keeps 0 (some <$> expr g .loosest)
        (fun value => total Expr.data value.toList) c :=
      .map (keeps_expr marks _) fun value => by simp
    refine .bind (value _) fun value _ => .skip (silent_expect rfl) fun _ _ => ?_
    refine .skip (silent_spanFrom _) fun _ _ => .pure ?_
    rw [Stmt.data, zero_add]

theorem keeps_caseBody : Keeps 0 (caseBody g block) CaseBody.data c := by
  refine .onKind (.ite (fun _ => .map (inner _) fun body => ?_) fun _ => ?_)
  · rw [CaseBody.data, dataOfBody_eq]
  · exact .map (keeps_expr marks _) fun _ => rfl

theorem keeps_case : Keeps 0 (case g block) Case.data c := by
  refine .bind (keeps_expr marks _) fun pattern _ => .skip (silent_expect rfl) fun _ _ => ?_
  refine .bind (keeps_caseBody marks inner) fun body _ => ?_
  refine .skip (silent_separator _) fun _ _ => .pure ?_
  rw [Case.data, zero_add]

theorem keeps_lastCase :
    Keeps 0 (lastCase g block) (fun last => total CaseBody.data last.toList) c := by
  refine .skip (silent_consume rfl) fun hasLast _ => .ite (fun _ => ?_) fun _ => .pure rfl
  refine .skip (silent_expect rfl) fun _ _ => .bind (keeps_caseBody marks inner) fun body _ => ?_
  refine .skip (silent_separator _) fun _ _ => .pure ?_
  simp

theorem keeps_select (isMark : c.kind.isMark = true) : Keeps 0 (select g block) Stmt.data c := by
  refine .mark isMark fun _ => .bind (keeps_condition marks) fun subject _ => ?_
  refine .skip (silent_expect rfl) fun _ _ => ?_
  refine .bind (keeps_repeatWhile fun c _ => keeps_case marks inner) fun cases _ => ?_
  refine .bind (keeps_lastCase marks inner) fun otherwise _ => ?_
  refine .skip (silent_expect rfl) fun _ _ => .skip (silent_spanFrom _) fun _ _ => .pure ?_
  rw [Stmt.data, dataOfCases_eq, dataOfLast_eq, zero_add]

omit marks inner in
theorem keeps_control {build : Span → Stmt} (isMark : c.kind.isMark = true)
    (plain : ∀ span, (build span).data = 0) : Keeps 0 (control build) Stmt.data c :=
  .mark isMark fun _ => .skip (silent_expect rfl) fun _ _ => .skip (silent_spanFrom _) fun span _ =>
    .pure (plain span)

omit inner in
theorem keeps_declareMutable (isMark : c.kind.isMark = true) :
    Keeps 0 (declareMutable g) Stmt.data c :=
  .mark isMark fun _ => .seq keeps_name fun type _ => keeps_declaration marks true type _

theorem keeps_formStmt (isMark : c.kind.isMark = true) (form : StmtForm) :
    Keeps 0 (formStmt g block form) Stmt.data c := by
  cases form with
  | loop => exact keeps_loop marks inner isMark
  | branch => exact keeps_branch marks inner isMark
  | returnWith => exact keeps_returnWith marks isMark
  | select => exact keeps_select marks inner isMark
  | breakLoop => exact keeps_control isMark fun _ => rfl
  | continueLoop => exact keeps_control isMark fun _ => rfl
  | declareMutable => exact keeps_declareMutable marks isMark

end Blocks

omit marks in
theorem keeps_blockOf {stmt : Parse Stmt} (each : ∀ c, Keeps 0 stmt Stmt.data c) :
    Keeps 0 (blockOf stmt) (total Stmt.data) c :=
  .skip (silent_expect rfl) fun _ _ => .bind (keeps_repeatWhile fun c _ => each c) fun _ _ =>
    .skip (silent_expect rfl) fun _ _ => .pure (zero_add _).symm

theorem keeps_stmtUpTo (n : Nat) : Keeps 0 (stmtUpTo g n) Stmt.data c := by
  induction n generalizing c with
  | zero => exact .halt
  | succ n ih =>
    refine .onKind ?_
    split
    next form begins =>
      exact keeps_formStmt marks (fun _ => keeps_blockOf fun _ => ih) (marks.stmt begins) form
    next => exact keeps_simple marks

/-- **A block keeps data**, with those of the blocks in its statements. -/
theorem keeps_block : Keeps 0 (block g) (total Stmt.data) c :=
  keeps_blockOf fun _ => .look (keeps_stmtUpTo marks _)

end Statements

/-! ## Declarations -/

section Declarations

variable (marks : g.ByMarks)

include marks

theorem keeps_field : Keeps 0 (field g) Field.data c := by
  refine .skip silent_here fun start _ => .skip (silent_consume rfl) fun isMutable _ => ?_
  refine .bind keeps_name fun type _ => .skip silent_arrayMark fun isArray _ => ?_
  refine .word fun token _ _ _ => .skip (silent_consume rfl) fun hasInitial _ => ?_
  dsimp only
  split
  · have initial (c : Cursor) : Keeps 0 (some <$> expr g .loosest)
        (fun value => total Expr.data value.toList) c :=
      .map (keeps_expr marks _) fun value => by simp
    refine .bind (initial _) fun initial _ => .skip (silent_expect rfl) fun _ _ => ?_
    refine .skip (silent_spanFrom _) fun _ _ => .pure ?_
    rw [Field.data, zero_add]
  · rw [pure_bind]
    refine .skip (silent_expect rfl) fun _ _ => .skip (silent_spanFrom _) fun _ _ => .pure ?_
    rw [Field.data, Option.toList_none, total_nil, add_zero, zero_add]

/-- What stands in a structure, a field or a structure inside it. -/
theorem keeps_structMember {inner : Parse StructDecl}
    (each : ∀ c, Keeps 0 inner StructDecl.data c) :
    Keeps 0 (structMember g inner) (Sum.elim Field.data StructDecl.data) c := by
  refine .onKind ?_
  split
  · exact .map (each _) fun _ => rfl
  · exact .map (each _) fun _ => rfl
  · exact .map (keeps_field marks) fun _ => rfl

omit marks in
theorem keeps_bases : Keeps 0 bases (total Name.data) c :=
  .skip (silent_consume rfl) fun _ _ => .ite (fun _ => keeps_separated fun _ => keeps_name)
    fun _ => .pure rfl

omit marks in
/-- The fields and the structures of mingled members, put apart. -/
theorem total_members (members : List (Field ⊕ StructDecl)) :
    total (Sum.elim Field.data StructDecl.data) members =
      total Field.data (members.filterMap Sum.getLeft?) +
        total StructDecl.data (members.filterMap Sum.getRight?) := by
  induction members with
  | nil => rfl
  | cons first rest ih =>
    cases first with
    | inl field => simp [List.filterMap_cons, ih, add_assoc]
    | inr inner => simp [List.filterMap_cons, ih, add_left_comm]

/-- **A structure keeps data**, with those of the structures inside it. -/
theorem keeps_structUpTo (n : Nat) : Keeps 0 (structUpTo g n) StructDecl.data c := by
  induction n generalizing c with
  | zero => exact .halt
  | succ n ih =>
    refine .skip silent_here fun _ _ => .skip (silent_consume rfl) fun _ _ => ?_
    refine .skip (silent_expect rfl) fun _ _ => .word fun token _ _ _ => ?_
    refine .bind keeps_typeParameters fun parameters _ => .bind keeps_bases fun bases _ => ?_
    refine .skip (silent_expect rfl) fun _ _ => ?_
    refine .bind (keeps_repeatUntil fun _ => keeps_structMember marks fun _ => ih)
      fun members _ => ?_
    refine .skip (silent_expect rfl) fun _ _ => .skip (silent_spanFrom _) fun _ _ => .pure ?_
    rw [StructDecl.data, dataOfStructs_eq, total_members, zero_add]
    exact add_assoc ..

omit marks in
theorem keeps_parameter : Keeps 0 parameter Parameter.data c :=
  .skip silent_here fun _ _ => .bind keeps_name fun _ _ => .skip silent_arrayMark fun _ _ =>
    .word fun _ _ _ _ => .skip (silent_separator _) fun _ _ => .skip (silent_spanFrom _) fun _ _ =>
      .pure (by rw [Parameter.data, zero_add])

omit marks in
theorem keeps_inputs : Keeps 0 inputs (total Parameter.data) c :=
  .skip (silent_expect rfl) fun _ _ => .bind (keeps_repeatUntil fun _ => keeps_parameter)
    fun _ _ => .skip (silent_expect rfl) fun _ _ => .pure (zero_add _).symm

omit marks in
theorem keeps_output : Keeps 0 output (fun o => o.type.data) c :=
  .skip (silent_expect rfl) fun _ _ => .bind keeps_name fun _ _ => .skip silent_arrayMark
    fun _ _ => .pure (zero_add _).symm

theorem keeps_function : Keeps 0 (function g) FnDecl.data c := by
  refine .skip silent_here fun _ _ => .skip (silent_consume rfl) fun _ _ => ?_
  refine .skip (silent_expect rfl) fun _ _ => .bind keeps_typeParameters fun parameters _ => ?_
  refine .bind keeps_name fun name _ => .bind keeps_inputs fun inputs _ => ?_
  refine .bind keeps_output fun output _ => .bind (keeps_block marks) fun body _ => ?_
  refine .skip (silent_spanFrom _) fun _ _ => .pure ?_
  rw [FnDecl.data, zero_add]

omit marks in
theorem keeps_method : Keeps 0 method Method.data c := by
  refine .skip silent_here fun _ _ => .skip (silent_consume rfl) fun _ _ => ?_
  refine .skip (silent_expect rfl) fun _ _ => .word fun token _ _ _ => ?_
  refine .bind keeps_inputs fun inputs _ => .bind keeps_output fun output _ => ?_
  refine .skip (silent_expect rfl) fun _ _ => .skip (silent_spanFrom _) fun _ _ => .pure ?_
  rw [Method.data, zero_add]

omit marks in
theorem keeps_interface (isMark : c.kind.isMark = true) :
    Keeps 0 interface (fun d => (Decl.interface d).data) c := by
  refine .mark isMark fun _ => .word fun token _ _ _ => .bind keeps_typeParameters
    fun parameters _ => .skip (silent_expect rfl) fun _ _ => ?_
  refine .bind (keeps_repeatUntil fun _ => keeps_method) fun methods _ => ?_
  refine .skip (silent_expect rfl) fun _ _ => .skip (silent_spanFrom _) fun _ _ => .pure ?_
  rw [Decl.data, zero_add]

omit marks in
theorem keeps_synonym (isMark : c.kind.isMark = true) :
    Keeps 0 synonym (fun d => (Decl.synonym d).data) c := by
  refine .mark isMark fun _ => .word fun token _ _ _ => .skip (silent_expect rfl) fun _ _ => ?_
  refine .bind keeps_name fun type _ => .skip (silent_expect rfl) fun _ _ => ?_
  refine .skip (silent_spanFrom _) fun _ _ => .pure ?_
  rw [Decl.data, zero_add]

omit marks in
theorem keeps_enum (isMark : c.kind.isMark = true) :
    Keeps 0 enum (fun d => (Decl.enum d).data) c := by
  have value (c : Cursor) : Keeps 0 enumValue (fun value => {.word value}) c :=
    .word fun _ _ _ _ => .pure (zero_add _).symm
  refine .mark isMark fun _ => .word fun token _ _ _ => .skip (silent_expect rfl) fun _ _ => ?_
  refine .bind (keeps_separated value) fun values _ => .skip (silent_expect rfl) fun _ _ => ?_
  refine .skip (silent_spanFrom _) fun _ _ => .pure ?_
  rw [Decl.data, zero_add]

/-- **A declaration keeps data.** -/
theorem keeps_decl : Keeps 0 (decl g) Decl.data c := by
  refine .onKind ?_
  split
  · exact .map (.look (keeps_structUpTo marks _)) fun _ => rfl
  · exact .map (keeps_function marks) fun _ => rfl
  next begins => exact .map (keeps_interface (marks.decl begins)) fun _ => rfl
  next begins => exact .map (keeps_synonym (marks.decl begins)) fun _ => rfl
  next begins => exact .map (keeps_enum (marks.decl begins)) fun _ => rfl
  · exact keeps_unexpected _

end Declarations

/-! ## Files -/

/-- The data of a file of which a part was read. -/
def Contents.data (sofar : Contents) : Multiset Datum :=
  total ModulePath.data sofar.imports + total Decl.data sofar.declarations +
    total ModulePath.data (sofar.exports.getD [])

theorem keeps_moduleTexts : Keeps 0 moduleTexts dataOfTexts c := by
  have front (c : Cursor) (goesOn : c.kind = .identifier ∧ c.peek 1 = .dot) :
      Keeps 0 (do let token ← advance; let _ ← advance; return token.text)
        (fun text => dataOfTexts [text]) c := by
    refine .take (by rw [goesOn.1]; nofun) fun scanned next => .mark ?_ fun _ => .pure ?_
    · rw [next, goesOn.2]
      rfl
    · have datum : c.current.datum? = some (.word c.current.text) := by
        rw [Token.datum?, ← Cursor.kind, goesOn.1]
      have noStar := scanned.identifier goesOn.1
      rw [Token.data_singleton, datum, dataOfTexts_singleton noStar, zero_add]
      rfl
  refine .bind (keeps_repeatWhile fun c goesOn => front c ?_) fun texts _ => ?_
  · simpa using goesOn
  rw [zero_add, ← dataOfTexts_eq]
  refine .skip (silent_consume rfl) fun _ _ => .ite (fun _ => .pure ?_) fun _ => ?_
  · rw [dataOfTexts_append, dataOfTexts_star, add_zero]
  · refine .word fun token _ scanned isWord => .pure ?_
    rw [dataOfTexts_append, dataOfTexts_singleton (scanned.identifier isWord)]

theorem keeps_importPath (isMark : c.kind.isMark = true) :
    Keeps 0 importPath ModulePath.data c :=
  .mark isMark fun _ => .bind keeps_moduleTexts fun _ _ => .skip (silent_expect rfl) fun _ _ =>
    .skip (silent_spanFrom _) fun _ _ => .pure (zero_add _).symm

theorem keeps_exports (isMark : c.kind.isMark = true) :
    Keeps 0 exports (total ModulePath.data) c := by
  have path (c : Cursor) : Keeps 0 exportPath ModulePath.data c :=
    .skip silent_here fun _ _ => .bind keeps_moduleTexts fun _ _ =>
      .skip (silent_spanFrom _) fun _ _ => .pure (zero_add _).symm
  exact .mark isMark fun _ => .skip (silent_expect rfl) fun _ _ => .bind (keeps_separated path)
    fun _ _ => .skip (silent_expect rfl) fun _ _ => .pure (zero_add _).symm

/-- **An item** keeps data beside those that were read before it. -/
theorem keeps_item (marks : g.ByMarks) (sofar : Contents) :
    Keeps sofar.data (item g sofar) Contents.data c := by
  refine .onKind ?_
  split
  next isImport =>
    refine .bind (keeps_importPath (isImport ▸ rfl)) fun path _ => .pure ?_
    simp only [Contents.data, total_append, total_cons, total_nil, add_zero]
    abel
  next isExport =>
    split
    · exact .skip silent_here fun _ _ => .halt
    next none =>
      refine .bind (keeps_exports (isExport ▸ rfl)) fun paths _ => .pure ?_
      simp only [Contents.data, none, Option.getD_none, Option.getD_some, total_nil, add_zero]
  next =>
    refine .bind (keeps_decl marks) fun d _ => .pure ?_
    simp only [Contents.data, total_append, total_cons, total_nil, add_zero]
    abel

/-- **A file keeps data.** -/
theorem keeps_file (marks : g.ByMarks) : Keeps 0 (file g) File.data c :=
  .seq (keeps_growWhile (fun sofar _ _ => keeps_item marks sofar) ⟨[], [], none⟩) fun _ _ =>
    .look (.pure rfl)

end Parse

end FrontEnd

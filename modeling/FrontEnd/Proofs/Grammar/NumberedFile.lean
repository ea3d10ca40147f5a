import FrontEnd.Grammar.Decl
import FrontEnd.Proofs.Grammar.Entering
import FrontEnd.Proofs.Grammar.NumberedExpr

/-!
# The numbers of a file

The names of a parsed file are numbered through: no two segments of them, at any depth of arguments,
share a number, and their numbers are those that were taken while the file was parsed, every one of
them (`File.counted_ofTokens`). That is said of the numbers that the file is written with; an
assignment with an operator repeats those of its target. A further file that is numbered from where
this one ends shares none.
-/

namespace FrontEnd

/-- The numbers that a statement is written with, in its blocks too. -/
def Stmt.written (stmt : Stmt) : List Nat :=
  stmt.writtenIds ++ stmt.blocks.flatMap fun block => (statements block.1).flatMap Stmt.writtenIds

/-- The numbers of a condition and of the statements that it guards. -/
def Arm.written (arm : Arm) : List Nat :=
  arm.condition.ids ++ arm.body.flatMap Stmt.written

/-- The numbers of what a pattern leads to. -/
def CaseBody.written : CaseBody → List Nat
  | .block body => body.flatMap Stmt.written
  | .value found => found.ids

/-- The numbers of a pattern and of what it leads to. -/
def Case.written (case : Case) : List Nat :=
  case.pattern.ids ++ case.body.written

theorem flatMap_written (body : List Stmt) :
    (statements body).flatMap Stmt.writtenIds = body.flatMap Stmt.written := by
  induction body with
  | nil => simp [statements]
  | cons first rest ih =>
    rw [List.flatMap_cons, ← ih, statements_cons, Stmt.written, List.cons_append, List.flatMap_cons,
      List.flatMap_append, List.flatMap_assoc, List.append_assoc]

namespace Stmt

/-- **The numbers of a statement** that assigns nothing are those of its type, of its expressions and
of its blocks. -/
theorem written_eq {stmt : Stmt} (plain : stmt.writtenIds = stmt.names.flatMap Name.ids) :
    stmt.written = stmt.declaredType?.toList.flatMap Name.ids ++ stmt.values.flatMap Expr.ids ++
      stmt.blocks.flatMap fun block => block.1.flatMap Stmt.written := by
  rw [written, plain, ids_names]
  simp only [flatMap_written]

theorem written_branch (first : Arm) (others : List Arm) (otherwise : List Stmt) (span : Span) :
    (branch first others otherwise span).written.Perm
      (first.written ++ others.flatMap Arm.written ++ otherwise.flatMap Stmt.written) := by
  have arms : (((first :: others).flatMap fun arm => arm.condition.ids) ++
      (first :: others).flatMap fun arm => arm.body.flatMap Stmt.written).Perm
      ((first :: others).flatMap Arm.written) := List.flatMap_append_perm ..
  have whole := arms.append_right (otherwise.flatMap Stmt.written)
  rw [written_eq (by rfl)]
  simp only [List.flatMap_cons, List.append_assoc] at whole
  simpa [values, blocks, declaredType?, List.flatMap_map] using whole

end Stmt

/-- Values and blocks that are mingled, put apart. -/
theorem perm_flatMap_written (bodies : List CaseBody) :
    ((bodies.filterMap CaseBody.value?).flatMap Expr.ids ++
      (bodies.filterMap CaseBody.block?).flatMap fun body => body.flatMap Stmt.written).Perm
      (bodies.flatMap CaseBody.written) := by
  induction bodies with
  | nil => exact .refl _
  | cons first rest ih =>
    rw [List.flatMap_cons]
    cases first with
    | block body =>
      simp only [List.filterMap_cons, CaseBody.value?, CaseBody.block?, List.flatMap_cons,
        CaseBody.written]
      exact (List.perm_append_comm_assoc ..).trans (ih.append_left _)
    | value value =>
      simp only [List.filterMap_cons, CaseBody.value?, CaseBody.block?, List.flatMap_cons,
        CaseBody.written, List.append_assoc]
      exact ih.append_left _

theorem Stmt.written_select (subject : Expr) (cases : List Case) (otherwise : Option CaseBody)
    (span : Span) :
    (select subject cases otherwise span).written.Perm (subject.ids ++ cases.flatMap Case.written ++
      otherwise.toList.flatMap CaseBody.written) := by
  have bodies := perm_flatMap_written (cases.map Case.body ++ otherwise.toList)
  have patterns : ((cases.flatMap fun c => c.pattern.ids) ++
      cases.flatMap fun c => c.body.written).Perm (cases.flatMap Case.written) :=
    List.flatMap_append_perm ..
  have written : (select subject cases otherwise span).written = subject.ids ++
      ((cases.flatMap fun c => c.pattern.ids) ++
        (((cases.map Case.body ++ otherwise.toList).filterMap CaseBody.value?).flatMap Expr.ids ++
          ((cases.map Case.body ++ otherwise.toList).filterMap CaseBody.block?).flatMap
            fun body => body.flatMap Stmt.written)) := by
    rw [written_eq (by rfl)]
    simp [values, blocks, declaredType?, List.flatMap_map]
  rw [written, List.append_assoc]
  apply List.Perm.append_left
  refine (bodies.append_left _).trans ?_
  rw [List.flatMap_append, List.flatMap_map, ← List.append_assoc]
  exact patterns.append_right _

namespace Parse

open Token

variable {g : Grammar}

/-! ## Statements -/

theorem numbers_declaration (isMutable : Bool) (type : Name) (start : Position) :
    Numbers type.ids (declaration g isMutable type start) Stmt.written := by
  refine .skip quiet_arrayMark fun _ => .skip (quiet_expect _) fun _ => ?_
  refine .skip (quiet_expect _) fun _ => .bind (numbers_expr _) fun initial => ?_
  refine .skip (quiet_expect _) fun _ => .skip (quiet_spanFrom _) fun _ => .pure ?_
  rw [Stmt.written_eq (by rfl)]
  simp [Stmt.declaredType?, Stmt.values, Stmt.blocks, List.Perm.refl]

/-- **An assignment is written with the numbers of its two sides**, where these share none, also
where its value repeats the target. -/
theorem written_assign {k : Kind} {assigned : Expr → Expr → Expr}
    (h : assignedValue? k = some assigned) {target value : Expr} (span : Span)
    (distinct : (target.ids ++ value.ids).Nodup) :
    (Stmt.assign target (assigned target value) span).written = target.ids ++ value.ids := by
  have own : (Stmt.assign target (assigned target value) span).written = target.ids ++
      (assigned target value).ids.drop (target.copied (assigned target value)).length := by
    rw [Stmt.written, Stmt.writtenIds, Stmt.blocks, List.flatMap_nil, List.append_nil]
  rw [own]
  rcases assignedValue?_cases h with ⟨-, rfl⟩ | ⟨-, operator, rfl⟩
  · obtain ⟨-, -, apart⟩ := List.nodup_append.1 distinct
    have none : target.copied value = [] :=
      Expr.copied_eq_nil fun id inTarget inValue => apart id inTarget id inValue rfl
    rw [none, List.length_nil, List.drop_zero]
  · rw [Expr.operation, Expr.copied, if_pos rfl, Expr.ids_binary, List.drop_left]

theorem numbers_assignment (target : Expr) (start : Position) :
    Numbers target.ids (assignment g target start) Stmt.written := by
  refine .skip quiet_kind fun k => ?_
  split
  · refine .skip (quiet_expect _) fun _ => .skip (quiet_spanFrom _) fun _ => .pure ?_
    rw [Stmt.written_eq (by rfl)]
    simp [Stmt.declaredType?, Stmt.values, Stmt.blocks, List.Perm.refl]
  next assigned assigns =>
    split
    · refine .skip quiet_advance fun _ => .bind (numbers_expr _) fun value => ?_
      refine .skip (quiet_expect _) fun _ => .skip (quiet_spanFrom _) fun span => ?_
      exact .distinct fun distinct => .pure (.of_eq (written_assign assigns span distinct))
    · exact .halt

/-- **What begins with an expression** takes the numbers of its names from there. -/
theorem numbers_simple : Numbers [] (simple g) Stmt.written := by
  refine .skip quiet_here fun start => .bind (numbers_expr _) fun first => ?_
  refine .skip quiet_get fun c => ?_
  split
  · split
    next text span =>
      refine .bind numbers_freshId fun id => ?_
      exact numbers_declaration false (.single id text span) start
    next type =>
      rw [List.nil_append, Expr.ids_name]
      exact numbers_declaration false type start
    next => exact numbers_assignment first start
  · exact numbers_assignment first start

section Blocks

variable {block : Parse (List Stmt)}

theorem numbers_condition : Numbers [] (condition g) Expr.ids :=
  .skip (quiet_expect _) fun _ => .bind (numbers_expr _) fun _ => .skip (quiet_expect _) fun _ =>
    .pure (.refl _)

theorem numbers_loop (inner : Numbers [] block (·.flatMap Stmt.written)) :
    Numbers [] (loop g block) Stmt.written := by
  refine .skip quiet_advance fun _ => .bind numbers_condition fun _ => .bind inner fun body => ?_
  refine .skip (quiet_spanFrom _) fun _ => .pure ?_
  rw [Stmt.written_eq (by rfl)]
  simp [Stmt.declaredType?, Stmt.values, Stmt.blocks, List.Perm.refl]

theorem numbers_arm (inner : Numbers [] block (·.flatMap Stmt.written)) :
    Numbers [] (arm g block) Arm.written :=
  .bind numbers_condition fun _ => .bind inner fun _ => .pure (.refl _)

theorem numbers_branch (inner : Numbers [] block (·.flatMap Stmt.written)) :
    Numbers [] (branch g block) Stmt.written := by
  refine .skip quiet_advance fun _ => .bind (numbers_arm inner) fun first => ?_
  have others := numbers_repeatWhile
    (.skip quiet_advance fun _ => .skip quiet_advance fun _ => numbers_arm (g := g) inner)
    (fun c => c.kind = .elseWord && c.peek 1 = .ifWord)
  refine .bind others fun others => .skip (quiet_consume _) fun hasLast => ?_
  dsimp only
  split
  · refine .bind inner fun otherwise => .skip (quiet_spanFrom _) fun span => .pure ?_
    exact Stmt.written_branch first others otherwise span
  · rw [pure_bind]
    refine .skip (quiet_spanFrom _) fun span => .pure ?_
    have written := Stmt.written_branch first others [] span
    rwa [List.flatMap_nil, List.append_nil] at written

theorem numbers_returnWith : Numbers [] (returnWith g) Stmt.written := by
  refine .skip quiet_advance fun _ => .skip quiet_kind fun kind => ?_
  dsimp only
  split
  · rw [pure_bind]
    exact .skip (quiet_expect _) fun _ => .skip (quiet_spanFrom _) fun _ => .pure .nil
  · have value : Numbers [] (some <$> expr g .loosest) (·.toList.flatMap Expr.ids) :=
      .map (numbers_expr .loosest) fun value => List.flatMap_singleton Expr.ids value ▸ .refl _
    refine .bind value fun value => .skip (quiet_expect _) fun _ => .skip (quiet_spanFrom _) fun _ => ?_
    refine .pure ?_
    rw [Stmt.written_eq (by rfl)]
    simp [Stmt.declaredType?, Stmt.values, Stmt.blocks, List.Perm.refl]

theorem numbers_caseBody (inner : Numbers [] block (·.flatMap Stmt.written)) :
    Numbers [] (caseBody g block) CaseBody.written := by
  refine .skip quiet_kind fun kind => ?_
  split
  · exact .map inner fun _ => .refl _
  · exact .map (numbers_expr _) fun _ => .refl _

theorem numbers_case (inner : Numbers [] block (·.flatMap Stmt.written)) :
    Numbers [] (case g block) Case.written :=
  .bind (numbers_expr _) fun _ => .skip (quiet_expect _) fun _ =>
    .bind (numbers_caseBody inner) fun _ => .skip (quiet_separator _) fun _ => .pure (.refl _)

theorem numbers_lastCase (inner : Numbers [] block (·.flatMap Stmt.written)) :
    Numbers [] (lastCase g block) fun last => last.toList.flatMap CaseBody.written := by
  refine .skip (quiet_consume _) fun hasLast => ?_
  split
  · refine .skip (quiet_expect _) fun _ => .bind (numbers_caseBody inner) fun body => ?_
    refine .skip (quiet_separator _) fun _ => .pure ?_
    rw [Option.toList_some, List.flatMap_singleton]
    exact .refl _
  · exact .pure .nil

theorem numbers_select (inner : Numbers [] block (·.flatMap Stmt.written)) :
    Numbers [] (select g block) Stmt.written := by
  refine .skip quiet_advance fun _ => .bind numbers_condition fun subject => ?_
  refine .skip (quiet_expect _) fun _ => ?_
  refine .bind (numbers_repeatWhile (numbers_case inner) _) fun cases => ?_
  refine .bind (numbers_lastCase inner) fun otherwise => .skip (quiet_expect _) fun _ => ?_
  refine .skip (quiet_spanFrom _) fun span => .pure ?_
  exact Stmt.written_select subject cases otherwise span

theorem numbers_control {build : Span → Stmt} (plain : ∀ span, (build span).written = []) :
    Numbers [] (control build) Stmt.written :=
  .skip quiet_advance fun _ => .skip (quiet_expect _) fun _ => .skip (quiet_spanFrom _) fun span =>
    .pure (plain span ▸ .nil)

theorem numbers_declareMutable : Numbers [] (declareMutable g) Stmt.written :=
  .skip quiet_advance fun _ => .bind numbers_name fun type => numbers_declaration true type _

theorem numbers_formStmt (inner : Numbers [] block (·.flatMap Stmt.written)) (form : StmtForm) :
    Numbers [] (formStmt g block form) Stmt.written := by
  cases form with
  | loop => exact numbers_loop inner
  | branch => exact numbers_branch inner
  | returnWith => exact numbers_returnWith
  | select => exact numbers_select inner
  | breakLoop => exact numbers_control fun _ => rfl
  | continueLoop => exact numbers_control fun _ => rfl
  | declareMutable => exact numbers_declareMutable

end Blocks

theorem numbers_blockOf {stmt : Parse Stmt} (each : Numbers [] stmt Stmt.written) :
    Numbers [] (blockOf stmt) (·.flatMap Stmt.written) :=
  .skip (quiet_expect _) fun _ => .bind (numbers_repeatWhile each _) fun _ =>
    .skip (quiet_expect _) fun _ => .pure (.refl _)

theorem numbers_stmtUpTo (n : Nat) : Numbers [] (stmtUpTo g n) Stmt.written := by
  induction n with
  | zero => exact .halt
  | succ n ih =>
    refine .skip quiet_kind fun kind => ?_
    split
    · exact numbers_formStmt (numbers_blockOf ih) _
    · exact numbers_simple

/-- **A block is numbered**: no two segments that its statements are written with share a number. -/
theorem numbers_block : Numbers [] (block g) (·.flatMap Stmt.written) :=
  numbers_blockOf (.skip quiet_get fun _ => numbers_stmtUpTo _)

/-! ## Declarations -/

end Parse

/-- The numbers of a field. -/
def Field.ids (field : Field) : List Nat :=
  field.type.ids ++ field.initial.toList.flatMap Expr.ids

/-- The numbers of a structure and of the structures inside it. -/
def StructDecl.ids (d : StructDecl) : List Nat :=
  d.names.flatMap Name.ids

/-- **A structure has the numbers** of the bounds of its parameters, of its bases, of its fields and of
the structures inside it. -/
theorem StructDecl.ids_perm (d : StructDecl) :
    d.ids.Perm ((boundsOf d.parameters).flatMap Name.ids ++ d.bases.flatMap Name.ids ++
      (d.fields.flatMap Field.ids ++ d.inner.flatMap ids)) := by
  have fields := List.flatMap_append_perm d.fields (fun f => f.type.ids)
    fun f => f.initial.toList.flatMap Expr.ids
  have own : d.ids = (boundsOf d.parameters).flatMap Name.ids ++ d.bases.flatMap Name.ids ++
      ((d.fields.flatMap fun f => f.type.ids) ++
        d.fields.flatMap fun f => f.initial.toList.flatMap Expr.ids) ++ d.inner.flatMap ids := by
    rw [ids, names_eq]
    simp only [ownNames, ownTypes, List.flatMap_append, List.flatMap_assoc, List.flatMap_map,
      List.append_assoc]
    rfl
  rw [own, List.append_assoc]
  exact (fields.append_right _).append_left _

/-- Values of two sorts that are mingled, put apart. -/
theorem perm_flatMap_elim {α β : Type} (f : α → List Nat) (g : β → List Nat)
    (values : List (α ⊕ β)) :
    ((values.filterMap Sum.getLeft?).flatMap f ++ (values.filterMap Sum.getRight?).flatMap g).Perm
      (values.flatMap (Sum.elim f g)) := by
  induction values with
  | nil => exact .refl _
  | cons first rest ih =>
    cases first with
    | inl a =>
      have left : (Sum.inl a :: rest).filterMap Sum.getLeft? = a :: rest.filterMap Sum.getLeft? :=
        rfl
      have right : (Sum.inl a :: rest).filterMap Sum.getRight? = rest.filterMap Sum.getRight? := rfl
      rw [left, right, List.flatMap_cons, List.flatMap_cons, List.append_assoc]
      exact ih.append_left _
    | inr b =>
      have left : (Sum.inr b :: rest).filterMap Sum.getLeft? = rest.filterMap Sum.getLeft? := rfl
      have right : (Sum.inr b :: rest).filterMap Sum.getRight? =
        b :: rest.filterMap Sum.getRight? := rfl
      rw [left, right, List.flatMap_cons, List.flatMap_cons]
      exact (List.perm_append_comm_assoc ..).trans (ih.append_left _)

namespace Parse

open Token

variable {g : Grammar}

theorem numbers_field : Numbers [] (field g) Field.ids := by
  refine .skip quiet_here fun _ => .skip (quiet_consume _) fun _ => ?_
  refine .bind numbers_name fun type => .skip quiet_arrayMark fun _ => ?_
  refine .skip (quiet_expect _) fun _ => .skip (quiet_consume _) fun _ => ?_
  dsimp only
  split
  · have initial : Numbers [] (some <$> expr g .loosest) (·.toList.flatMap Expr.ids) :=
      .map (numbers_expr .loosest) fun value => List.flatMap_singleton Expr.ids value ▸ .refl _
    exact .bind initial fun _ => .skip (quiet_expect _) fun _ => .skip (quiet_spanFrom _) fun _ =>
      .pure (.refl _)
  · rw [pure_bind]
    refine .skip (quiet_expect _) fun _ => .skip (quiet_spanFrom _) fun _ => .pure ?_
    rw [Field.ids, Option.toList_none, List.flatMap_nil, List.append_nil]
    exact .refl _

theorem numbers_structMember {inner : Parse StructDecl} (each : Numbers [] inner StructDecl.ids) :
    Numbers [] (structMember g inner) (Sum.elim Field.ids StructDecl.ids) := by
  refine .skip quiet_kind fun kind => ?_
  split
  · exact .map each fun _ => .refl _
  · exact .map each fun _ => .refl _
  · exact .map numbers_field fun _ => .refl _

theorem numbers_bases : Numbers [] bases (·.flatMap Name.ids) := by
  refine .skip (quiet_consume _) fun _ => ?_
  split
  · exact numbers_separated numbers_name _
  · exact .pure .nil

/-- **A structure is numbered** with the structures inside it. -/
theorem numbers_structUpTo (n : Nat) : Numbers [] (structUpTo g n) StructDecl.ids := by
  induction n with
  | zero => exact .halt
  | succ n ih =>
    refine .skip quiet_here fun _ => .skip (quiet_consume _) fun _ => ?_
    refine .skip (quiet_expect _) fun _ => .skip (quiet_expect _) fun token => ?_
    refine .bind numbers_typeParameters fun parameters => ?_
    refine .bind numbers_bases fun bases => .skip (quiet_expect _) fun _ => ?_
    refine .bind (numbers_repeatWhile (numbers_structMember ih) _) fun members => ?_
    refine .skip (quiet_expect _) fun _ => .skip (quiet_spanFrom _) fun _ => .pure ?_
    have apart := perm_flatMap_elim Field.ids StructDecl.ids members
    exact (StructDecl.ids_perm _).trans (apart.append_left _)

theorem numbers_struct : Numbers [] (struct g) StructDecl.ids :=
  .skip quiet_get fun _ => numbers_structUpTo _

theorem numbers_parameter : Numbers [] parameter fun p => p.type.ids :=
  .skip quiet_here fun _ => .bind numbers_name fun _ => .skip quiet_arrayMark fun _ =>
    .skip (quiet_expect _) fun _ => .skip (quiet_separator _) fun _ =>
      .skip (quiet_spanFrom _) fun _ => .pure (.refl _)

theorem numbers_inputs : Numbers [] inputs (·.flatMap fun p => p.type.ids) :=
  .skip (quiet_expect _) fun _ => .bind (numbers_repeatWhile numbers_parameter _) fun _ =>
    .skip (quiet_expect _) fun _ => .pure (.refl _)

theorem numbers_output : Numbers [] output fun o => o.type.ids :=
  .skip (quiet_expect _) fun _ => .bind numbers_name fun _ => .skip quiet_arrayMark fun _ =>
    .pure (.refl _)

/-- The name of a function takes its numbers behind those of the type parameters. -/
theorem numbers_function : Numbers [] (function g) fun d => Decl.writtenIds (.function d) := by
  refine .skip quiet_here fun _ => .skip (quiet_consume _) fun _ => ?_
  refine .skip (quiet_expect _) fun _ => .bind numbers_typeParameters fun parameters => ?_
  refine .bind numbers_name fun name => ?_
  refine .bind numbers_inputs fun inputs => .bind numbers_output fun output => ?_
  refine .bind numbers_block fun body => .skip (quiet_spanFrom _) fun _ => .pure ?_
  rw [Decl.writtenIds, Decl.headNames, FnDecl.headNames, signatureTypes, Decl.statements,
    flatMap_written, List.flatMap_cons, List.flatMap_append, List.flatMap_append, List.flatMap_map,
    List.flatMap_singleton]
  simp only [List.nil_append, List.append_assoc]
  exact List.perm_append_comm_assoc ..

theorem numbers_method :
    Numbers [] method fun m => (signatureTypes m.inputs m.output).flatMap Name.ids := by
  refine .skip quiet_here fun _ => .skip (quiet_consume _) fun _ => ?_
  refine .skip (quiet_expect _) fun _ => .skip (quiet_expect _) fun _ => ?_
  refine .bind numbers_inputs fun inputs => ?_
  refine .bind numbers_output fun output => .skip (quiet_expect _) fun _ => ?_
  refine .skip (quiet_spanFrom _) fun _ => .pure ?_
  rw [signatureTypes, List.flatMap_append, List.flatMap_map, List.flatMap_singleton]
  exact .refl _

theorem numbers_interface : Numbers [] interface fun d => d.types.flatMap Name.ids := by
  refine .skip quiet_advance fun _ => .skip (quiet_expect _) fun _ => ?_
  refine .bind numbers_typeParameters fun parameters => .skip (quiet_expect _) fun _ => ?_
  refine .bind (numbers_repeatWhile numbers_method _) fun methods => ?_
  refine .skip (quiet_expect _) fun _ => .skip (quiet_spanFrom _) fun _ => .pure ?_
  rw [InterfaceDecl.types, List.flatMap_append, List.flatMap_assoc]
  exact .refl _

theorem numbers_synonym : Numbers [] synonym fun d => d.type.ids :=
  .skip quiet_advance fun _ => .skip (quiet_expect _) fun _ => .skip (quiet_expect _) fun _ =>
    .bind numbers_name fun _ => .skip (quiet_expect _) fun _ => .skip (quiet_spanFrom _) fun _ =>
      .pure (.refl _)

theorem quiet_enum : Quiet enum := by
  have value : Quiet enumValue := .skip (quiet_expect _) fun _ => .pure (.refl _)
  exact .skip quiet_advance fun _ => .skip (quiet_expect _) fun _ => .skip (quiet_expect _) fun _ =>
    .skip (quiet_separated value _) fun _ => .skip (quiet_expect _) fun _ =>
      .skip (quiet_spanFrom _) fun _ => .pure (.refl _)

/-- The numbers of a declaration without statements. -/
theorem writtenIds_of_head {d : Decl} (noStatements : d.statements = []) :
    d.writtenIds = d.headNames.flatMap Name.ids := by
  rw [Decl.writtenIds, noStatements, List.flatMap_nil, List.append_nil]

/-- **A declaration is numbered.** -/
theorem numbers_decl : Numbers [] (decl g) Decl.writtenIds := by
  refine .skip quiet_kind fun kind => ?_
  split
  · exact .map numbers_struct fun d => writtenIds_of_head (d := .struct d) rfl ▸ .refl _
  · exact .map numbers_function fun _ => .refl _
  · exact .map numbers_interface fun d => writtenIds_of_head (d := .interface d) rfl ▸ .refl _
  · refine .map numbers_synonym fun d => ?_
    rw [writtenIds_of_head rfl, Decl.headNames, List.flatMap_singleton]
  · exact .map quiet_enum fun _ => .refl _
  · exact numbers_unexpected _

/-! ## Files -/

theorem quiet_moduleTexts : Quiet moduleTexts := by
  have text : Quiet (do let token ← advance; let _ ← advance; return token.text) :=
    .skip quiet_advance fun _ => .skip quiet_advance fun _ => .pure (.refl _)
  refine .skip ((numbers_repeatWhile text _).perm fun texts => by simp) fun _ =>
    .skip (quiet_consume _) fun _ => ?_
  split
  · exact .pure (.refl _)
  · exact .skip (quiet_expect _) fun _ => .pure (.refl _)

theorem quiet_importPath : Quiet importPath :=
  .skip quiet_advance fun _ => .skip quiet_moduleTexts fun _ => .skip (quiet_expect _) fun _ =>
    .skip (quiet_spanFrom _) fun _ => .pure (.refl _)

theorem quiet_exports : Quiet exports := by
  have path : Quiet exportPath :=
    .skip quiet_here fun _ => .skip quiet_moduleTexts fun _ => .skip (quiet_spanFrom _) fun _ =>
      .pure (.refl _)
  exact .skip quiet_advance fun _ => .skip (quiet_expect _) fun _ => .skip (quiet_separated path _)
    fun _ => .skip (quiet_expect _) fun _ => .pure (.refl _)

theorem numbers_item (sofar : Contents) :
    Numbers (sofar.declarations.flatMap Decl.writtenIds) (item g sofar)
      fun contents => contents.declarations.flatMap Decl.writtenIds := by
  refine .skip quiet_kind fun kind => ?_
  split
  · exact .skip quiet_importPath fun _ => .pure (.refl _)
  · split
    · exact .skip quiet_here fun _ => .halt
    · exact .skip quiet_exports fun _ => .pure (.refl _)
  · refine .bind numbers_decl fun d => .pure ?_
    rw [List.flatMap_append, List.flatMap_singleton]

/-- **A file is numbered.** -/
theorem numbers_file : Numbers [] (file g) File.writtenIds :=
  .bind (numbers_growWhile numbers_item _ ⟨[], [], none⟩) fun _ =>
    .skip quiet_get fun _ => .pure (.refl _)

end Parse

/-- **The numbers that a parsed file is written with** are those counted while it was parsed, each
of them once. -/
theorem File.counted_ofTokens {tokens : List Token} {firstId nextId : Nat} {file : File}
    (parsed : File.ofTokens tokens firstId = .ok (file, nextId)) :
    Counted firstId file.writtenIds nextId := by
  obtain ⟨c, run, rfl⟩ := File.ofTokens_eq_ok_iff.1 parsed
  exact Parse.numbers_file run ((Cursor.nextId_ofTokens tokens firstId).symm ▸ .none firstId)

theorem File.taken_ofTokens {tokens : List Token} {firstId nextId : Nat} {file : File}
    (parsed : File.ofTokens tokens firstId = .ok (file, nextId)) :
    Taken firstId file.writtenIds nextId :=
  (File.counted_ofTokens parsed).taken

end FrontEnd

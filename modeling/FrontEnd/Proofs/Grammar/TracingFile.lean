import FrontEnd.Grammar.Decl
import FrontEnd.Proofs.Grammar.RootingFile
import FrontEnd.Proofs.Grammar.Tracing
import FrontEnd.Proofs.Program.Occurrence

/-!
# Where parsing a file stops

What the actions for statements, declarations and files give or stop with. A statement is traced
everywhere when its expressions are traced and the statements in its blocks are, so the action for a
block is passed down as it is in the grammar.

**The law** (`Parse.traces_file`): a file is parsed to one of which every expression is traced to the
tokens, or parsing stops with a diagnostic of the grammar.
-/

namespace FrontEnd

open Token

variable {tokens : List Token}

/-! ## Traced statements -/

/-- The expressions of a statement are traced, and those of the statements in its blocks. -/
abbrev Stmt.Traced (tokens : List Token) : Stmt → Prop :=
  Stmt.Everywhere fun stmt => ∀ value ∈ stmt.values, value.Traced tokens

/-- The statements of a body are traced. -/
abbrev TracedBody (tokens : List Token) (body : List Stmt) : Prop :=
  ∀ stmt ∈ body, stmt.Traced tokens

/-- An arm of which the condition and the statements are traced. -/
structure Arm.Traced (tokens : List Token) (arm : Arm) : Prop where
  condition : arm.condition.Traced tokens
  body : TracedBody tokens arm.body

/-- What a pattern leads to, traced. -/
structure CaseBody.Traced (tokens : List Token) (body : CaseBody) : Prop where
  value : ∀ value ∈ body.value?, value.Traced tokens
  block : ∀ block ∈ body.block?, TracedBody tokens block

/-- A case of which the pattern is traced, and what it leads to. -/
structure Case.Traced (tokens : List Token) (case : Case) : Prop where
  pattern : case.pattern.Traced tokens
  body : case.body.Traced tokens

namespace Stmt

theorem traced_plain {stmt : Stmt} (noBlocks : stmt.blocks = [])
    (values : ∀ value ∈ stmt.values, value.Traced tokens) : stmt.Traced tokens := by
  refine everywhere_iff.2 ⟨values, ?_⟩
  rw [noBlocks]
  exact List.forall_mem_nil _

theorem traced_branch {first : Arm} {others : List Arm} {otherwise : List Stmt} {span : Span}
    (isFirst : first.Traced tokens) (areOthers : ∀ arm ∈ others, arm.Traced tokens)
    (areLast : TracedBody tokens otherwise) :
    (branch first others otherwise span).Traced tokens := by
  refine everywhere_iff.2 ⟨?_, ?_⟩
  · simp only [values, List.forall_mem_cons, List.forall_mem_map]
    exact ⟨isFirst.condition, fun arm mem => (areOthers arm mem).condition⟩
  · simp only [blocks, List.forall_mem_map, List.forall_mem_append, List.forall_mem_cons]
    exact ⟨⟨isFirst.body, fun arm mem => (areOthers arm mem).body⟩, areLast, nofun⟩

theorem traced_select {subject : Expr} {cases : List Case} {otherwise : Option CaseBody}
    {span : Span} (isSubject : subject.Traced tokens)
    (areCases : ∀ case ∈ cases, case.Traced tokens)
    (isLast : ∀ body ∈ otherwise, body.Traced tokens) :
    (select subject cases otherwise span).Traced tokens := by
  have bodies : ∀ body ∈ cases.map Case.body ++ otherwise.toList, body.Traced tokens := by
    simp only [List.forall_mem_append, List.forall_mem_map, Option.mem_toList]
    exact ⟨fun case mem => (areCases case mem).body, isLast⟩
  refine everywhere_iff.2 ⟨?_, ?_⟩
  · rw [values, List.forall_mem_append, List.forall_mem_filterMap, List.forall_mem_cons,
      List.forall_mem_map]
    exact ⟨⟨isSubject, fun case mem => (areCases case mem).pattern⟩,
      fun body mem => (bodies body mem).value⟩
  · rw [blocks, List.forall_mem_map, List.forall_mem_filterMap]
    exact fun body mem => (bodies body mem).block

end Stmt

/-- The expressions of a declaration are traced: those of its statements, or of its fields. -/
structure Decl.Traced (tokens : List Token) (d : Decl) : Prop where
  statements : ∀ stmt ∈ d.statements, ∀ value ∈ stmt.values, value.Traced tokens
  initials : ∀ value ∈ d.initials, value.Traced tokens

namespace Parse

variable {g : Grammar} {c : Cursor}

/-- The token behind the current one is of the kind that the cursor sees ahead. -/
theorem kind_next_of_peek {k : Kind} (sees : c.peek 1 = k) (notEnd : k ≠ .eof) :
    c.next.kind = k := by
  have more : c.ahead ≠ [] := by
    intro last
    rw [Cursor.peek, Cursor.left, last] at sees
    exact notEnd sees.symm
  rw [Cursor.kind_next more, sees]

section Fitting

variable (fitting : g.Fitting)

include fitting

/-! ## Statements -/

theorem traces_someExpr : Traces tokens (some <$> expr g .loosest)
    (fun value => ∀ v ∈ value, v.Traced tokens) c :=
  (traces_expr fitting _).map fun _ _ traced => by simpa using traced

theorem traces_condition : Traces tokens (condition g) (Expr.Traced tokens) c :=
  .skip (traces_token (by decide)) fun _ _ => .bind (traces_expr fitting _) fun _ _ traced =>
    .skip (traces_token (by decide)) fun _ _ => .pure traced

theorem traces_declaration (isMutable : Bool) (type : Name) (start : Position) :
    Traces tokens (declaration g isMutable type start) (Stmt.Traced tokens) c := by
  refine .skip traces_arrayMark fun _ _ => .skip (traces_token (by decide)) fun _ _ => ?_
  refine .skip (traces_token (by decide)) fun _ _ => ?_
  refine .bind (traces_expr fitting _) fun _ _ traced => ?_
  refine .skip (traces_token (by decide)) fun _ _ => .bind (traces_spanFrom _) fun _ _ _ => ?_
  exact .pure (Stmt.traced_plain rfl (List.forall_mem_singleton.2 traced))

/-- **An assignment** that is refused is refused where its target starts. -/
theorem traces_assignment {target : Expr} (isTarget : target.Traced tokens) (start : Position) :
    Traces tokens (assignment g target start) (Stmt.Traced tokens) c := by
  refine .onKind ?_
  cases assigns : assignedValue? c.kind with
  | none =>
    refine .skip (traces_token (by decide)) fun _ _ => .bind (traces_spanFrom _) fun _ _ _ => ?_
    exact .pure (Stmt.traced_plain rfl (List.forall_mem_singleton.2 isTarget))
  | some assigned =>
    have notInt : c.kind ≠ .int := by
      intro isInt
      rw [isInt] at assigns
      cases assigns
    refine .ite (fun _ => ?_) fun _ sound => ?_
    · refine Traces.take notInt fun _ => .bind (traces_expr fitting _) fun value _ isValue => ?_
      refine .skip (traces_token (by decide)) fun _ _ => .bind (traces_spanFrom _) fun _ _ _ => ?_
      refine .pure (Stmt.traced_plain rfl (List.forall_mem_cons.2
        ⟨isTarget, List.forall_mem_singleton.2 ?_⟩))
      rcases assignedValue?_cases assigns with ⟨-, rfl⟩ | ⟨-, operator, rfl⟩
      · exact isValue
      · exact Expr.traced_operation operator isTarget isValue
    · exact .halted ⟨sound.tokens, .target (sound.tokens ▸ isTarget.startsIn)⟩

theorem traces_simple : Traces tokens (simple g) (Stmt.Traced tokens) c := by
  refine Traces.start fun _ => .bind (traces_expr fitting _) fun first _ isFirst => .look ?_
  refine .ite (fun _ => ?_) fun _ => traces_assignment fitting isFirst _
  split
  · exact .skip traces_freshId fun _ _ => traces_declaration fitting _ _ _
  · exact traces_declaration fitting _ _ _
  · exact traces_assignment fitting isFirst _

section Blocks

variable {block : Parse (List Stmt)} (inner : ∀ c, Traces tokens block (TracedBody tokens) c)

include inner

theorem traces_loop (isMark : c.kind.isMark = true) :
    Traces tokens (loop g block) (Stmt.Traced tokens) c := by
  refine Traces.mark isMark fun _ => .bind (traces_condition fitting) fun _ _ isCondition => ?_
  refine .bind (inner _) fun _ _ areTraced => .bind (traces_spanFrom _) fun _ _ _ => .pure ?_
  exact Stmt.everywhere_iff.2
    ⟨List.forall_mem_singleton.2 isCondition, List.forall_mem_singleton.2 areTraced⟩

theorem traces_arm : Traces tokens (arm g block) (Arm.Traced tokens) c :=
  .bind (traces_condition fitting) fun _ _ isCondition => .bind (inner _) fun _ _ areTraced =>
    .pure ⟨isCondition, areTraced⟩

theorem traces_branch (isMark : c.kind.isMark = true) :
    Traces tokens (branch g block) (Stmt.Traced tokens) c := by
  have further (c : Cursor) (goesOn : c.kind = .elseWord ∧ c.peek 1 = .ifWord) :
      Traces tokens (do let _ ← advance; let _ ← advance; arm g block) (Arm.Traced tokens) c :=
    Traces.mark (goesOn.1 ▸ rfl) fun _ =>
      Traces.mark (kind_next_of_peek goesOn.2 (by decide) ▸ rfl) fun _ => traces_arm fitting inner
  refine Traces.mark isMark fun _ => .bind (traces_arm fitting inner) fun first _ isFirst => ?_
  refine .bind (traces_repeatWhile fun c goesOn => further c (by simpa using goesOn))
    fun others _ areOthers => ?_
  refine .skip (traces_consume (by decide)) fun hasLast _ => .ite (fun _ => ?_) fun _ => ?_
  · exact .bind (inner _) fun _ _ areLast => .bind (traces_spanFrom _) fun _ _ _ =>
      .pure (Stmt.traced_branch isFirst areOthers areLast)
  · rw [pure_bind]
    exact .bind (traces_spanFrom _) fun _ _ _ =>
      .pure (Stmt.traced_branch isFirst areOthers (List.forall_mem_nil _))

theorem traces_caseBody : Traces tokens (caseBody g block) (CaseBody.Traced tokens) c := by
  refine .onKind (.ite (fun _ => (inner c).map fun body _ areTraced => ⟨nofun, ?_⟩) fun _ =>
    (traces_expr fitting _).map fun value _ traced => ⟨?_, nofun⟩)
  · rintro _ ⟨⟩
    exact areTraced
  · rintro _ ⟨⟩
    exact traced

theorem traces_case : Traces tokens (case g block) (Case.Traced tokens) c :=
  .bind (traces_expr fitting _) fun _ _ isPattern => .skip (traces_token (by decide)) fun _ _ =>
    .bind (traces_caseBody fitting inner) fun _ _ isBody =>
      .skip (traces_separator _) fun _ _ => .pure ⟨isPattern, isBody⟩

theorem traces_lastCase :
    Traces tokens (lastCase g block) (fun last => ∀ body ∈ last, body.Traced tokens) c := by
  refine .skip (traces_consume (by decide)) fun _ _ => .ite (fun _ => ?_) fun _ => .pure nofun
  refine .skip (traces_token (by decide)) fun _ _ => ?_
  refine .bind (traces_caseBody fitting inner) fun _ _ isBody => ?_
  refine .skip (traces_separator _) fun _ _ => .pure ?_
  rintro _ ⟨⟩
  exact isBody

theorem traces_select (isMark : c.kind.isMark = true) :
    Traces tokens (select g block) (Stmt.Traced tokens) c := by
  refine Traces.mark isMark fun _ => .bind (traces_condition fitting) fun _ _ isSubject => ?_
  refine .skip (traces_token (by decide)) fun _ _ => ?_
  refine .bind (traces_repeatWhile fun _ _ => traces_case fitting inner) fun _ _ areCases => ?_
  refine .bind (traces_lastCase fitting inner) fun _ _ isLast => ?_
  exact .skip (traces_token (by decide)) fun _ _ => .bind (traces_spanFrom _) fun _ _ _ =>
    .pure (Stmt.traced_select isSubject areCases isLast)

omit inner in
theorem traces_returnWith (isMark : c.kind.isMark = true) :
    Traces tokens (returnWith g) (Stmt.Traced tokens) c := by
  refine Traces.mark isMark fun _ => .onKind (.ite (fun _ => ?_) fun _ => ?_)
  · rw [pure_bind]
    exact .skip (traces_token (by decide)) fun _ _ => .bind (traces_spanFrom _) fun _ _ _ =>
      .pure (Stmt.traced_plain rfl (List.forall_mem_nil _))
  · refine .bind (traces_someExpr fitting) fun value _ isValue => ?_
    refine .skip (traces_token (by decide)) fun _ _ => .bind (traces_spanFrom _) fun _ _ _ => ?_
    refine .pure (Stmt.traced_plain rfl ?_)
    simpa [Stmt.values] using isValue

omit fitting inner in
theorem traces_control {build : Span → Stmt} (isMark : c.kind.isMark = true)
    (plain : ∀ span, (build span).Traced tokens) :
    Traces tokens (control build) (Stmt.Traced tokens) c :=
  Traces.mark isMark fun _ => .skip (traces_token (by decide)) fun _ _ =>
    .bind (traces_spanFrom _) fun _ _ _ => .pure (plain _)

theorem traces_formStmt (isMark : c.kind.isMark = true) (form : StmtForm) :
    Traces tokens (formStmt g block form) (Stmt.Traced tokens) c := by
  cases form with
  | loop => exact traces_loop fitting inner isMark
  | branch => exact traces_branch fitting inner isMark
  | returnWith => exact traces_returnWith fitting isMark
  | select => exact traces_select fitting inner isMark
  | breakLoop => exact traces_control isMark fun _ => Stmt.traced_plain rfl (List.forall_mem_nil _)
  | continueLoop =>
    exact traces_control isMark fun _ => Stmt.traced_plain rfl (List.forall_mem_nil _)
  | declareMutable =>
    exact Traces.mark isMark fun _ => .skip traces_name fun _ _ => traces_declaration fitting _ _ _

end Blocks

omit fitting in
theorem traces_blockOf {stmt : Parse Stmt}
    (each : ∀ c, Traces tokens stmt (Stmt.Traced tokens) c) :
    Traces tokens (blockOf stmt) (TracedBody tokens) c :=
  .skip (traces_token (by decide)) fun _ _ => .bind (traces_repeatWhile fun c _ => each c)
    fun _ _ areTraced => .skip (traces_token (by decide)) fun _ _ => .pure areTraced

theorem traces_stmtUpTo (n : Nat) : Traces tokens (stmtUpTo g n) (Stmt.Traced tokens) c := by
  induction n generalizing c with
  | zero => exact Traces.refuse .exhausted
  | succ n ih =>
    refine .onKind ?_
    split
    next form begins =>
      exact traces_formStmt fitting (fun _ => traces_blockOf fun _ => ih) (fitting.marks.stmt begins)
        form
    next => exact traces_simple fitting

/-- **A block is traced**, at every depth. -/
theorem traces_block : Traces tokens (block g) (TracedBody tokens) c :=
  traces_blockOf fun _ => .look (traces_stmtUpTo fitting _)

/-! ## Declarations -/

theorem traces_field :
    Traces tokens (field g) (fun f => ∀ value ∈ f.initial, value.Traced tokens) c := by
  refine Traces.start fun _ => .skip (traces_consume (by decide)) fun _ _ => ?_
  refine .skip traces_name fun _ _ => ?_
  refine .skip traces_arrayMark fun _ _ => .skip (traces_token (by decide)) fun _ _ => ?_
  refine .skip (traces_consume (by decide)) fun _ _ => .ite (fun _ => ?_) fun _ => ?_
  · exact .bind (traces_someExpr fitting) fun _ _ isInitial =>
      .skip (traces_token (by decide)) fun _ _ => .bind (traces_spanFrom _) fun _ _ _ =>
        .pure isInitial
  · rw [pure_bind]
    exact .skip (traces_token (by decide)) fun _ _ => .bind (traces_spanFrom _) fun _ _ _ =>
      .pure nofun

/-- What stands in a structure is traced: the value of a field, or those of a structure inside. -/
def TracedMember (tokens : List Token) : Field ⊕ StructDecl → Prop
  | .inl f => ∀ value ∈ f.initial, value.Traced tokens
  | .inr d => ∀ value ∈ d.initials, value.Traced tokens

theorem traces_structMember {inner : Parse StructDecl}
    (each : Traces tokens inner (fun d => ∀ value ∈ d.initials, value.Traced tokens) c) :
    Traces tokens (structMember g inner) (TracedMember tokens) c := by
  refine .onKind ?_
  split
  · exact each.map fun _ _ areTraced => areTraced
  · exact each.map fun _ _ areTraced => areTraced
  · exact (traces_field fitting).map fun _ _ isTraced => isTraced

theorem traces_structUpTo (n : Nat) :
    Traces tokens (structUpTo g n) (fun d => ∀ value ∈ d.initials, value.Traced tokens) c := by
  induction n generalizing c with
  | zero => exact Traces.refuse .exhausted
  | succ n ih =>
    have bases (c : Cursor) : Traces tokens bases (fun _ => True) c :=
      .skip (traces_consume (by decide)) fun _ _ => .ite
        (fun _ => (traces_separated fun _ => traces_name).weaken fun _ _ _ => trivial)
        fun _ => .pure trivial
    refine Traces.start fun _ => .skip (traces_consume (by decide)) fun _ _ => ?_
    refine .skip (traces_token (by decide)) fun _ _ => .skip (traces_token (by decide)) fun _ _ => ?_
    refine .skip traces_typeParameters fun _ _ => .skip (bases _) fun _ _ => ?_
    refine .skip (traces_token (by decide)) fun _ _ => ?_
    refine .bind (traces_repeatUntil fun _ => traces_structMember fitting ih)
      fun members _ areMembers => ?_
    refine .skip (traces_token (by decide)) fun _ _ => .bind (traces_spanFrom _) fun _ _ _ => ?_
    refine .pure ?_
    beta_reduce
    rw [StructDecl.initials, StructDecl.initialsOf_eq, List.forall_mem_append]
    constructor
    · intro value mem
      obtain ⟨f, isField, initial⟩ := List.mem_filterMap.1 mem
      obtain ⟨member, isMember, left⟩ := List.mem_filterMap.1 isField
      rw [Sum.getLeft?_eq_some_iff.1 left] at isMember
      exact areMembers _ isMember value initial
    · intro value mem
      obtain ⟨d, isInner, initial⟩ := List.mem_flatMap.1 mem
      obtain ⟨member, isMember, right⟩ := List.mem_filterMap.1 isInner
      rw [Sum.getRight?_eq_some_iff.1 right] at isMember
      exact areMembers _ isMember value initial

omit fitting in
theorem traces_inputs : Traces tokens inputs (fun _ => True) c := by
  have parameter (c : Cursor) : Traces tokens parameter (fun _ => True) c :=
    Traces.start fun _ => .skip traces_name fun _ _ => .skip traces_arrayMark fun _ _ =>
      .skip (traces_token (by decide)) fun _ _ => .skip (traces_separator _) fun _ _ =>
        .bind (traces_spanFrom _) fun _ _ _ => .pure trivial
  exact .skip (traces_token (by decide)) fun _ _ => .bind (traces_repeatUntil parameter)
    fun _ _ _ => .skip (traces_token (by decide)) fun _ _ => .pure trivial

omit fitting in
theorem traces_output : Traces tokens output (fun _ => True) c :=
  .skip (traces_token (by decide)) fun _ _ => .skip traces_name fun _ _ =>
    .skip traces_arrayMark fun _ _ => .pure trivial

theorem traces_function :
    Traces tokens (function g) (fun d => TracedBody tokens d.body) c :=
  Traces.start fun _ => .skip (traces_consume (by decide)) fun _ _ =>
    .skip (traces_token (by decide)) fun _ _ => .skip traces_typeParameters fun _ _ =>
      .skip traces_name fun _ _ => .skip traces_inputs fun _ _ => .skip traces_output fun _ _ =>
        .bind (traces_block fitting) fun _ _ areTraced => .bind (traces_spanFrom _) fun _ _ _ =>
          .pure areTraced

omit fitting in
theorem traces_interface (isMark : c.kind.isMark = true) :
    Traces tokens interface (fun _ => True) c := by
  have method (c : Cursor) : Traces tokens method (fun _ => True) c :=
    Traces.start fun _ => .skip (traces_consume (by decide)) fun _ _ =>
      .skip (traces_token (by decide)) fun _ _ => .skip (traces_token (by decide)) fun _ _ =>
        .skip traces_inputs fun _ _ => .skip traces_output fun _ _ =>
          .skip (traces_token (by decide)) fun _ _ => .bind (traces_spanFrom _) fun _ _ _ =>
            .pure trivial
  refine Traces.mark isMark fun _ => .skip (traces_token (by decide)) fun _ _ => ?_
  refine .skip traces_typeParameters fun _ _ => .skip (traces_token (by decide)) fun _ _ => ?_
  exact .bind (traces_repeatUntil method) fun _ _ _ => .skip (traces_token (by decide)) fun _ _ =>
    .bind (traces_spanFrom _) fun _ _ _ => .pure trivial

omit fitting in
theorem traces_synonym (isMark : c.kind.isMark = true) :
    Traces tokens synonym (fun _ => True) c :=
  Traces.mark isMark fun _ => .skip (traces_token (by decide)) fun _ _ =>
    .skip (traces_token (by decide)) fun _ _ => .skip traces_name fun _ _ =>
      .skip (traces_token (by decide)) fun _ _ => .bind (traces_spanFrom _) fun _ _ _ =>
        .pure trivial

omit fitting in
theorem traces_enum (isMark : c.kind.isMark = true) : Traces tokens enum (fun _ => True) c := by
  have value (c : Cursor) : Traces tokens enumValue (fun _ => True) c :=
    .skip (traces_token (by decide)) fun _ _ => .pure trivial
  refine Traces.mark isMark fun _ => .skip (traces_token (by decide)) fun _ _ => ?_
  refine .skip (traces_token (by decide)) fun _ _ => .bind (traces_separated value) fun _ _ _ => ?_
  exact .skip (traces_token (by decide)) fun _ _ => .bind (traces_spanFrom _) fun _ _ _ =>
    .pure trivial

/-- **A declaration is traced.** -/
theorem traces_decl : Traces tokens (decl g) (Decl.Traced tokens) c := by
  have plain {d : Decl} (noBody : d.statements = []) (noFields : d.initials = []) :
      d.Traced tokens := by
    refine ⟨?_, ?_⟩
    · rw [noBody]
      exact List.forall_mem_nil _
    · rw [noFields]
      exact List.forall_mem_nil _
  refine .onKind ?_
  split
  · exact Meets.map (.look (traces_structUpTo fitting _)) fun _ _ areTraced =>
      ⟨List.forall_mem_nil _, areTraced⟩
  · exact (traces_function fitting).map fun _ _ areTraced =>
      ⟨forall_statements_iff.2 areTraced, List.forall_mem_nil _⟩
  next begins =>
    exact (traces_interface (fitting.marks.decl begins)).map fun _ _ _ => plain rfl rfl
  next begins => exact (traces_synonym (fitting.marks.decl begins)).map fun _ _ _ => plain rfl rfl
  next begins => exact (traces_enum (fitting.marks.decl begins)).map fun _ _ _ => plain rfl rfl
  · exact traces_unexpected .declaration

end Fitting

/-! ## Files -/

theorem traces_moduleTexts : Traces tokens moduleTexts (fun _ => True) c := by
  have front (c : Cursor) (goesOn : c.kind = .identifier ∧ c.peek 1 = .dot) :
      Traces tokens (do let token ← advance; let _ ← advance; return token.text)
        (fun _ => True) c :=
    Traces.take (by rw [goesOn.1]; decide) fun _ =>
      Traces.mark (kind_next_of_peek goesOn.2 (by decide) ▸ rfl) fun _ => .pure trivial
  refine .bind (traces_repeatWhile fun c goesOn => front c (by simpa using goesOn)) fun _ _ _ => ?_
  exact .skip (traces_consume (by decide)) fun _ _ => .ite (fun _ => .pure trivial)
    fun _ => .skip (traces_token (by decide)) fun _ _ => .pure trivial

theorem traces_importPath (isMark : c.kind.isMark = true) :
    Traces tokens importPath (fun _ => True) c :=
  Traces.mark isMark fun _ => .skip traces_moduleTexts fun _ _ =>
    .skip (traces_token (by decide)) fun _ _ => .bind (traces_spanFrom _) fun _ _ _ =>
      .pure trivial

theorem traces_exports (isMark : c.kind.isMark = true) :
    Traces tokens exports (fun _ => True) c := by
  have path (c : Cursor) : Traces tokens exportPath (fun _ => True) c :=
    Traces.start fun _ => .skip traces_moduleTexts fun _ _ => .bind (traces_spanFrom _) fun _ _ _ =>
      .pure trivial
  exact Traces.mark isMark fun _ => .skip (traces_token (by decide)) fun _ _ =>
    .bind (traces_separated path) fun _ _ _ => .skip (traces_token (by decide)) fun _ _ =>
      .pure trivial

theorem traces_item (fitting : g.Fitting) {sofar : Contents}
    (areTraced : ∀ d ∈ sofar.declarations, d.Traced tokens) :
    Traces tokens (item g sofar) (fun contents => ∀ d ∈ contents.declarations, d.Traced tokens)
      c := by
  refine .onKind ?_
  split
  next isImport => exact .skip (traces_importPath (isImport ▸ rfl)) fun _ _ => .pure areTraced
  next isExport =>
    split
    · exact Traces.start fun _ => Traces.refuse .furtherExports
    · exact .skip (traces_exports (isExport ▸ rfl)) fun _ _ => .pure areTraced
  next =>
    refine .bind (traces_decl fitting) fun d _ isTraced => .pure ?_
    beta_reduce
    rw [List.forall_mem_append, List.forall_mem_singleton]
    exact ⟨areTraced, isTraced⟩

/-- **A file is traced to its tokens**, or parsing stops with a diagnostic of the grammar. -/
theorem traces_file (fitting : g.Fitting) :
    Traces tokens (file g) (fun file => ∀ value ∈ file.values, value.Traced tokens) c := by
  have items (c : Cursor) :
      Traces tokens (growWhile (fun c => c.kind ≠ .eof) (item g) ⟨[], [], none⟩)
        (fun contents => ∀ d ∈ contents.declarations, d.Traced tokens) c :=
    traces_growWhile (List.forall_mem_nil _) fun _ _ _ areTraced => traces_item fitting areTraced
  refine .bind (items c) ?_
  intro contents _ areTraced
  refine .look (.pure ?_)
  simp only [File.values, File.statements, File.initials, List.forall_mem_append,
    List.forall_mem_flatMap]
  exact ⟨fun d mem => (areTraced d mem).statements, fun d mem => (areTraced d mem).initials⟩

end Parse

end FrontEnd

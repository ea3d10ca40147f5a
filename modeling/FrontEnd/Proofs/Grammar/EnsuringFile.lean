import FrontEnd.Grammar.Decl
import FrontEnd.Proofs.Grammar.Ensuring
import FrontEnd.Proofs.Grammar.ProgressFile

/-!
# Parsed files have the shape of texts

What the actions for statements, declarations and files ensure.

**The laws** (`File.shaped_of_ofTokens`, `File.printable_of_ofTokens`): the file of scanned tokens
has the shape that texts have, and can be written if none of the tokens is a double.
-/

namespace FrontEnd

variable {doubles : Prop}

/-- A statement without blocks that can be written by itself can be written, if its expressions
can. -/
theorem Stmt.shaped_of_values {stmt : Stmt} (heads : stmt.Heads) (noBlocks : stmt.blocks = [])
    (values : ∀ value ∈ stmt.values, value.Shaped doubles) : stmt.Shaped doubles := by
  refine .mk heads values ?_
  rw [noBlocks]
  exact List.forall_mem_nil _

/-- An arm of which the condition and the statements can be written. -/
structure Arm.Shaped (doubles : Prop) (arm : Arm) : Prop where
  condition : arm.condition.Shaped doubles
  body : ∀ stmt ∈ arm.body, stmt.Shaped doubles

/-- What a pattern leads to, where it can be written. -/
structure CaseBody.Shaped (doubles : Prop) (body : CaseBody) : Prop where
  value : ∀ value ∈ body.value?, value.Shaped doubles
  block : ∀ block ∈ body.block?, ∀ stmt ∈ block, stmt.Shaped doubles

/-- A case that can be written. -/
structure Case.Shaped (doubles : Prop) (case : Case) : Prop where
  pattern : case.pattern.Shaped doubles
  body : case.body.Shaped doubles

theorem Stmt.shaped_branch {first : Arm} {others : List Arm} {otherwise : List Stmt}
    {span : Span} (firstGood : first.Shaped doubles)
    (othersGood : ∀ arm ∈ others, arm.Shaped doubles)
    (otherwiseGood : ∀ stmt ∈ otherwise, stmt.Shaped doubles) :
    (Stmt.branch first others otherwise span).Shaped doubles := by
  refine .mk trivial ?_ ?_
  · refine List.forall_mem_cons.2 ⟨firstGood.condition, ?_⟩
    simpa using fun arm mem => (othersGood arm mem).condition
  · intro block mem
    simp only [blocks, List.map_append, List.map_cons, List.map_map, List.cons_append,
      List.mem_cons, List.mem_append, List.mem_map, List.map_nil, List.not_mem_nil, or_false] at mem
    rcases mem with rfl | ⟨arm, mem, rfl⟩ | rfl
    · exact firstGood.body
    · exact (othersGood arm mem).body
    · exact otherwiseGood

theorem Stmt.shaped_select {subject : Expr} {cases : List Case} {otherwise : Option CaseBody}
    {span : Span} (subjectGood : subject.Shaped doubles)
    (casesGood : ∀ case ∈ cases, case.Shaped doubles)
    (otherwiseGood : ∀ body ∈ otherwise, body.Shaped doubles) :
    (Stmt.select subject cases otherwise span).Shaped doubles := by
  have bodies : ∀ body ∈ cases.map Case.body ++ otherwise.toList, body.Shaped doubles := by
    intro body mem
    rcases List.mem_append.1 mem with mem | mem
    · obtain ⟨case, isCase, rfl⟩ := List.mem_map.1 mem
      exact (casesGood case isCase).body
    · exact otherwiseGood body (Option.mem_toList.1 mem)
  refine .mk trivial (fun value mem => ?_) fun block mem => ?_
  · rcases List.mem_append.1 mem with mem | mem
    · rcases List.mem_cons.1 mem with rfl | mem
      · exact subjectGood
      · obtain ⟨case, isCase, rfl⟩ := List.mem_map.1 mem
        exact (casesGood case isCase).pattern
    · obtain ⟨body, isBody, found⟩ := List.mem_filterMap.1 mem
      exact (bodies body isBody).value value found
  · obtain ⟨stmts, inBlocks, rfl⟩ := List.mem_map.1 mem
    obtain ⟨body, isBody, found⟩ := List.mem_filterMap.1 inBlocks
    exact (bodies body isBody).block stmts found

namespace Parse

open Token

variable {n : Nat} {c : Cursor} {g : Grammar}

/-! ## Statements -/

theorem ensures_condition : Ensures doubles n (condition g) (Expr.Shaped doubles) c :=
  .skip (ensures_token _) fun _ _ => .bind (ensures_expr g _) fun _ _ isGood =>
    .skip (ensures_token _) fun _ _ => .pure isGood

theorem ensures_declaration {isMutable : Bool} {type : Name} (typeGood : type.Printable)
    (start : Position) :
    Ensures doubles n (declaration g isMutable type start) (Stmt.Shaped doubles) c := by
  refine .skip ensures_arrayMark fun _ _ => .skip (ensures_token _) fun _ _ => ?_
  refine .skip (ensures_token _) fun _ _ => .bind (ensures_expr g _) fun _ _ isGood => ?_
  refine .skip (ensures_token _) fun _ _ => .skip (ensures_spanFrom _) fun _ _ => .pure ?_
  exact Stmt.shaped_of_values typeGood rfl (List.forall_mem_singleton.2 isGood)

/-- What an assignment makes of its sides can be written, if the sides can. -/
theorem shaped_of_assignedValue? {k : Kind} {assigned : Expr → Expr → Expr}
    (found : assignedValue? k = some assigned) {target value : Expr}
    (targetGood : target.Shaped doubles) (valueGood : value.Shaped doubles) :
    (assigned target value).Shaped doubles := by
  rcases assignedValue?_cases found with ⟨-, rfl⟩ | ⟨-, operator, rfl⟩
  · exact valueGood
  · exact .binary targetGood valueGood

theorem ensures_assignment {target : Expr} (targetGood : target.Shaped doubles) (start : Position) :
    Ensures doubles n (assignment g target start) (Stmt.Shaped doubles) c := by
  refine .onKind ?_
  cases found : assignedValue? c.kind with
  | none =>
    refine .skip (ensures_token _) fun _ _ => .skip (ensures_spanFrom _) fun _ _ => .pure ?_
    exact Stmt.shaped_of_values trivial rfl (List.forall_mem_singleton.2 targetGood)
  | some assigned =>
    refine .ite (fun assignable => ?_) fun _ => .halt
    refine Ensures.advance fun _ _ => .bind (ensures_expr g _) fun value _ valueGood => ?_
    refine .skip (ensures_token _) fun _ _ => .skip (ensures_spanFrom _) fun _ _ => .pure ?_
    have assignedGood := shaped_of_assignedValue? found targetGood valueGood
    refine Stmt.shaped_of_values assignable rfl (List.forall_mem_cons.2 ⟨targetGood, ?_⟩)
    exact List.forall_mem_singleton.2 assignedGood

theorem ensures_simple : Ensures doubles n (simple g) (Stmt.Shaped doubles) c := by
  refine .skip ensures_here fun start _ => .bind (ensures_expr g _) fun first _ isGood => .look ?_
  refine .ite (fun _ => ?_) fun _ => ensures_assignment isGood start
  cases isGood with
  | double allowed => exact ensures_assignment (.double allowed) start
  | symbol =>
    refine .skip ensures_freshId fun id _ => ensures_declaration ?_ start
    exact Name.printable_of_segment (Segment.printable_plain _ _ _) _
  | name nameGood => exact ensures_declaration nameGood start
  | bool => exact ensures_assignment .bool start
  | int small => exact ensures_assignment (.int small) start
  | string => exact ensures_assignment .string start
  | char => exact ensures_assignment .char start
  | negate h => exact ensures_assignment (.negate h) start
  | minus h => exact ensures_assignment (.minus h) start
  | binary l r => exact ensures_assignment (.binary l r) start
  | call f a => exact ensures_assignment (.call f a) start
  | index b p => exact ensures_assignment (.index b p) start
  | member b no => exact ensures_assignment (.member b no) start
  | structLiteral h => exact ensures_assignment (.structLiteral h) start
  | arrayLiteral h => exact ensures_assignment (.arrayLiteral h) start

/-- Statements that can be written. -/
def GoodBody (doubles : Prop) (body : List Stmt) : Prop :=
  ∀ stmt ∈ body, stmt.Shaped doubles

section Blocks

variable {block : Parse (List Stmt)} (inner : ∀ c, Ensures doubles n block (GoodBody doubles) c)

include inner

theorem ensures_loop : Ensures doubles n (loop g block) (Stmt.Shaped doubles) c := by
  refine Ensures.advance fun _ _ => .bind ensures_condition fun condition _ conditionGood => ?_
  refine .bind (inner _) fun body _ bodyGood => .skip (ensures_spanFrom _) fun _ _ => .pure ?_
  exact .mk trivial (List.forall_mem_singleton.2 conditionGood)
    (List.forall_mem_singleton.2 bodyGood)

theorem ensures_arm : Ensures doubles n (arm g block) (Arm.Shaped doubles) c :=
  .bind ensures_condition fun _ _ conditionGood => .bind (inner _) fun _ _ bodyGood =>
    .pure ⟨conditionGood, bodyGood⟩

theorem ensures_branch : Ensures doubles n (branch g block) (Stmt.Shaped doubles) c := by
  have further (c : Cursor) : Ensures doubles n
      (do
        let _ ← advance
        let _ ← advance
        arm g block) (Arm.Shaped doubles) c :=
    Ensures.advance fun _ _ => Ensures.advance fun _ _ => ensures_arm inner
  refine Ensures.advance fun _ _ => .bind (ensures_arm inner) fun first _ firstGood => ?_
  refine .bind (ensures_repeatWhile fun c _ => further c) fun others _ othersGood => ?_
  refine .skip (ensures_consume _) fun hasLast _ => .ite (fun _ => ?_) fun _ => ?_
  · refine .bind (inner _) fun _ _ lastGood => .skip (ensures_spanFrom _) fun _ _ => .pure ?_
    exact Stmt.shaped_branch firstGood othersGood lastGood
  · rw [pure_bind]
    refine .skip (ensures_spanFrom _) fun _ _ => .pure ?_
    exact Stmt.shaped_branch firstGood othersGood (List.forall_mem_nil _)

theorem ensures_caseBody : Ensures doubles n (caseBody g block) (CaseBody.Shaped doubles) c := by
  refine .onKind (.ite (fun _ => (inner c).map fun body _ bodyGood => ?_) fun _ =>
    (ensures_expr g _).map fun value _ valueGood => ?_)
  · exact ⟨nofun, fun block found => by cases found; exact bodyGood⟩
  · exact ⟨fun found mem => by cases mem; exact valueGood, nofun⟩

theorem ensures_case : Ensures doubles n (case g block) (Case.Shaped doubles) c :=
  .bind (ensures_expr g _) fun _ _ patternGood => .skip (ensures_token _) fun _ _ =>
    .bind (ensures_caseBody inner) fun _ _ bodyGood => .skip (ensures_separator _) fun _ _ =>
      .pure ⟨patternGood, bodyGood⟩

theorem ensures_lastCase :
    Ensures doubles n (lastCase g block) (fun last => ∀ body ∈ last, body.Shaped doubles) c :=
  .skip (ensures_consume _) fun _ _ => .ite
    (fun _ => .skip (ensures_token _) fun _ _ => .bind (ensures_caseBody inner)
      fun _ _ bodyGood => .skip (ensures_separator _) fun _ _ =>
        .pure fun found mem => by cases mem; exact bodyGood)
    fun _ => .pure nofun

theorem ensures_select : Ensures doubles n (select g block) (Stmt.Shaped doubles) c := by
  refine Ensures.advance fun _ _ => .bind ensures_condition fun subject _ subjectGood => ?_
  refine .skip (ensures_token _) fun _ _ => ?_
  refine .bind (ensures_repeatWhile fun _ _ => ensures_case inner) fun cases _ casesGood => ?_
  refine .bind (ensures_lastCase inner) fun last _ lastGood => .skip (ensures_token _) fun _ _ => ?_
  refine .skip (ensures_spanFrom _) fun _ _ => .pure ?_
  exact Stmt.shaped_select subjectGood casesGood lastGood

omit inner in
theorem ensures_returnWith : Ensures doubles n (returnWith g) (Stmt.Shaped doubles) c := by
  refine Ensures.advance fun _ _ => .onKind (.ite (fun _ => ?_) fun _ => ?_)
  · rw [pure_bind]
    refine .skip (ensures_token _) fun _ _ => .skip (ensures_spanFrom _) fun _ _ => .pure ?_
    exact Stmt.shaped_of_values trivial rfl (List.forall_mem_nil _)
  · have value (c : Cursor) : Ensures doubles n (some <$> expr g .loosest)
        (fun value => ∀ found ∈ value.toList, found.Shaped doubles) c :=
      (ensures_expr g _).map fun _ _ isGood => List.forall_mem_singleton.2 isGood
    refine .bind (value _) fun _ _ isGood => .skip (ensures_token _) fun _ _ => ?_
    refine .skip (ensures_spanFrom _) fun _ _ => .pure ?_
    exact Stmt.shaped_of_values trivial rfl isGood

omit inner in
theorem ensures_control {build : Span → Stmt} (written : ∀ span, (build span).Shaped doubles) :
    Ensures doubles n (control build) (Stmt.Shaped doubles) c :=
  Ensures.advance fun _ _ => .skip (ensures_token _) fun _ _ => .skip (ensures_spanFrom _) fun _ _ =>
    .pure (written _)

omit inner in
theorem ensures_declareMutable : Ensures doubles n (declareMutable g) (Stmt.Shaped doubles) c :=
  Ensures.advance fun _ _ => .bind ensures_name fun _ _ typeGood => ensures_declaration typeGood _

theorem ensures_formStmt (form : StmtForm) :
    Ensures doubles n (formStmt g block form) (Stmt.Shaped doubles) c := by
  have word {stmt : Stmt} (heads : stmt.Heads) (noValues : stmt.values = [])
      (noBlocks : stmt.blocks = []) : stmt.Shaped doubles := by
    refine Stmt.shaped_of_values heads noBlocks ?_
    rw [noValues]
    exact List.forall_mem_nil _
  cases form with
  | loop => exact ensures_loop inner
  | branch => exact ensures_branch inner
  | returnWith => exact ensures_returnWith
  | select => exact ensures_select inner
  | breakLoop => exact ensures_control fun _ => word trivial rfl rfl
  | continueLoop => exact ensures_control fun _ => word trivial rfl rfl
  | declareMutable => exact ensures_declareMutable

end Blocks

theorem ensures_blockOf {stmt : Parse Stmt}
    (inner : ∀ c, Ensures doubles n stmt (Stmt.Shaped doubles) c) :
    Ensures doubles n (blockOf stmt) (GoodBody doubles) c :=
  .skip (ensures_token _) fun _ _ => .bind (ensures_repeatWhile fun c _ => inner c)
    fun _ _ areGood => .skip (ensures_token _) fun _ _ => .pure areGood

theorem ensures_stmtUpTo (k : Nat) : Ensures doubles n (stmtUpTo g k) (Stmt.Shaped doubles) c := by
  induction k generalizing c with
  | zero => exact .halt
  | succ k ih =>
    refine .onKind ?_
    cases g.stmt c.kind with
    | some form => exact ensures_formStmt (fun _ => ensures_blockOf fun _ => ih) form
    | none => exact ensures_simple

/-- **A block of statements can be written.** -/
theorem ensures_block : Ensures doubles n (block g) (GoodBody doubles) c :=
  ensures_blockOf fun _ => .look (ensures_stmtUpTo _)

/-! ## Declarations -/

theorem ensures_field : Ensures doubles n (field g) (Field.Shaped doubles) c := by
  refine .skip ensures_here fun _ _ => .skip (ensures_consume _) fun _ _ => ?_
  refine .bind ensures_name fun type _ typeGood => .skip ensures_arrayMark fun _ _ => ?_
  refine .skip (ensures_token _) fun token _ => .skip (ensures_consume _) fun _ _ => ?_
  refine .ite (fun _ => ?_) fun _ => ?_
  · have initial (c : Cursor) : Ensures doubles n (some <$> expr g .loosest)
        (fun initial => ∀ value ∈ initial, value.Shaped doubles) c :=
      (ensures_expr g _).map fun _ _ isGood => by simpa using isGood
    exact .bind (initial _) fun _ _ isGood => .skip (ensures_token _) fun _ _ =>
      .skip (ensures_spanFrom _) fun _ _ => .pure ⟨typeGood, isGood⟩
  · rw [pure_bind]
    exact .skip (ensures_token _) fun _ _ => .skip (ensures_spanFrom _) fun _ _ =>
      .pure ⟨typeGood, nofun⟩

/-- What stands in a structure, where it can be written. -/
def GoodMember (doubles : Prop) : Field ⊕ StructDecl → Prop
  | .inl f => f.Shaped doubles
  | .inr d => d.Shaped doubles

theorem ensures_structMember {inner : Parse StructDecl}
    (each : Ensures doubles n inner (StructDecl.Shaped doubles) c) :
    Ensures doubles n (structMember g inner) (GoodMember doubles) c := by
  refine .onKind ?_
  split
  · exact each.map fun _ _ isGood => isGood
  · exact each.map fun _ _ isGood => isGood
  · exact ensures_field.map fun _ _ isGood => isGood

theorem ensures_bases : Ensures doubles n bases (fun names => ∀ name ∈ names, name.Printable) c :=
  .skip (ensures_consume _) fun _ _ => .ite (fun _ => ensures_separated fun _ => ensures_name)
    fun _ => .pure (List.forall_mem_nil _)

theorem ensures_structUpTo (k : Nat) :
    Ensures doubles n (structUpTo g k) (StructDecl.Shaped doubles) c := by
  induction k generalizing c with
  | zero => exact .halt
  | succ k ih =>
    refine .skip ensures_here fun _ _ => .skip (ensures_consume _) fun isClosed _ => ?_
    refine .skip (ensures_token _) fun _ _ => .skip (ensures_token _) fun token _ => ?_
    refine .bind ensures_typeParameters fun parameters _ parametersGood => ?_
    refine .bind ensures_bases fun bases _ basesGood => .skip (ensures_token _) fun _ _ => ?_
    refine .bind (ensures_repeatUntil fun _ => ensures_structMember ih) fun members _ areGood => ?_
    refine .skip (ensures_token _) fun _ _ => .skip (ensures_spanFrom _) fun _ _ => .pure ?_
    refine .mk parametersGood basesGood (fun f mem => ?_) fun d mem => ?_
    · obtain ⟨member, isMember, found⟩ := List.mem_filterMap.1 mem
      obtain rfl := Sum.getLeft?_eq_some_iff.1 found
      exact areGood _ isMember
    · obtain ⟨member, isMember, found⟩ := List.mem_filterMap.1 mem
      obtain rfl := Sum.getRight?_eq_some_iff.1 found
      exact areGood _ isMember

theorem ensures_parameter : Ensures doubles n parameter (fun p => p.type.Printable) c :=
  .skip ensures_here fun _ _ => .bind ensures_name fun _ _ typeGood =>
    .skip ensures_arrayMark fun _ _ => .skip (ensures_token _) fun _ _ =>
      .skip (ensures_separator _) fun _ _ => .skip (ensures_spanFrom _) fun _ _ => .pure typeGood

theorem ensures_inputs :
    Ensures doubles n inputs (fun inputs => ∀ p ∈ inputs, p.type.Printable) c :=
  .skip (ensures_token _) fun _ _ => .bind (ensures_repeatUntil fun _ => ensures_parameter)
    fun _ _ areGood => .skip (ensures_token _) fun _ _ => .pure areGood

theorem ensures_output : Ensures doubles n output (fun output => output.type.Printable) c :=
  .skip (ensures_token _) fun _ _ => .bind ensures_name fun _ _ typeGood =>
    .skip ensures_arrayMark fun _ _ => .pure typeGood

theorem ensures_function : Ensures doubles n (function g) (FnDecl.Shaped doubles) c :=
  .skip ensures_here fun _ _ => .skip (ensures_consume _) fun _ _ =>
    .skip (ensures_token _) fun _ _ => .bind ensures_typeParameters fun _ _ parametersGood =>
      .bind ensures_name fun _ _ nameGood => .bind ensures_inputs fun _ _ inputsGood =>
        .bind ensures_output fun _ _ outputGood => .bind ensures_block fun _ _ bodyGood =>
          .skip (ensures_spanFrom _) fun _ _ =>
            .pure ⟨parametersGood, nameGood, ⟨inputsGood, outputGood⟩, bodyGood⟩

theorem ensures_method :
    Ensures doubles n method (fun f => SignaturePrintable f.inputs f.output) c :=
  .skip ensures_here fun _ _ => .skip (ensures_consume _) fun _ _ =>
    .skip (ensures_token _) fun _ _ => .skip (ensures_token _) fun _ _ =>
      .bind ensures_inputs fun _ _ inputsGood => .bind ensures_output fun _ _ outputGood =>
        .skip (ensures_token _) fun _ _ => .skip (ensures_spanFrom _) fun _ _ =>
          .pure ⟨inputsGood, outputGood⟩

theorem ensures_interface : Ensures doubles n interface InterfaceDecl.Printable c :=
  Ensures.advance fun _ _ => .skip (ensures_token _) fun _ _ =>
    .bind ensures_typeParameters fun _ _ parametersGood => .skip (ensures_token _) fun _ _ =>
      .bind (ensures_repeatUntil fun _ => ensures_method) fun _ _ methodsGood =>
        .skip (ensures_token _) fun _ _ => .skip (ensures_spanFrom _) fun _ _ =>
          .pure ⟨parametersGood, methodsGood⟩

theorem ensures_synonym : Ensures doubles n synonym (fun d => d.type.Printable) c :=
  Ensures.advance fun _ _ => .skip (ensures_token _) fun _ _ => .skip (ensures_token _) fun _ _ =>
    .bind ensures_name fun _ _ typeGood => .skip (ensures_token _) fun _ _ =>
      .skip (ensures_spanFrom _) fun _ _ => .pure typeGood

theorem ensures_enum : Ensures doubles n enum (fun _ => True) c := by
  have value (c : Cursor) : Ensures doubles n enumValue (fun _ => True) c :=
    .skip (ensures_token _) fun _ _ => .pure trivial
  exact Ensures.advance fun _ _ => .skip (ensures_token _) fun _ _ => .skip (ensures_token _) fun _ _ =>
    .bind (ensures_separated value) fun _ _ _ => .skip (ensures_token _) fun _ _ =>
      .skip (ensures_spanFrom _) fun _ _ => .pure trivial

/-- **A declaration can be written.** -/
theorem ensures_decl : Ensures doubles n (decl g) (Decl.Shaped doubles) c := by
  refine .onKind ?_
  cases g.decl c.kind with
  | none => exact .halt
  | some form =>
    cases form with
    | struct => exact Meets.map (.look (ensures_structUpTo _)) fun _ _ isGood => isGood
    | function => exact ensures_function.map fun _ _ isGood => isGood
    | interface => exact ensures_interface.map fun _ _ isGood => isGood
    | synonym => exact ensures_synonym.map fun _ _ isGood => isGood
    | enum => exact ensures_enum.map fun _ _ isGood => isGood

/-! ## Files -/

/-- An identifier in front of a point is no star. -/
theorem ensures_moduleTexts : Ensures doubles n moduleTexts
    (fun texts => ∃ front last, texts = front ++ [last] ∧ ∀ text ∈ front, text ≠ "*") c := by
  have dotted (c : Cursor) (isDotted : (c.kind = .identifier && c.peek 1 = .dot) = true) :
      Ensures doubles n
        (do
          let token ← advance
          let _ ← advance
          return token.text) (fun text => text ≠ "*") c := by
    simp only [Bool.and_eq_true, decide_eq_true_eq] at isDotted
    exact Ensures.advance fun scanned _ => Ensures.advance fun _ _ =>
      .pure (scanned.identifier isDotted.1)
  refine .bind (ensures_repeatWhile dotted) fun front _ frontGood => ?_
  refine .skip (ensures_consume _) fun _ _ => .ite (fun _ => .pure ⟨front, "*", rfl, frontGood⟩)
    fun _ => .skip (ensures_token _) fun token _ => .pure ⟨front, token.text, rfl, frontGood⟩

theorem ensures_importPath : Ensures doubles n importPath ModulePath.Printable c :=
  Ensures.advance fun _ _ => .bind ensures_moduleTexts fun _ _ isGood =>
    .skip (ensures_token _) fun _ _ => .skip (ensures_spanFrom _) fun _ _ => .pure isGood

theorem ensures_exportPath : Ensures doubles n exportPath ModulePath.Printable c :=
  .skip ensures_here fun _ _ => .bind ensures_moduleTexts fun _ _ isGood =>
    .skip (ensures_spanFrom _) fun _ _ => .pure isGood

theorem ensures_exports :
    Ensures doubles n exports (fun paths => ∀ path ∈ paths, path.Printable) c :=
  Ensures.advance fun _ _ => .skip (ensures_token _) fun _ _ =>
    .bind (ensures_separated fun _ => ensures_exportPath) fun _ _ areGood =>
      .skip (ensures_token _) fun _ _ => .pure areGood

/-- What of a file has been read, where it can be written. -/
structure Contents.Shaped (doubles : Prop) (contents : Contents) : Prop where
  imports : ∀ path ∈ contents.imports, path.Printable
  declarations : ∀ d ∈ contents.declarations, d.Shaped doubles
  exports : ∀ path ∈ contents.exports.getD [], path.Printable

theorem ensures_item {sofar : Contents} (isGood : sofar.Shaped doubles) :
    Ensures doubles n (item g sofar) (Contents.Shaped doubles) c := by
  refine .onKind ?_
  split
  · refine .bind ensures_importPath fun path _ pathGood => .pure { isGood with imports := ?_ }
    exact List.forall_mem_append.2 ⟨isGood.imports, List.forall_mem_singleton.2 pathGood⟩
  · cases sofar.exports with
    | none => exact .bind ensures_exports fun _ _ areGood => .pure { isGood with exports := areGood }
    | some paths => exact .skip ensures_here fun _ _ => .halt
  · refine .bind ensures_decl fun d _ dGood => .pure { isGood with declarations := ?_ }
    exact List.forall_mem_append.2 ⟨isGood.declarations, List.forall_mem_singleton.2 dGood⟩

theorem ensures_file : Ensures doubles n (file g) (File.Shaped doubles) c := by
  have none : Contents.Shaped doubles ⟨[], [], none⟩ := ⟨nofun, nofun, nofun⟩
  refine .bind (ensures_growWhile none fun _ _ isGood => ensures_item isGood)
    fun contents _ isGood => .look (.pure ?_)
  exact ⟨isGood.imports, isGood.declarations, isGood.exports⟩

end Parse

/-- The tokens that a cursor enters keep what all tokens have, and the end that is added has it. -/
theorem Cursor.fit_ofTokens {tokens : List Token} (firstId : Nat)
    (scanned : ∀ token ∈ tokens, token.Scanned)
    (doubled : ∀ token ∈ tokens, token.kind = .double → doubles) :
    (Cursor.ofTokens tokens firstId).Fit doubles (Cursor.ofTokens tokens firstId).left.length := by
  have known : ∀ token ∈ (Cursor.ofTokens tokens firstId).tokens,
      token ∈ tokens ∨ token.kind = .eof :=
    fun _ mem => (Cursor.mem_ofTokens mem).imp_left And.left
  refine ⟨Cursor.ends_ofTokens tokens firstId, Nat.le_refl _, fun token mem => ?_,
    fun token mem isDouble => ?_⟩
  · rcases known token mem with mem | isEnd
    · exact scanned token mem
    · exact Token.scanned_of_kind isEnd (by decide)
  · rcases known token mem with mem | isEnd
    · exact doubled token mem isDouble
    · rw [isEnd] at isDouble
      cases isDouble

/-- **The file of scanned tokens has the shape that texts have**, with doubles in it only if there
may be any where one of the tokens is a double. -/
theorem File.shaped_of_ofTokens {tokens : List Token} {firstId nextId : Nat} {file : File}
    (scanned : ∀ token ∈ tokens, token.Scanned)
    (doubled : ∀ token ∈ tokens, token.kind = .double → doubles)
    (parsed : File.ofTokens tokens firstId = .ok (file, nextId)) : file.Shaped doubles := by
  obtain ⟨c, run, -⟩ := File.ofTokens_eq_ok_iff.1 parsed
  exact (Parse.ensures_file.of_eq_ok (Cursor.fit_ofTokens firstId scanned doubled) run).2.2

/-- **The file of scanned tokens can be written**, if none of them is a double. -/
theorem File.printable_of_ofTokens {tokens : List Token} {firstId nextId : Nat} {file : File}
    (scanned : ∀ token ∈ tokens, token.Scanned)
    (noDouble : ∀ token ∈ tokens, token.kind ≠ .double)
    (parsed : File.ofTokens tokens firstId = .ok (file, nextId)) : file.Printable :=
  File.shaped_of_ofTokens scanned noDouble parsed

end FrontEnd

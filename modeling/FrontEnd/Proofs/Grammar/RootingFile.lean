import FrontEnd.Proofs.Grammar.Rooting

/-!
# The names of a file have a first segment

What the actions for statements, declarations and files give. A statement is rooted everywhere when
the names that it writes itself are rooted and the statements in its blocks are, so the action for a
block is passed down as it is in the grammar.

**The law** (`File.rooted_of_ofTokens`): every name of a parsed file is rooted, in type position, as
the name of a function and in expressions.
-/

namespace FrontEnd

/-! ## Rooted statements and declarations -/

/-- Every name that a statement writes outside its blocks is rooted. -/
def Stmt.Rooted (stmt : Stmt) : Prop :=
  ∀ name ∈ stmt.names, name.Rooted

/-- Every name of a declaration is rooted. -/
def Decl.Rooted (d : Decl) : Prop :=
  ∀ name ∈ d.names, name.Rooted

namespace Stmt

variable {stmt : Stmt}

/-- The names of a statement are the type that it declares and those of its expressions. -/
theorem rooted_iff :
    stmt.Rooted ↔ (∀ type ∈ stmt.declaredType?, type.Rooted) ∧
      ∀ value ∈ stmt.values, value.Rooted := by
  rw [Rooted, names, List.forall_mem_append, List.forall_mem_flatMap]
  simp only [Option.mem_toList]
  rfl

/-- A statement without a type of its own is rooted everywhere when its expressions are and the
statements in its blocks are. -/
theorem everywhere_of_values (noType : stmt.declaredType? = none)
    (values : ∀ value ∈ stmt.values, value.Rooted)
    (blocks : ∀ block ∈ stmt.blocks, ∀ inner ∈ block.1, inner.Everywhere Rooted) :
    stmt.Everywhere Rooted := by
  have own : stmt.Rooted := by
    rw [rooted_iff, noType]
    exact ⟨nofun, values⟩
  exact everywhere_iff.2 ⟨own, blocks⟩

end Stmt

/-- An arm is rooted when its condition is, and its statements are everywhere. -/
structure Arm.Rooted (arm : Arm) : Prop where
  condition : arm.condition.Rooted
  body : ∀ stmt ∈ arm.body, stmt.Everywhere Stmt.Rooted

/-- What a pattern leads to is rooted. -/
structure CaseBody.Rooted (body : CaseBody) : Prop where
  value : ∀ value ∈ body.value?, value.Rooted
  block : Parse.GoodCase Stmt.Rooted body

/-- A case is rooted when its pattern is, and what it leads to. -/
structure Case.Rooted (c : Case) : Prop where
  pattern : c.pattern.Rooted
  body : c.body.Rooted

/-- The type of a field is rooted, and so is its first value if it has one. -/
structure Field.Rooted (f : Field) : Prop where
  type : f.type.Rooted
  initial : ∀ value ∈ f.initial, value.Rooted

/-- The bounds of rooted type parameters are rooted. -/
theorem rooted_boundsOf {parameters : List TypeParameter} (rooted : ∀ p ∈ parameters, p.Rooted) :
    ∀ name ∈ boundsOf parameters, name.Rooted := by
  intro name mem
  obtain ⟨p, isParameter, bound⟩ := List.mem_filterMap.1 mem
  exact rooted p isParameter name bound

/-- The types of a signature are rooted when those of its parameters are and what is returned. -/
theorem rooted_signatureTypes {inputs : List Parameter} {output : ReturnType}
    (areInputs : ∀ p ∈ inputs, p.type.Rooted) (isOutput : output.type.Rooted) :
    ∀ name ∈ signatureTypes inputs output, name.Rooted := by
  simp only [signatureTypes, List.forall_mem_append, List.forall_mem_map,
    List.forall_mem_singleton]
  exact ⟨areInputs, isOutput⟩

/-- **The names of a structure are rooted** when those that it writes itself are, and those of the
structures inside it. -/
theorem StructDecl.rooted_names {d : StructDecl} (parameters : ∀ p ∈ d.parameters, p.Rooted)
    (bases : ∀ base ∈ d.bases, base.Rooted) (fields : ∀ f ∈ d.fields, f.Rooted)
    (inner : ∀ i ∈ d.inner, ∀ name ∈ i.names, name.Rooted) : ∀ name ∈ d.names, name.Rooted := by
  have types : ∀ name ∈ d.ownTypes, name.Rooted := by
    simp only [ownTypes, List.forall_mem_append, List.forall_mem_map]
    exact ⟨⟨rooted_boundsOf parameters, bases⟩, fun f mem => (fields f mem).type⟩
  rw [names_eq, ownNames, List.forall_mem_append, List.forall_mem_append, List.forall_mem_flatMap,
    List.forall_mem_flatMap]
  refine ⟨⟨types, ?_⟩, inner⟩
  intro f isField name mem
  obtain ⟨value, isInitial, mem⟩ := List.mem_flatMap.1 mem
  exact (fields f isField).initial value (Option.mem_toList.1 isInitial) name mem

namespace Parse

open Token

variable {g : Grammar}

/-! ## Parsing statements -/

section Statements

variable {body : Parse (List Stmt)}

/-- The expression of an optional value is rooted. -/
theorem rooted_someExpr :
    Gives (some <$> expr g .loosest) fun value => ∀ v ∈ value, v.Rooted :=
  .map (rooted_expr _) fun _ isRooted => by simpa using isRooted

theorem rooted_condition : Gives (condition g) Expr.Rooted :=
  .skip fun _ => .bind (rooted_expr _) fun _ isRooted => .skip fun _ => .pure isRooted

theorem rooted_declaration {type : Name} (isType : type.Rooted) (isMutable : Bool)
    (start : Position) :
    Gives (declaration g isMutable type start) (Stmt.Everywhere Stmt.Rooted) := by
  refine .skip fun _ => .skip fun _ => .skip fun _ => .bind (rooted_expr _) fun initial isInitial => ?_
  refine .skip fun _ => .skip fun _ => .pure (Stmt.everywhere_iff.2 ⟨Stmt.rooted_iff.2 ?_, nofun⟩)
  simp only [Stmt.declaredType?, Stmt.values, List.forall_mem_singleton]
  exact ⟨by simpa using isType, isInitial⟩

/-- What is assigned is the right side, or an operation on rooted sides. -/
theorem rooted_of_assignedValue? {k : Kind} {assigned : Expr → Expr → Expr}
    (assigns : assignedValue? k = some assigned) {target value : Expr} (isTarget : target.Rooted)
    (isValue : value.Rooted) : (assigned target value).Rooted := by
  rcases assignedValue?_cases assigns with ⟨-, rfl⟩ | ⟨-, operator, rfl⟩
  · exact isValue
  · exact Expr.rooted_binary isTarget isValue

theorem rooted_assignment {target : Expr} (isTarget : target.Rooted) (start : Position) :
    Gives (assignment g target start) (Stmt.Everywhere Stmt.Rooted) := by
  refine .skip fun kind => ?_
  cases assigns : assignedValue? kind with
  | none =>
    refine .skip fun _ => .skip fun _ => .pure (Stmt.everywhere_of_values rfl ?_ nofun)
    exact List.forall_mem_singleton.2 isTarget
  | some assigned =>
    dsimp only
    split
    · refine .skip fun _ => .bind (rooted_expr _) fun value isValue => .skip fun _ => ?_
      refine .skip fun _ => .pure (Stmt.everywhere_of_values rfl ?_ nofun)
      have isAssigned := rooted_of_assignedValue? assigns isTarget isValue
      exact List.forall_mem_cons.2 ⟨isTarget, List.forall_mem_singleton.2 isAssigned⟩
    · exact .halt

/-- A type that was parsed as an expression is a symbol, which gets a segment, or a name. -/
theorem rooted_simple : Gives (simple g) (Stmt.Everywhere Stmt.Rooted) := by
  refine .skip fun start => .bind (rooted_expr _) fun first isFirst => .skip fun c => ?_
  split
  · split
    next text span =>
      refine .skip fun id => rooted_declaration ?_ _ _
      exact Name.rooted_cons (Segment.rooted_plain id text span) nofun
    next type => exact rooted_declaration (isFirst type (List.mem_singleton_self _)) _ _
    next => exact rooted_assignment isFirst _
  · exact rooted_assignment isFirst _

variable (inner : GivesBody Stmt.Rooted body)

include inner

theorem rooted_loop : Gives (loop g body) (Stmt.Everywhere Stmt.Rooted) := by
  refine .skip fun _ => .bind rooted_condition fun _ isCondition => .bind inner fun _ areRooted => ?_
  refine .skip fun _ => .pure (Stmt.everywhere_of_values rfl ?_ ?_)
  · exact List.forall_mem_singleton.2 isCondition
  · exact List.forall_mem_singleton.2 areRooted

theorem rooted_arm : Gives (arm g body) Arm.Rooted :=
  .bind rooted_condition fun _ isCondition => .bind inner fun _ areRooted =>
    .pure ⟨isCondition, areRooted⟩

theorem rooted_branch : Gives (branch g body) (Stmt.Everywhere Stmt.Rooted) := by
  refine .skip fun _ => .bind (rooted_arm inner) fun first isFirst => ?_
  refine .bind (gives_repeatWhile (.skip fun _ => .skip fun _ => rooted_arm inner) _)
    fun others areOthers => .skip fun hasLast => ?_
  have whole {otherwise : List Stmt} (areLast : ∀ stmt ∈ otherwise, stmt.Everywhere Stmt.Rooted)
      (span : Span) : (Stmt.branch first others otherwise span).Everywhere Stmt.Rooted := by
    apply Stmt.everywhere_of_values rfl
    · simp only [Stmt.values, List.forall_mem_cons, List.forall_mem_map]
      exact ⟨isFirst.condition, fun other mem => (areOthers other mem).condition⟩
    · simp only [Stmt.blocks, List.forall_mem_map, List.forall_mem_append, List.forall_mem_cons]
      exact ⟨⟨isFirst.body, fun other mem => (areOthers other mem).body⟩, areLast, nofun⟩
  dsimp only
  split
  · exact .bind inner fun _ areLast => .skip fun span => .pure (whole areLast span)
  · rw [pure_bind]
    exact .skip fun span => .pure (@whole [] nofun span)

theorem rooted_caseBody : Gives (caseBody g body) CaseBody.Rooted := by
  refine .skip fun kind => ?_
  split
  · refine .map inner fun _ areRooted => ⟨nofun, ?_⟩
    rintro _ ⟨⟩
    exact areRooted
  · refine .map (rooted_expr _) fun _ isRooted => ⟨?_, nofun⟩
    rintro _ ⟨⟩
    exact isRooted

theorem rooted_case : Gives (case g body) Case.Rooted :=
  .bind (rooted_expr _) fun _ isPattern => .skip fun _ =>
    .bind (rooted_caseBody inner) fun _ isBody => .skip fun _ => .pure ⟨isPattern, isBody⟩

theorem rooted_lastCase : Gives (lastCase g body) fun last => ∀ body ∈ last, body.Rooted := by
  refine .skip fun hasLast => ?_
  split
  · refine .skip fun _ => .bind (rooted_caseBody inner) fun _ isBody => .skip fun _ => .pure ?_
    rintro _ ⟨⟩
    exact isBody
  · exact .pure nofun

theorem rooted_select : Gives (select g body) (Stmt.Everywhere Stmt.Rooted) := by
  refine .skip fun _ => .bind rooted_condition fun subject isSubject => .skip fun _ => ?_
  refine .bind (gives_repeatWhile (rooted_case inner) _) fun cases areCases => ?_
  refine .bind (rooted_lastCase inner) fun otherwise isLast => .skip fun _ => .skip fun _ => ?_
  have bodies : ∀ body ∈ cases.map Case.body ++ otherwise.toList, body.Rooted := by
    simp only [List.forall_mem_append, List.forall_mem_map, Option.mem_toList]
    exact ⟨fun c mem => (areCases c mem).body, isLast⟩
  refine .pure (Stmt.everywhere_of_values rfl ?_ ?_)
  · rw [Stmt.values, List.forall_mem_append, List.forall_mem_filterMap]
    refine ⟨?_, fun body mem => (bodies body mem).value⟩
    rw [List.forall_mem_cons, List.forall_mem_map]
    exact ⟨isSubject, fun c mem => (areCases c mem).pattern⟩
  · rw [Stmt.blocks, List.forall_mem_map, List.forall_mem_filterMap]
    exact fun body mem => (bodies body mem).block

omit inner in
theorem rooted_returnWith : Gives (returnWith g) (Stmt.Everywhere Stmt.Rooted) := by
  have whole (value : Option Expr) (isValue : ∀ v ∈ value, v.Rooted) (start : Position) :
      Gives (do
        let _ ← expect .semicolon
        return .returnWith value (← spanFrom start)) (Stmt.Everywhere Stmt.Rooted) := by
    refine .skip fun _ => .skip fun _ => .pure (Stmt.everywhere_of_values rfl ?_ nofun)
    simpa [Stmt.values] using isValue
  refine .skip fun _ => .skip fun kind => ?_
  dsimp only
  split
  · rw [pure_bind]
    exact whole none nofun _
  · exact .bind rooted_someExpr fun value isValue => whole value isValue _

omit inner in
theorem rooted_control {build : Span → Stmt} (noType : ∀ span, (build span).declaredType? = none)
    (noValues : ∀ span, (build span).values = []) (noBlocks : ∀ span, (build span).blocks = []) :
    Gives (control build) (Stmt.Everywhere Stmt.Rooted) := by
  refine .skip fun _ => .skip fun _ => .skip fun span => .pure ?_
  apply Stmt.everywhere_of_values (noType span)
  · rw [noValues]
    nofun
  · rw [noBlocks]
    nofun

theorem rooted_formStmt (form : StmtForm) :
    Gives (formStmt g body form) (Stmt.Everywhere Stmt.Rooted) := by
  cases form with
  | loop => exact rooted_loop inner
  | branch => exact rooted_branch inner
  | returnWith => exact rooted_returnWith
  | select => exact rooted_select inner
  | breakLoop => exact rooted_control (fun _ => rfl) (fun _ => rfl) fun _ => rfl
  | continueLoop => exact rooted_control (fun _ => rfl) (fun _ => rfl) fun _ => rfl
  | declareMutable =>
    exact .skip fun _ => .bind rooted_name fun _ isType => rooted_declaration isType true _

end Statements

theorem rooted_blockOf {stmt : Parse Stmt} (each : Gives stmt (Stmt.Everywhere Stmt.Rooted)) :
    GivesBody Stmt.Rooted (blockOf stmt) :=
  .skip fun _ => .bind (gives_repeatWhile each _) fun _ areRooted => .skip fun _ => .pure areRooted

theorem rooted_stmtUpTo (n : Nat) : Gives (stmtUpTo g n) (Stmt.Everywhere Stmt.Rooted) := by
  induction n with
  | zero => exact .halt
  | succ n ih =>
    refine .skip fun kind => ?_
    split
    · exact rooted_formStmt (rooted_blockOf ih) _
    · exact rooted_simple

/-- **The statements of a block are rooted**, at every depth. -/
theorem rooted_block : GivesBody Stmt.Rooted (block g) :=
  rooted_blockOf (.skip fun _ => rooted_stmtUpTo _)

/-! ## Parsing declarations and files -/

theorem rooted_field : Gives (field g) Field.Rooted := by
  have whole (isMutable isArray : Bool) (type : Name) (isType : type.Rooted) (text : String)
      (initial : Option Expr) (isInitial : ∀ v ∈ initial, v.Rooted) (start : Position) :
      Gives (do
        let _ ← expect .semicolon
        return (⟨isMutable, type, isArray, text, initial, ← spanFrom start⟩ : Field))
        Field.Rooted :=
    .skip fun _ => .skip fun _ => .pure ⟨isType, isInitial⟩
  refine .skip fun _ => .skip fun _ => .bind rooted_name fun type isType => .skip fun _ => ?_
  refine .skip fun _ => .skip fun hasValue => ?_
  dsimp only
  split
  · exact .bind rooted_someExpr fun value isValue => whole _ _ _ isType _ value isValue _
  · rw [pure_bind]
    exact whole _ _ _ isType _ none nofun _

/-- What stands in a structure is rooted: a field, or all names of a structure inside it. -/
def RootedMember : Field ⊕ StructDecl → Prop
  | .inl f => f.Rooted
  | .inr d => ∀ name ∈ d.names, name.Rooted

theorem rooted_structUpTo (n : Nat) :
    Gives (structUpTo g n) fun d => ∀ name ∈ d.names, name.Rooted := by
  induction n with
  | zero => exact .halt
  | succ n ih =>
    have member : Gives (structMember g (structUpTo g n)) RootedMember := by
      refine .skip fun kind => ?_
      split
      · exact .map ih fun _ isRooted => isRooted
      · exact .map ih fun _ isRooted => isRooted
      · exact .map rooted_field fun _ isRooted => isRooted
    have bases : Gives bases fun names => ∀ base ∈ names, base.Rooted := by
      refine .skip fun opens => ?_
      split
      · exact gives_separated rooted_name _
      · exact .pure nofun
    refine .skip fun _ => .skip fun _ => .skip fun _ => .skip fun token => ?_
    refine .bind rooted_typeParameters fun parameters areParameters => ?_
    refine .bind bases fun bases areBases => .skip fun _ => ?_
    refine .bind (gives_repeatWhile member _) fun members areMembers => ?_
    refine .skip fun _ => .skip fun _ => .pure (StructDecl.rooted_names areParameters areBases ?_ ?_)
    · intro f mem
      obtain ⟨member, isMember, left⟩ := List.mem_filterMap.1 mem
      have isRooted := areMembers member isMember
      rwa [Sum.getLeft?_eq_some_iff.1 left] at isRooted
    · intro d mem
      obtain ⟨member, isMember, right⟩ := List.mem_filterMap.1 mem
      have isRooted := areMembers member isMember
      rwa [Sum.getRight?_eq_some_iff.1 right] at isRooted

theorem rooted_inputs : Gives inputs fun ps => ∀ p ∈ ps, p.type.Rooted := by
  have parameter : Gives parameter fun p => p.type.Rooted :=
    .skip fun _ => .bind rooted_name fun _ isType => .skip fun _ => .skip fun _ => .skip fun _ =>
      .skip fun _ => .pure isType
  exact .skip fun _ => .bind (gives_repeatWhile parameter _) fun _ areRooted => .skip fun _ =>
    .pure areRooted

theorem rooted_output : Gives output fun output => output.type.Rooted :=
  .skip fun _ => .bind rooted_name fun _ isType => .skip fun _ => .pure isType

theorem rooted_function : Gives (function g) fun d => (Decl.function d).Rooted := by
  refine .skip fun _ => .skip fun _ => .skip fun _ => ?_
  refine .bind rooted_typeParameters fun parameters areParameters => ?_
  refine .bind rooted_name fun name isName => .bind rooted_inputs fun inputs areInputs => ?_
  refine .bind rooted_output fun output isOutput => .bind rooted_block fun body areRooted => ?_
  refine .skip fun _ => .pure ?_
  have statements := forall_statements_iff.2 areRooted
  rw [Decl.Rooted, Decl.names, List.forall_mem_append, List.forall_mem_flatMap]
  refine ⟨?_, statements⟩
  simp only [Decl.headNames, FnDecl.headNames, List.forall_mem_cons, List.forall_mem_append]
  exact ⟨isName, rooted_boundsOf areParameters, rooted_signatureTypes areInputs isOutput⟩

theorem rooted_interface : Gives interface fun d => ∀ name ∈ d.types, name.Rooted := by
  have method : Gives method fun m => ∀ name ∈ signatureTypes m.inputs m.output, name.Rooted :=
    .skip fun _ => .skip fun _ => .skip fun _ => .skip fun _ =>
      .bind rooted_inputs fun _ areInputs => .bind rooted_output fun _ isOutput =>
        .skip fun _ => .skip fun _ => .pure (rooted_signatureTypes areInputs isOutput)
  refine .skip fun _ => .skip fun _ => .bind rooted_typeParameters fun parameters areParameters => ?_
  refine .skip fun _ => .bind (gives_repeatWhile method _) fun methods areMethods => ?_
  refine .skip fun _ => .skip fun _ => .pure ?_
  rw [InterfaceDecl.types, List.forall_mem_append, List.forall_mem_flatMap]
  exact ⟨rooted_boundsOf areParameters, areMethods⟩

/-- A declaration without statements is rooted when its other names are. -/
theorem rooted_of_headNames {d : Decl} (noBody : d.statements = [])
    (head : ∀ name ∈ d.headNames, name.Rooted) : d.Rooted := by
  rw [Decl.Rooted, Decl.names, noBody, List.flatMap_nil, List.append_nil]
  exact head

/-- **Every name of a declaration is rooted.** -/
theorem rooted_decl : Gives (decl g) Decl.Rooted := by
  refine .skip fun kind => ?_
  split
  · have struct : Gives (struct g) fun d => ∀ name ∈ d.names, name.Rooted :=
      .skip fun _ => rooted_structUpTo _
    exact .map struct fun _ isRooted => rooted_of_headNames rfl isRooted
  · exact .map rooted_function fun _ isRooted => isRooted
  · exact .map rooted_interface fun _ isRooted => rooted_of_headNames rfl isRooted
  · have synonym : Gives synonym fun d => d.type.Rooted :=
      .skip fun _ => .skip fun _ => .skip fun _ => .bind rooted_name fun _ isType => .skip fun _ =>
        .skip fun _ => .pure isType
    exact .map synonym fun _ isRooted => rooted_of_headNames rfl (List.forall_mem_singleton.2 isRooted)
  · exact .map .any fun _ _ => rooted_of_headNames rfl nofun
  · exact .skip fun _ => .halt

theorem rooted_item {sofar : Contents} (areRooted : ∀ d ∈ sofar.declarations, d.Rooted) :
    Gives (item g sofar) fun contents => ∀ d ∈ contents.declarations, d.Rooted := by
  refine .skip fun kind => ?_
  split
  · exact .skip fun _ => .pure areRooted
  · split
    · exact .skip fun _ => .halt
    · exact .skip fun _ => .pure areRooted
  · refine .bind rooted_decl fun d isRooted => .pure ?_
    rw [List.forall_mem_append, List.forall_mem_singleton]
    exact ⟨areRooted, isRooted⟩

theorem rooted_file : Gives (file g) fun file => ∀ name ∈ file.names, name.Rooted :=
  .bind (gives_growWhile (fun _ areRooted => rooted_item areRooted) _ nofun)
    fun _ areRooted => .skip fun _ => .pure (List.forall_mem_flatMap.2 areRooted)

end Parse

/-- **Every name of a parsed file is rooted**: it has a first segment, and so have the names among
its arguments. -/
theorem File.rooted_of_ofTokens {tokens : List Token} {firstId nextId : Nat} {file : File}
    (parsed : File.ofTokens tokens firstId = .ok (file, nextId)) :
    ∀ name ∈ file.names, name.Rooted := by
  obtain ⟨c, run, -⟩ := File.ofTokens_eq_ok_iff.1 parsed
  exact Parse.rooted_file.of_eq_ok run

end FrontEnd

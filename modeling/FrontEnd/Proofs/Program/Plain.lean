import FrontEnd.Proofs.Grammar.Entering
import FrontEnd.Proofs.Program.Lexemes

/-!
# Written trees have no comments

Comments are dropped before parsing, and the end is added where it is missing. Neither is among the
lexemes of a tree (`File.plain_lexemes`), so a written file is entered as it is, with the end behind
it.
-/

namespace FrontEnd

open Token Lexeme

/-- Whether a kind is neither a comment nor the end. -/
def Token.Kind.isPlain (kind : Kind) : Bool :=
  kind ≠ .comment ∧ kind ≠ .eof

/-- **A word is plain** when neither a comment nor the end stands in it. -/
def Lexeme.Plain (word : List Lexeme) : Prop :=
  ∀ l ∈ word, l.1.isPlain

namespace Lexeme

variable {word behind : List Lexeme} {words : List (List Lexeme)} {mark opening closing : Kind}

@[simp] theorem plain_nil : Plain [] := nofun

@[simp] theorem plain_cons {l : Lexeme} : Plain (l :: word) ↔ l.1.isPlain ∧ Plain word :=
  List.forall_mem_cons

@[simp] theorem plain_append : Plain (word ++ behind) ↔ Plain word ∧ Plain behind :=
  List.forall_mem_append

theorem plain_flatMap {γ : Type} {xs : List γ} {wordOf : γ → List Lexeme}
    (each : ∀ x ∈ xs, Plain (wordOf x)) : Plain (xs.flatMap wordOf) := by
  intro l mem
  obtain ⟨x, isElement, inWord⟩ := List.mem_flatMap.1 mem
  exact each x isElement l inWord

theorem plain_joined (isMark : mark.isPlain) (each : ∀ word ∈ words, Plain word) :
    Plain (joined mark words) := by
  cases words with
  | nil => exact plain_nil
  | cons first rest =>
    obtain ⟨isFirst, areRest⟩ := List.forall_mem_cons.1 each
    have marked : Plain (rest.flatMap (mark.lexeme :: ·)) :=
      plain_flatMap fun word mem => plain_cons.2 ⟨isMark, areRest word mem⟩
    exact plain_append.2 ⟨isFirst, marked⟩

@[simp] theorem plain_between :
    Plain (between opening closing word) ↔ opening.isPlain ∧ Plain word ∧ closing.isPlain := by
  simp [between]

@[simp] theorem plain_grouped : Plain (grouped word) ↔ Plain word := by
  simp [grouped, Kind.isPlain]

theorem plain_list (opens : opening.isPlain) (closes : closing.isPlain)
    (each : ∀ word ∈ words, Plain word) : Plain (list opening closing words) :=
  plain_between.2 ⟨opens, plain_joined rfl each, closes⟩

@[simp] theorem plain_optional {stands : Bool} (isMark : mark.isPlain) :
    Plain (optional mark stands) := by
  unfold optional
  split <;> simp [isMark]

@[simp] theorem plain_arraySuffix {isArray : Bool} : Plain (arraySuffix isArray) := by
  unfold arraySuffix
  split <;> simp [Kind.isPlain]

end Lexeme

/-- The parser sees all tokens of a plain word. -/
theorem uncommented_of_plain {tokens : List Token} (plain : Plain (tokens.map Token.lexeme)) :
    uncommented tokens = tokens := by
  refine List.filter_eq_self.2 fun token mem => decide_eq_true fun isComment => ?_
  have isPlain := plain _ (List.mem_map_of_mem mem)
  rw [Token.lexeme, isComment] at isPlain
  cases isPlain

/-! ## Names -/

-- The recursion is that of the lexemes, over a tree and its lists together.
mutual
theorem Name.plain_lexemes : ∀ name : Name, Plain name.lexemes
  | ⟨segments, _⟩ => plain_joined rfl (plain_segmentLexemes segments)
theorem plain_segmentLexemes :
    ∀ segments : List Segment, ∀ word ∈ segmentLexemes segments, Plain word
  | [] => nofun
  | first :: rest => List.forall_mem_cons.2 ⟨first.plain_lexemes, plain_segmentLexemes rest⟩
theorem Segment.plain_lexemes : ∀ segment : Segment, Plain segment.lexemes
  | ⟨_, _, [], _⟩ => plain_cons.2 ⟨rfl, plain_nil⟩
  | ⟨_, _, argument :: rest, _⟩ =>
    plain_cons.2 ⟨rfl, plain_list rfl rfl
      (List.forall_mem_cons.2 ⟨argument.plain_lexemes, plain_nameLexemes rest⟩)⟩
theorem plain_nameLexemes : ∀ names : List Name, ∀ word ∈ nameLexemes names, Plain word
  | [] => nofun
  | first :: rest => List.forall_mem_cons.2 ⟨first.plain_lexemes, plain_nameLexemes rest⟩
end

theorem TypeParameter.plain_lexemes (p : TypeParameter) : Plain p.lexemes := by
  obtain ⟨name, bound, span⟩ := p
  cases bound with
  | none => exact plain_cons.2 ⟨rfl, plain_nil⟩
  | some bound => exact plain_cons.2 ⟨rfl, plain_cons.2 ⟨rfl, bound.plain_lexemes⟩⟩

theorem plain_parameterLexemes (parameters : List TypeParameter) :
    Plain (parameterLexemes parameters) := by
  unfold parameterLexemes
  split
  · exact plain_nil
  · exact plain_list rfl rfl (List.forall_mem_map.2 fun p _ => p.plain_lexemes)

/-! ## Expressions -/

theorem Operator.isPlain_kind (operator : Operator) : operator.kind.isPlain := by
  cases operator <;> rfl

mutual
theorem Expr.plain_core : ∀ value : Expr, Plain value.core
  | .bool value _ => by cases value <;> simp [Expr.core, Kind.isPlain]
  | .int _ _ | .double _ _ | .string _ _ | .char _ _ | .symbol _ _ => by
    simp [Expr.core, Kind.isPlain]
  | .name name => name.plain_lexemes
  | .negate value _ => plain_cons.2 ⟨rfl, plain_grouped.2 value.plain_core⟩
  | .binary operator left right _ => by
    unfold Expr.core
    split
    · exact plain_cons.2 ⟨rfl, plain_grouped.2 left.plain_core⟩
    · exact plain_append.2 ⟨plain_grouped.2 left.plain_core,
        plain_cons.2 ⟨operator.isPlain_kind, plain_grouped.2 right.plain_core⟩⟩
  | .call callee arguments _ => plain_append.2 ⟨plain_grouped.2 callee.plain_core,
      plain_list rfl rfl (plain_exprLexemes arguments)⟩
  | .index base position _ => plain_append.2 ⟨plain_grouped.2 base.plain_core,
      plain_between.2 ⟨rfl, plain_grouped.2 position.plain_core, rfl⟩⟩
  | .member base _ _ => plain_append.2 ⟨plain_grouped.2 base.plain_core,
      plain_cons.2 ⟨rfl, plain_cons.2 ⟨rfl, plain_nil⟩⟩⟩
  | .structLiteral _ fields _ => plain_append.2 ⟨plain_optional rfl,
      plain_list rfl rfl (plain_fieldLexemes fields)⟩
  | .arrayLiteral values _ => plain_list rfl rfl (plain_exprLexemes values)
theorem plain_exprLexemes : ∀ values : List Expr, ∀ word ∈ exprLexemes values, Plain word
  | [] => nofun
  | first :: rest =>
    List.forall_mem_cons.2 ⟨plain_grouped.2 first.plain_core, plain_exprLexemes rest⟩
theorem plain_fieldLexemes :
    ∀ fields : List (String × Expr), ∀ word ∈ fieldLexemes fields, Plain word
  | [] => nofun
  | (_, value) :: rest => by
    have field := plain_grouped.2 value.plain_core
    exact List.forall_mem_cons.2 ⟨by simp [Kind.isPlain, field], plain_fieldLexemes rest⟩
end

theorem Expr.plain_lexemes (value : Expr) : Plain value.lexemes :=
  plain_grouped.2 value.plain_core

theorem plain_initialLexemes (initial : Option Expr) : Plain (initialLexemes initial) := by
  cases initial with
  | none => exact plain_nil
  | some value => exact plain_cons.2 ⟨rfl, value.plain_lexemes⟩

theorem Expr.plain_conditionLexemes (value : Expr) : Plain value.conditionLexemes :=
  plain_grouped.2 value.plain_lexemes

/-! ## Statements -/

mutual
theorem Stmt.plain_lexemes : ∀ stmt : Stmt, Plain stmt.lexemes
  | .declare isMutable type isArray name initial _ => by
    simp [Stmt.lexemes, type.plain_lexemes, initial.plain_lexemes, Kind.isPlain]
  | .assign target value _ => by
    simp [Stmt.lexemes, target.plain_lexemes, value.plain_lexemes, Kind.isPlain]
  | .evaluate value _ => by simp [Stmt.lexemes, value.plain_lexemes, Kind.isPlain]
  | .breakLoop _ | .continueLoop _ | .returnWith none _ => by simp [Stmt.lexemes, Kind.isPlain]
  | .loop condition body _ => by
    simp [Stmt.lexemes, condition.plain_conditionLexemes, plain_bodyLexemes body, Kind.isPlain]
  | .branch first others otherwise _ => by
    have last := plain_bodyLexemes otherwise
    have arms := plain_armLexemes others
    unfold Stmt.lexemes
    split <;> simp [first.plain_lexemes, arms, last, Kind.isPlain]
  | .returnWith (some value) _ => by simp [Stmt.lexemes, value.plain_lexemes, Kind.isPlain]
  | .select subject cases otherwise _ => by
    have all : ∀ word ∈ caseLexemes cases ++ lastLexemes otherwise, Plain word :=
      List.forall_mem_append.2 ⟨plain_caseLexemes cases, plain_lastLexemes otherwise⟩
    exact plain_cons.2 ⟨rfl, plain_append.2 ⟨subject.plain_conditionLexemes,
      plain_list rfl rfl all⟩⟩
theorem plain_bodyLexemes : ∀ body : List Stmt, Plain (bodyLexemes body)
  | [] => plain_nil
  | first :: rest => plain_append.2 ⟨first.plain_lexemes, plain_bodyLexemes rest⟩
theorem Arm.plain_lexemes : ∀ arm : Arm, Plain arm.lexemes
  | .mk condition body => plain_append.2 ⟨condition.plain_conditionLexemes,
      plain_between.2 ⟨rfl, plain_bodyLexemes body, rfl⟩⟩
theorem plain_armLexemes : ∀ arms : List Arm, Plain (armLexemes arms)
  | [] => plain_nil
  | first :: rest => plain_cons.2 ⟨rfl, plain_cons.2 ⟨rfl,
      plain_append.2 ⟨first.plain_lexemes, plain_armLexemes rest⟩⟩⟩
theorem Case.plain_lexemes : ∀ c : Case, Plain c.lexemes
  | .mk pattern body => plain_append.2 ⟨pattern.plain_lexemes,
      plain_cons.2 ⟨rfl, body.plain_lexemes⟩⟩
theorem plain_caseLexemes : ∀ cases : List Case, ∀ word ∈ caseLexemes cases, Plain word
  | [] => nofun
  | first :: rest => List.forall_mem_cons.2 ⟨first.plain_lexemes, plain_caseLexemes rest⟩
theorem CaseBody.plain_lexemes : ∀ body : CaseBody, Plain body.lexemes
  | .block body => plain_between.2 ⟨rfl, plain_bodyLexemes body, rfl⟩
  | .value value => value.plain_lexemes
theorem plain_lastLexemes : ∀ last : Option CaseBody, ∀ word ∈ lastLexemes last, Plain word
  | none => nofun
  | some body => List.forall_mem_singleton.2
      (plain_cons.2 ⟨rfl, plain_cons.2 ⟨rfl, body.plain_lexemes⟩⟩)
end

/-! ## Declarations and files -/

theorem Field.plain_lexemes (f : Field) : Plain f.lexemes := by
  simp [lexemes, f.type.plain_lexemes, plain_initialLexemes, Kind.isPlain]

theorem plain_baseLexemes (bases : List Name) : Plain (baseLexemes bases) := by
  unfold baseLexemes
  split
  · exact plain_nil
  · exact plain_cons.2 ⟨rfl, plain_joined rfl (List.forall_mem_map.2 fun a _ => a.plain_lexemes)⟩

mutual
theorem StructDecl.plain_lexemes : ∀ d : StructDecl, Plain d.lexemes
  | ⟨_, _, parameters, bases, fields, inner, _⟩ => by
    have fields : Plain (fields.flatMap Field.lexemes) := plain_flatMap fun f _ => f.plain_lexemes
    simp [StructDecl.lexemes, plain_parameterLexemes, plain_baseLexemes, fields,
      plain_structLexemes inner, Kind.isPlain]
theorem plain_structLexemes : ∀ structs : List StructDecl, Plain (structLexemes structs)
  | [] => plain_nil
  | first :: rest => plain_append.2 ⟨first.plain_lexemes, plain_structLexemes rest⟩
end

theorem Parameter.plain_lexemes (p : Parameter) : Plain p.lexemes := by
  simp [lexemes, p.type.plain_lexemes, Kind.isPlain]

theorem plain_inputLexemes (inputs : List Parameter) : Plain (inputLexemes inputs) :=
  plain_list rfl rfl (List.forall_mem_map.2 fun p _ => p.plain_lexemes)

theorem ReturnType.plain_lexemes (output : ReturnType) : Plain output.lexemes := by
  simp [lexemes, output.type.plain_lexemes, Kind.isPlain]

theorem plain_blockLexemes (body : List Stmt) : Plain (blockLexemes body) :=
  plain_between.2 ⟨rfl, plain_bodyLexemes body, rfl⟩

theorem Method.plain_lexemes (f : Method) : Plain f.lexemes := by
  simp [lexemes, plain_inputLexemes, f.output.plain_lexemes, Kind.isPlain]

theorem Decl.plain_lexemes (d : Decl) : Plain d.lexemes := by
  cases d with
  | struct d => exact d.plain_lexemes
  | function d =>
    simp [lexemes, FnDecl.lexemes, plain_parameterLexemes, d.name.plain_lexemes, plain_inputLexemes,
      d.output.plain_lexemes, plain_blockLexemes, Kind.isPlain]
  | interface d =>
    have methods : Plain (d.methods.flatMap Method.lexemes) :=
      plain_flatMap fun f _ => f.plain_lexemes
    simp [lexemes, InterfaceDecl.lexemes, plain_parameterLexemes, methods, Kind.isPlain]
  | synonym d => simp [lexemes, SynonymDecl.lexemes, d.type.plain_lexemes, Kind.isPlain]
  | enum d =>
    have values : Plain (list .openCurly .closeCurly (d.values.map fun value => [named value])) :=
      plain_list rfl rfl (List.forall_mem_map.2 fun _ _ => plain_cons.2 ⟨rfl, plain_nil⟩)
    simp [lexemes, EnumDecl.lexemes, values, Kind.isPlain]

theorem isPlain_pathLexeme (text : String) : (pathLexeme text).1.isPlain := by
  unfold pathLexeme
  split <;> rfl

theorem ModulePath.plain_lexemes (path : ModulePath) : Plain path.lexemes :=
  plain_joined rfl (List.forall_mem_map.2 fun text _ =>
    plain_cons.2 ⟨isPlain_pathLexeme text, plain_nil⟩)

theorem plain_importLexemes (path : ModulePath) : Plain (importLexemes path) := by
  simp [importLexemes, path.plain_lexemes, Kind.isPlain]

theorem plain_exportLexemes (paths : List ModulePath) : Plain (exportLexemes paths) := by
  unfold exportLexemes
  split
  · exact plain_nil
  · exact plain_cons.2 ⟨rfl,
      plain_list rfl rfl (List.forall_mem_map.2 fun path _ => path.plain_lexemes)⟩

/-- **The lexemes of a file are plain.** -/
theorem File.plain_lexemes (file : File) : Plain file.lexemes :=
  plain_append.2 ⟨plain_flatMap fun path _ => plain_importLexemes path,
    plain_append.2 ⟨plain_exportLexemes _, plain_flatMap fun d _ => d.plain_lexemes⟩⟩

end FrontEnd

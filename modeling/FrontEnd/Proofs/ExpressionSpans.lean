import FrontEnd.Proofs.Grammar.SpanningValues

/-!
# The spans of expressions and parameters

Every expression of a file that was read from a text stands in an expression of a statement or in the
initial value of a field, which were read for them (`Parse.spans_stmtUpTo`, `Parse.spans_decl`). So it
is ordered, or it is the operation of a sign: then its number stands in front of it, and its span ends
where the sign does, in front of where it starts unless nothing is between the sign and the operand.
An expression without such operations encloses all that stands in it.

A parameter that is the last before the closing parenthesis ends with its name, and every other with
the comma behind its name.

**The law** (`File.spanned_of_ofTokens`): so it is in every file that is read from a text.
-/

namespace FrontEnd

namespace Expr

variable {tokens : List Token} {value inner outer : Expr}

theorem Within.trans (within : value.Within inner) (withinToo : inner.Within outer) :
    value.Within outer := by
  induction withinToo with
  | self => exact within
  | part isPart _ ih => exact .part isPart ih

/-- **The operation of a sign is not ordered**: its number stands in front of it. -/
theorem IsSigned.not_isOrdered (signed : value.IsSigned tokens) : ¬ value.IsOrdered := by
  intro ordered
  cases signed with
  | @operation operator operand n sign _ _ extent apart =>
    have number := (ordered.parts (.int n sign.span) (by simp [Expr.operation, parts])).start
    exact absurd (Nat.le_trans apart number) (Nat.not_le_of_lt extent)

/-- An expression that is spanned is ordered exactly when it is not the operation of a sign. -/
theorem Spanned.isOrdered_iff (spanned : value.Spanned tokens) :
    value.IsOrdered ↔ ¬ value.IsSigned tokens := by
  constructor
  · intro ordered signed
    exact signed.not_isOrdered ordered
  · exact (spanned value .self).resolve_right

theorem Spanned.within (spanned : outer.Spanned tokens) (within : value.Within outer) :
    value.Spanned tokens :=
  fun _ withinValue => spanned _ (withinValue.trans within)

end Expr

/-- **The spans of the expressions and parameters of a file.** An expression ends no sooner than it
starts and encloses its parts, exactly when it is not the operation of a sign; without such operations
in it, it encloses all that stands in it. A parameter ends behind the comma that follows its name, or
with the name in front of the closing parenthesis. -/
structure File.Spanned (tokens : List Token) (file : File) : Prop where
  ordered : ∀ value, file.HasExpr value → (value.IsOrdered ↔ ¬ value.IsSigned tokens)
  enclosed : ∀ value, file.HasExpr value →
    (∀ inner : Expr, inner.Within value → ¬ inner.IsSigned tokens) →
      ∀ inner : Expr, inner.Within value → inner.IsOrdered ∧ value.span.Encloses inner.span
  inputs : ∀ f ∈ file.functions, ∀ parameter ∈ f.inputs, parameter.ReachesOver tokens
  methods : ∀ i, Decl.interface i ∈ file.declarations → ∀ m ∈ i.methods, ∀ parameter ∈ m.inputs,
    parameter.ReachesOver tokens

namespace File

variable {name text : String} {tokens : List Token} {firstId nextId : Nat} {file : File}

/-- **The expressions of a file are spanned.** -/
theorem spanned_of_mem_values (scanned : Token.ofText name text = .ok tokens)
    (parsed : ofTokens tokens firstId = .ok (file, nextId)) :
    ∀ value ∈ file.values, value.Spanned tokens := by
  have leaves := Grammar.leavesEnd_standard
  simp only [values, statements, initials, List.forall_mem_append, List.forall_mem_flatMap]
  constructor
  · intro d isDecl stmt inDecl value isValue
    cases d with
    | function f =>
      have isFunction : f ∈ file.functions := List.mem_filterMap.2 ⟨_, isDecl, rfl⟩
      obtain ⟨c, c', isOver, n, run⟩ := exists_stmtRun scanned parsed isFunction inDecl
      exact ((Parse.spans_stmtUpTo leaves isOver n).of_eq_ok isOver.ends .refl run).2 value isValue
    | _ => cases inDecl
  · intro d isDecl value isInitial
    obtain ⟨c, c', isOver, run⟩ := exists_run scanned parsed isDecl
    exact ((Parse.spans_decl leaves isOver).of_eq_ok isOver.ends .refl run).2.initials value isInitial

/-- **Expressions and parameters have these spans** in every file that is read from a text. -/
theorem spanned_of_ofTokens (scanned : Token.ofText name text = .ok tokens)
    (parsed : ofTokens tokens firstId = .ok (file, nextId)) : file.Spanned tokens := by
  have leaves := Grammar.leavesEnd_standard
  have spanned (value : Expr) (has : file.HasExpr value) : value.Spanned tokens := by
    obtain ⟨outer, isValue, within⟩ := has
    exact (spanned_of_mem_values scanned parsed outer isValue).within within
  have declared (d : Decl) (isDecl : d ∈ file.declarations) : d.Spanned tokens := by
    obtain ⟨c, c', isOver, run⟩ := exists_run scanned parsed isDecl
    exact ((Parse.spans_decl leaves isOver).of_eq_ok isOver.ends .refl run).2
  refine ⟨fun value has => (spanned value has).isOrdered_iff, ?enclosed, ?inputs, ?methods⟩
  case enclosed =>
    intro value has plain inner within
    exact (spanned value has).encloses plain within
  case inputs =>
    intro f isFunction
    obtain ⟨d, isDecl, isHere⟩ := List.mem_filterMap.1 isFunction
    cases d with
    | function d =>
      cases isHere
      exact (declared _ isDecl).inputs _ rfl
    | _ => cases isHere
  case methods =>
    intro i isDecl
    exact (declared _ isDecl).methods i rfl

/-- A function whose first parameter has a comma behind it, and a sign with a blank behind it. -/
def spacedSign : String :=
  "fn f(int a, int b): int { return - a; }"

/-- **A span that ends before it starts**, and one that covers a separator: that of the operation of
the sign, and that of the first parameter, which takes in the comma behind the token of its name. -/
theorem spans_spacedSign : ∃ tokens file nextId, Token.ofText "m" spacedSign = .ok tokens ∧
    ofTokens tokens 0 = .ok (file, nextId) ∧
    (∃ value, file.HasExpr value ∧ value.span = ⟨⟨35, 1, "m"⟩, ⟨34, 1, "m"⟩⟩) ∧
    ∃ f ∈ file.functions, ∃ parameter ∈ f.inputs, parameter.name = "a" ∧
      parameter.span = ⟨⟨5, 1, "m"⟩, ⟨11, 1, "m"⟩⟩ ∧
      ⟨.identifier, "a", ⟨⟨9, 1, "m"⟩, ⟨10, 1, "m"⟩⟩⟩ ∈ tokens ∧
      ⟨.comma, ",", ⟨⟨10, 1, "m"⟩, ⟨11, 1, "m"⟩⟩⟩ ∈ tokens := by
  have reads : ((Token.ofText "m" spacedSign).toOption.any fun tokens =>
      (ofTokens tokens 0).toOption.any (fun result => result.1.functions.any fun f =>
        f.body.any (fun stmt => stmt.values.any fun value =>
          value.span = ⟨⟨35, 1, "m"⟩, ⟨34, 1, "m"⟩⟩) &&
        f.inputs.any fun parameter => parameter.name = "a" &&
          parameter.span = ⟨⟨5, 1, "m"⟩, ⟨11, 1, "m"⟩⟩) &&
      decide (⟨.identifier, "a", ⟨⟨9, 1, "m"⟩, ⟨10, 1, "m"⟩⟩⟩ ∈ tokens) &&
      decide (⟨.comma, ",", ⟨⟨10, 1, "m"⟩, ⟨11, 1, "m"⟩⟩⟩ ∈ tokens)) = true := by
    decide +kernel
  obtain ⟨tokens, scanned, reads⟩ := exists_ok_of_any reads
  simp only [Bool.and_eq_true, decide_eq_true_eq] at reads
  obtain ⟨⟨reads, isName⟩, isComma⟩ := reads
  obtain ⟨⟨file, nextId⟩, parsed, found⟩ := exists_ok_of_any reads
  simp only [List.any_eq_true, Bool.and_eq_true, decide_eq_true_eq] at found
  obtain ⟨f, isFunction, ⟨stmt, inBody, value, isValue, span⟩, parameter, isInput, named⟩ := found
  obtain ⟨d, isDecl, isHere⟩ := List.mem_filterMap.1 isFunction
  have isStatement : stmt ∈ file.statements := by
    cases d with
    | function d =>
      cases isHere
      obtain ⟨before, behind, isBody⟩ := List.append_of_mem inBody
      refine List.mem_flatMap.2 ⟨_, isDecl, mem_statements_iff.2 ⟨before, false, ?_⟩⟩
      rw [isBody]
      exact .here
    | _ => cases isHere
  have has : file.HasExpr value :=
    ⟨value, List.mem_append_left _ (List.mem_flatMap.2 ⟨stmt, isStatement, isValue⟩), .self⟩
  exact ⟨tokens, file, nextId, scanned, parsed, ⟨value, has, span⟩, f, isFunction, parameter,
    isInput, named.1, named.2, isName, isComma⟩

/-- A text with operations of signs, an assignment with an operator, a field with an initial value,
and parameters of a function and of a method. -/
def manySpans : String :=
  "struct A { int n = (1 + 2) * -3; } interface I { fn m(int[] k, A a): int; }\n" ++
    "fn f(int a, A b): int { a += - b.n; return f(!a, [a, { .n = 1 }]) + 1; }"

/-- The text is parsed as three declarations, and its expressions and parameters have the spans. -/
theorem spanned_of_ofTokens_manySpans : ∃ tokens file nextId,
    Token.ofText "m" manySpans = .ok tokens ∧ ofTokens tokens 0 = .ok (file, nextId) ∧
    file.declarations.length = 3 ∧ file.Spanned tokens := by
  have reads : ((Token.ofText "m" manySpans).toOption.any fun tokens =>
      (ofTokens tokens 0).toOption.any fun result => result.1.declarations.length = 3) = true := by
    decide +kernel
  obtain ⟨tokens, scanned, reads⟩ := exists_ok_of_any reads
  obtain ⟨⟨file, nextId⟩, parsed, three⟩ := exists_ok_of_any reads
  exact ⟨tokens, file, nextId, scanned, parsed, of_decide_eq_true three,
    spanned_of_ofTokens scanned parsed⟩

end File

end FrontEnd

import FrontEnd.Proofs.Grammar.EnsuringFile
import FrontEnd.Proofs.Program.Lexemes
import FrontEnd.Proofs.Program.Occurrence

/-!
# Parsed files are well formed

The types of the tree admit more than the parser gives, and what comes behind the parser relies on
the difference without a check. A name has segments, and among arguments only its last segment
carries arguments. A path has texts, and no star in front of its last. Only what can be assigned to is
assigned to. A point behind a name lengthens the name, so no member is taken of one, and a name of
one segment without arguments is a symbol. A negative integer is only ever the factor minus one,
which stands for a sign.

All of this is read off the shape that parsed files have (`File.Shaped`), from the file down to
every place in it: what passes from an expression to its parts passes to all that stands within it.

**The law** (`File.wellFormed_of_ofTokens`): the file of a text is well formed.
-/

namespace FrontEnd

/-- **The parts of an expression that no sign has put there**: all but a right factor minus one. -/
def Expr.unsignedParts : Expr → List Expr
  | .binary .multiply left right _ => if right.isMinusOne then [left] else [left, right]
  | value => value.parts

/-- **A file is well formed.** -/
structure File.WellFormed (file : File) : Prop where
  /-- A name has a segment. -/
  segments : ∀ name, file.HasName name → name.segments ≠ []
  /-- Of the segments of an argument only the last carries arguments. -/
  arguments : ∀ name, file.HasName name → ∀ segment ∈ name.segments, ∀ a ∈ segment.arguments,
    ∀ front ∈ a.segments.dropLast, front.arguments = []
  /-- A path has a text, and no star in front of its last. -/
  paths : ∀ path ∈ file.imports ++ file.exports, path.texts ≠ [] ∧ "*" ∉ path.texts.dropLast
  /-- What is assigned to is a symbol, a name, an element or a member. -/
  targets : ∀ target value span, Stmt.assign target value span ∈ file.statements →
    target.isAssignable = true
  /-- No member is taken of a symbol or a name. -/
  members : ∀ base field span, file.HasExpr (.member base field span) → base.isName = false
  /-- A name that is an expression is dotted or carries arguments. -/
  names : ∀ name, file.HasExpr (.name name) →
    2 ≤ name.segments.length ∨ ∃ segment ∈ name.segments, segment.arguments ≠ []
  /-- An integer that stands in no other expression is not negative. -/
  integers : ∀ value span, Expr.int value span ∈ file.values → 0 ≤ value
  /-- An integer within an expression is not negative, but for the factor minus one. -/
  factors : ∀ outer, file.HasExpr outer →
    ∀ value span, Expr.int value span ∈ outer.unsignedParts → 0 ≤ value

/-! ## Names -/

/-- Every name in a name that can be written can be written. -/
theorem Name.Printable.inside {name inner : Name} (written : name.Printable)
    (mem : inner ∈ name.inside) : inner.Printable := by
  refine Name.inside_induction written (fun name written segment isSegment a isArgument => ?_) mem
  exact Itemised.printable (written.segment segment isSegment a isArgument)

namespace Expr.Shaped

variable {doubles : Prop} {value part inner outer : Expr}

/-! ## Expressions -/

/-- The names of an expression of the shape that texts have can be written. -/
theorem names (h : value.Shaped doubles) : ∀ name ∈ value.names, name.Printable := by
  induction h with
  | name written _ => simpa [Expr.names] using written
  | negate _ ih => exact ih
  | minus _ ih => simpa [Expr.names] using ih
  | binary _ _ left right => exact List.forall_mem_append.2 ⟨left, right⟩
  | call _ _ callee arguments =>
    intro name mem
    rw [Expr.names, namesOfList_eq] at mem
    rcases List.mem_append.1 mem with mem | mem
    · exact callee name mem
    · obtain ⟨a, isArgument, mem⟩ := List.mem_flatMap.1 mem
      exact arguments a isArgument name mem
  | index _ _ base position => exact List.forall_mem_append.2 ⟨base, position⟩
  | member _ _ base => exact base
  | structLiteral _ ih =>
    intro name mem
    rw [Expr.names, namesOfFields_eq] at mem
    obtain ⟨field, isField, mem⟩ := List.mem_flatMap.1 mem
    exact ih field isField name mem
  | arrayLiteral _ ih =>
    intro name mem
    rw [Expr.names, namesOfList_eq] at mem
    obtain ⟨value, isValue, mem⟩ := List.mem_flatMap.1 mem
    exact ih value isValue name mem
  | _ => exact List.forall_mem_nil _

/-- A part that no sign has put there has the shape of the whole. -/
theorem unsignedPart (h : value.Shaped doubles) (mem : part ∈ value.unsignedParts) :
    part.Shaped doubles := by
  cases h with
  | negate h =>
    obtain rfl := List.mem_singleton.1 mem
    exact h
  | minus h =>
    obtain rfl := List.mem_singleton.1 mem
    exact h
  | @binary operator left right span leftShaped rightShaped =>
    have both : part = left ∨ part = right := by
      cases operator <;> simpa [unsignedParts, parts, rightShaped.isMinusOne] using mem
    rcases both with rfl | rfl
    · exact leftShaped
    · exact rightShaped
  | call callee arguments =>
    rcases List.mem_cons.1 mem with rfl | mem
    · exact callee
    · exact arguments part mem
  | index base position =>
    rcases List.mem_cons.1 mem with rfl | mem
    · exact base
    · obtain rfl := List.mem_singleton.1 mem
      exact position
  | member base _ =>
    obtain rfl := List.mem_singleton.1 mem
    exact base
  | structLiteral h =>
    obtain ⟨field, isField, rfl⟩ := List.mem_map.1 mem
    exact h field isField
  | arrayLiteral h => exact h part mem
  | _ => cases mem

/-- A sign puts minus one where it stands, and nothing else. -/
theorem isMinusOne_of_mem_parts (mem : part ∈ value.parts) (signed : part ∉ value.unsignedParts) :
    part.isMinusOne = true := by
  cases value with
  | binary operator left right span =>
    cases operator with
    | multiply =>
      by_cases factor : right.isMinusOne = true
      · simp only [unsignedParts, factor, if_true, List.mem_singleton] at signed
        simp only [parts, List.mem_cons, List.not_mem_nil, or_false, signed, false_or] at mem
        rw [mem]
        exact factor
      · refine absurd mem ?_
        simpa only [unsignedParts, parts, factor, Bool.false_eq_true, if_false] using signed
    | _ => exact absurd mem signed
  | _ => exact absurd mem signed

theorem parts_of_isMinusOne (factor : value.isMinusOne = true) : value.parts = [] := by
  cases value with
  | int => rfl
  | _ => cases factor

/-- **What stands within an expression** has its shape, or is the factor minus one. -/
theorem within (h : outer.Shaped doubles) (stands : inner.Within outer) :
    inner.Shaped doubles ∨ inner.isMinusOne = true := by
  induction stands with
  | self => exact .inl h
  | @part outer part isPart stands ih =>
    by_cases unsigned : part ∈ outer.unsignedParts
    · exact ih (h.unsignedPart unsigned)
    · have isFactor := isMinusOne_of_mem_parts isPart unsigned
      cases stands with
      | self => exact .inr isFactor
      | part further _ =>
        rw [parts_of_isMinusOne isFactor] at further
        cases further

/-- An integer of the shape that texts have is not negative. -/
theorem int_nonneg {value : Int} {span : Span} (h : (Expr.int value span).Shaped doubles) :
    0 ≤ value := by
  cases h
  exact Int.natCast_nonneg _

end Expr.Shaped

/-! ## Statements, declarations and files -/

variable {doubles : Prop}

/-- Every statement of a body has the shape that texts have, if those do that the body is made of. -/
theorem Stmt.Shaped.statements {body : List Stmt} (h : ∀ stmt ∈ body, stmt.Shaped doubles) :
    ∀ stmt ∈ statements body, stmt.Shaped doubles := by
  induction body using bodyInduction with
  | nil => simp [FrontEnd.statements]
  | cons first rest blocks ih =>
    obtain ⟨firstShaped, restShaped⟩ := List.forall_mem_cons.1 h
    intro stmt mem
    rw [statements_cons, List.cons_append, List.mem_cons, List.mem_append, List.mem_flatMap] at mem
    rcases mem with rfl | ⟨⟨block, isLoop⟩, isBlock, mem⟩ | mem
    · exact firstShaped
    · cases firstShaped with
      | mk _ _ inner => exact blocks block isLoop isBlock (inner _ isBlock) stmt mem
    · exact ih restShaped stmt mem

/-- The names of a statement of the shape that texts have can be written. -/
theorem Stmt.Shaped.names {stmt : Stmt} (h : stmt.Shaped doubles) :
    ∀ name ∈ stmt.names, name.Printable := by
  cases h with
  | mk heads values _ =>
    intro name mem
    rcases List.mem_append.1 mem with mem | mem
    · cases stmt with
      | declare =>
        obtain rfl := List.mem_singleton.1 mem
        exact heads
      | _ => cases mem
    · obtain ⟨value, isValue, mem⟩ := List.mem_flatMap.1 mem
      exact (values value isValue).names name mem

theorem mem_boundsOf {parameters : List TypeParameter} (h : ∀ p ∈ parameters, p.Printable) :
    ∀ name ∈ boundsOf parameters, name.Printable := by
  intro name mem
  obtain ⟨p, isParameter, bound⟩ := List.mem_filterMap.1 mem
  exact h p isParameter name bound

theorem SignaturePrintable.types {inputs : List Parameter} {output : ReturnType}
    (h : SignaturePrintable inputs output) :
    ∀ name ∈ signatureTypes inputs output, name.Printable := by
  refine List.forall_mem_append.2 ⟨?_, List.forall_mem_singleton.2 h.output⟩
  simpa using h.inputs

theorem StructDecl.Shaped.names {d : StructDecl} (h : d.Shaped doubles) :
    ∀ name ∈ d.names, name.Printable := by
  induction h with
  | @mk d parameters bases fields _ ih =>
    rw [StructDecl.names_eq]
    refine List.forall_mem_append.2 ⟨List.forall_mem_append.2 ⟨?_, ?_⟩, ?_⟩
    · refine List.forall_mem_append.2
        ⟨List.forall_mem_append.2 ⟨mem_boundsOf parameters, bases⟩, ?_⟩
      simpa using fun f mem => (fields f mem).type
    · intro name mem
      obtain ⟨f, isField, mem⟩ := List.mem_flatMap.1 mem
      obtain ⟨value, isInitial, mem⟩ := List.mem_flatMap.1 mem
      exact ((fields f isField).initial value (Option.mem_toList.1 isInitial)).names name mem
    · intro name mem
      obtain ⟨inner, isInner, mem⟩ := List.mem_flatMap.1 mem
      exact ih inner isInner name mem

theorem StructDecl.Shaped.initials {d : StructDecl} (h : d.Shaped doubles) :
    ∀ value ∈ d.initials, value.Shaped doubles := by
  induction h with
  | @mk d _ _ fields _ ih =>
    obtain ⟨isClosed, name, parameters, bases, ownFields, inner, span⟩ := d
    intro value mem
    rw [StructDecl.initials, initialsOf_eq] at mem
    rcases List.mem_append.1 mem with mem | mem
    · obtain ⟨f, isField, isInitial⟩ := List.mem_filterMap.1 mem
      exact (fields f isField).initial value isInitial
    · obtain ⟨d, isInner, mem⟩ := List.mem_flatMap.1 mem
      exact ih d isInner value mem

theorem Decl.Shaped.statements {d : Decl} (h : d.Shaped doubles) :
    ∀ stmt ∈ d.statements, stmt.Shaped doubles := by
  cases d with
  | function f => exact Stmt.Shaped.statements h.body
  | _ => exact List.forall_mem_nil _

theorem Decl.Shaped.names {d : Decl} (h : d.Shaped doubles) :
    ∀ name ∈ d.names, name.Printable := by
  refine List.forall_mem_append.2 ⟨?_, ?_⟩
  · cases d with
    | struct d => exact StructDecl.Shaped.names h
    | function d =>
      refine List.forall_mem_cons.2 ⟨h.name, List.forall_mem_append.2 ⟨?_, h.signature.types⟩⟩
      exact mem_boundsOf h.parameters
    | interface d =>
      refine List.forall_mem_append.2 ⟨mem_boundsOf h.parameters, fun name mem => ?_⟩
      obtain ⟨method, isMethod, mem⟩ := List.mem_flatMap.1 mem
      exact (h.methods method isMethod).types name mem
    | synonym d => exact List.forall_mem_singleton.2 h
    | enum d => exact List.forall_mem_nil _
  · intro name mem
    obtain ⟨stmt, isStmt, mem⟩ := List.mem_flatMap.1 mem
    exact (h.statements stmt isStmt).names name mem

namespace File

variable {file : File}

theorem Shaped.statements (h : file.Shaped doubles) :
    ∀ stmt ∈ file.statements, stmt.Shaped doubles := by
  intro stmt mem
  obtain ⟨d, isDecl, mem⟩ := List.mem_flatMap.1 mem
  exact (h.declarations d isDecl).statements stmt mem

/-- The expressions of a file that stand in no other have the shape that texts have. -/
theorem Shaped.values (h : file.Shaped doubles) :
    ∀ value ∈ file.values, value.Shaped doubles := by
  refine List.forall_mem_append.2 ⟨fun value mem => ?_, fun value mem => ?_⟩
  · obtain ⟨stmt, isStmt, mem⟩ := List.mem_flatMap.1 mem
    cases h.statements stmt isStmt with
    | mk _ values _ => exact values value mem
  · obtain ⟨d, isDecl, mem⟩ := List.mem_flatMap.1 mem
    cases d with
    | struct d => exact StructDecl.Shaped.initials (h.declarations _ isDecl) value mem
    | _ => cases mem

/-- **Every expression of a file** has the shape that texts have, or is the factor minus one. -/
theorem Shaped.expr (h : file.Shaped doubles) {value : Expr} (has : file.HasExpr value) :
    value.Shaped doubles ∨ value.isMinusOne = true := by
  obtain ⟨outer, isValue, stands⟩ := has
  exact (h.values outer isValue).within stands

/-- **Every name of a file** can be written. -/
theorem Shaped.name (h : file.Shaped doubles) {name : Name} (has : file.HasName name) :
    name.Printable := by
  obtain ⟨outer, isName, mem⟩ := has
  obtain ⟨d, isDecl, isName⟩ := List.mem_flatMap.1 isName
  exact ((h.declarations d isDecl).names outer isName).inside mem

/-- **A file of the shape that texts have is well formed.** -/
theorem Shaped.wellFormed (h : file.Shaped doubles) : file.WellFormed where
  segments _ has := (h.name has).nonempty
  arguments name has segment isSegment a isArgument :=
    ((h.name has).segment segment isSegment a isArgument).arguments_of_mem_dropLast
  paths path mem := by
    have written : path.Printable := by
      rcases List.mem_append.1 mem with mem | mem
      · exact h.imports path mem
      · exact h.exports path mem
    obtain ⟨front, last, texts, noStar⟩ := written
    rw [texts, List.dropLast_concat]
    exact ⟨by simp, fun mem => noStar "*" mem rfl⟩
  targets target value span mem := by
    cases h.statements _ mem with
    | mk heads _ _ => exact heads
  members base field span has := by
    rcases h.expr has with shaped | factor
    · cases shaped with
      | member _ noName => exact noName
    · cases factor
  names name has := by
    rcases h.expr has with shaped | factor
    · cases shaped with
      | name written applied =>
        obtain ⟨segments, place⟩ := name
        match segments with
        | [] => exact absurd rfl written.nonempty
        | [segment] => exact .inr ⟨segment, List.mem_singleton_self _, applied segment rfl⟩
        | first :: second :: rest => exact .inl (by simp)
    · cases factor
  integers value span mem := (h.values _ mem).int_nonneg
  factors outer has value span mem := by
    rcases h.expr has with shaped | factor
    · exact (shaped.unsignedPart mem).int_nonneg
    · cases outer with
      | int => cases mem
      | _ => cases factor

/-- **The file of a text is well formed.** -/
theorem wellFormed_of_ofTokens {name text : String} {tokens : List Token} {firstId nextId : Nat}
    (scanned : Token.ofText name text = .ok tokens)
    (parsed : File.ofTokens tokens firstId = .ok (file, nextId)) : file.WellFormed := by
  have shaped : file.Shaped True :=
    shaped_of_ofTokens (Token.scanned_of_ofText scanned) (fun _ _ _ => trivial) parsed
  exact shaped.wellFormed

/-- A text with what the law is about: a path that ends in a star, a dotted argument with an argument
of its own, a name that is assigned to, and a sign before what a member is taken of. -/
def manyShapes : String :=
  "import lib.*; struct S { a<b.c<d>> x; } fn f(): g { this.x = (-y)[0].z; }"

/-- The text is scanned and parsed, and its file is well formed. In it are the path, the argument, and
the statement with its name and its sign, which is written here with all its parentheses. -/
theorem wellFormed_of_ofTokens_manyShapes : ∃ tokens file nextId,
    Token.ofText "a" manyShapes = .ok tokens ∧ File.ofTokens tokens 0 = .ok (file, nextId) ∧
      file.WellFormed ∧
      (∃ path ∈ file.imports, path.texts = ["lib", "*"]) ∧
      (∃ name ∈ file.names, ∃ segment ∈ name.segments, ∃ a ∈ segment.arguments,
        a.segments.map (fun part => (part.text, part.arguments.length)) = [("b", 0), ("c", 1)]) ∧
      file.statements.map (fun stmt => String.join (stmt.lexemes.map Prod.snd)) =
        ["(this.x)=(((-(y))[(0)]).z);"] := by
  have reads : ((Token.ofText "a" manyShapes).toOption.any fun tokens =>
      (File.ofTokens tokens 0).toOption.any fun parsed =>
        decide ((∃ path ∈ parsed.1.imports, path.texts = ["lib", "*"]) ∧
          (∃ name ∈ parsed.1.names, ∃ segment ∈ name.segments, ∃ a ∈ segment.arguments,
            a.segments.map (fun part => (part.text, part.arguments.length)) =
              [("b", 0), ("c", 1)]) ∧
          parsed.1.statements.map (fun stmt => String.join (stmt.lexemes.map Prod.snd)) =
            ["(this.x)=(((-(y))[(0)]).z);"])) = true := by
    decide +kernel
  obtain ⟨tokens, scanned, reads⟩ := exists_ok_of_any reads
  obtain ⟨⟨file, nextId⟩, parsed, reads⟩ := exists_ok_of_any reads
  exact ⟨tokens, file, nextId, scanned, parsed, wellFormed_of_ofTokens scanned parsed,
    of_decide_eq_true reads⟩

end File

end FrontEnd

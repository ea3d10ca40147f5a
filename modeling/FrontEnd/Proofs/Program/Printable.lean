import FrontEnd.Proofs.Program.Lexemes
import FrontEnd.Proofs.Program.Place

/-!
# Trees that can be written out

Not every tree is one that a text has. A name has a segment. A name in a list of arguments has
arguments of its own behind its last segment at most. A negative integer stands only where a sign
put it, as the factor minus one. A point behind a name lengthens the name, so the base of a member
is no name. Only what can be assigned to is assigned to. A star ends a path.

These properties are stated by one relation for each kind of tree, from the parts up, so that an
induction on the relation meets each part once. A double is kept as its bits, so a tree with doubles
has the shape of a text (`Expr.Shaped`) and still is not written out: what can be written is what
has the shape without any (`Expr.Printable`).
-/

namespace FrontEnd

/-! ## Names -/

/-- **The segments of a name in a list of arguments**: only the last carries arguments. -/
inductive Itemised : List Segment → Prop
  | last {segment : Segment} : (∀ a ∈ segment.arguments, Itemised a.segments) →
    Itemised [segment]
  | dotted {segment : Segment} {rest : List Segment} : segment.arguments = [] → Itemised rest →
    Itemised (segment :: rest)

/-- The arguments of a segment are names such as a list of arguments has. -/
def Segment.Printable (segment : Segment) : Prop :=
  ∀ a ∈ segment.arguments, Itemised a.segments

/-- **A name that can be written** has segments that can be. -/
structure Name.Printable (name : Name) : Prop where
  nonempty : name.segments ≠ []
  segment : ∀ segment ∈ name.segments, segment.Printable

theorem Itemised.printable {name : Name} (h : Itemised name.segments) : name.Printable := by
  have all : ∀ segments, Itemised segments →
      segments ≠ [] ∧ ∀ segment ∈ segments, segment.Printable := by
    intro segments h
    induction h with
    | last arguments => exact ⟨List.cons_ne_nil _ _, by simpa [Segment.Printable] using arguments⟩
    | @dotted segment rest plain _ ih =>
      refine ⟨List.cons_ne_nil _ _, List.forall_mem_cons.2 ⟨?_, ih.2⟩⟩
      intro a mem
      rw [plain] at mem
      cases mem
  exact ⟨(all _ h).1, (all _ h).2⟩

/-- In front of the last segment of an argument no segment carries arguments. -/
theorem Itemised.arguments_of_mem_dropLast {segments : List Segment} (h : Itemised segments) :
    ∀ front ∈ segments.dropLast, front.arguments = [] := by
  induction h with
  | last => simp
  | @dotted segment rest plain isItem ih =>
    intro front mem
    cases rest with
    | nil => cases isItem
    | cons second rest =>
      rw [List.dropLast_cons_cons] at mem
      rcases List.mem_cons.1 mem with rfl | mem
      · exact plain
      · exact ih front mem

/-- A segment on its own is a name that can be written, if the segment can be. -/
theorem Name.printable_of_segment {segment : Segment} (h : segment.Printable) (span : Span) :
    Name.Printable ⟨[segment], span⟩ :=
  ⟨List.cons_ne_nil _ _, by simpa using h⟩

theorem Segment.printable_plain (id : Nat) (text : String) (span : Span) :
    Segment.Printable ⟨id, text, [], span⟩ := by
  intro a mem
  cases mem

/-- A bound, if there is one, is a name that can be written. -/
def TypeParameter.Printable (p : TypeParameter) : Prop :=
  ∀ bound ∈ p.bound, bound.Printable

/-! ## Expressions -/

/-- Whether an expression is a symbol or a name. -/
def Expr.isName : Expr → Bool
  | .symbol _ _ | .name _ => true
  | _ => false

/-- **An expression of the shape that texts have**, with doubles in it only if there may be any. -/
inductive Expr.Shaped (doubles : Prop) : Expr → Prop
  | bool {value : Bool} {span : Span} : Shaped doubles (.bool value span)
  | int {value : Nat} {span : Span} : value < 0x8000000000000000 → Shaped doubles (.int value span)
  | double {bits : UInt64} {span : Span} : doubles → Shaped doubles (.double bits span)
  | string {value : String} {span : Span} : Shaped doubles (.string value span)
  | char {value : String} {span : Span} : Shaped doubles (.char value span)
  | symbol {text : String} {span : Span} : Shaped doubles (.symbol text span)
  | name {name : Name} : name.Printable →
    (∀ segment, name.segments = [segment] → segment.arguments ≠ []) → Shaped doubles (.name name)
  | negate {value : Expr} {span : Span} : Shaped doubles value →
    Shaped doubles (.negate value span)
  | minus {value : Expr} {sign span : Span} : Shaped doubles value →
    Shaped doubles (.binary .multiply value (.int (-1) sign) span)
  | binary {operator : Operator} {left right : Expr} {span : Span} : Shaped doubles left →
    Shaped doubles right → Shaped doubles (.binary operator left right span)
  | call {callee : Expr} {arguments : List Expr} {span : Span} : Shaped doubles callee →
    (∀ a ∈ arguments, Shaped doubles a) → Shaped doubles (.call callee arguments span)
  | index {base position : Expr} {span : Span} : Shaped doubles base → Shaped doubles position →
    Shaped doubles (.index base position span)
  | member {base : Expr} {field : String} {span : Span} : Shaped doubles base →
    base.isName = false → Shaped doubles (.member base field span)
  | structLiteral {isMutable : Bool} {fields : List (String × Expr)} {span : Span} :
    (∀ field ∈ fields, Shaped doubles field.2) →
    Shaped doubles (.structLiteral isMutable fields span)
  | arrayLiteral {values : List Expr} {span : Span} : (∀ value ∈ values, Shaped doubles value) →
    Shaped doubles (.arrayLiteral values span)

/-- **An expression that can be written.** -/
abbrev Expr.Printable : Expr → Prop :=
  Expr.Shaped False

/-- An expression of the shape that texts have is not minus one by itself. -/
theorem Expr.Shaped.isMinusOne {doubles : Prop} {value : Expr} (h : value.Shaped doubles) :
    value.isMinusOne = false := by
  cases h with
  | int => simp [Expr.isMinusOne]
  | _ => rfl

/-! ## Statements -/

/-- **A statement that can be written by itself**, whatever stands in it: the type of a variable is
a name that can be written, and only what can be assigned to is assigned to. -/
def Stmt.Heads : Stmt → Prop
  | .declare _ type _ _ _ _ => type.Printable
  | .assign target _ _ => target.isAssignable = true
  | _ => True

/-- **A statement of the shape that texts have**, with its expressions and its blocks. -/
inductive Stmt.Shaped (doubles : Prop) : Stmt → Prop
  | mk {stmt : Stmt} : stmt.Heads → (∀ value ∈ stmt.values, value.Shaped doubles) →
    (∀ block ∈ stmt.blocks, ∀ inner ∈ block.1, Shaped doubles inner) → Shaped doubles stmt

/-- **A statement that can be written.** -/
abbrev Stmt.Printable : Stmt → Prop :=
  Stmt.Shaped False

/-! ## Declarations and files -/

/-- A path that can be written has a last text, and no star in front of it. -/
def ModulePath.Printable (path : ModulePath) : Prop :=
  ∃ front last, path.texts = front ++ [last] ∧ ∀ text ∈ front, text ≠ "*"

/-- A field of the shape that texts have. -/
structure Field.Shaped (doubles : Prop) (f : Field) : Prop where
  type : f.type.Printable
  initial : ∀ value ∈ f.initial, value.Shaped doubles

/-- A field that can be written. -/
abbrev Field.Printable : Field → Prop :=
  Field.Shaped False

/-- **A structure of the shape that texts have.** -/
inductive StructDecl.Shaped (doubles : Prop) : StructDecl → Prop
  | mk {d : StructDecl} : (∀ p ∈ d.parameters, p.Printable) → (∀ base ∈ d.bases, base.Printable) →
    (∀ f ∈ d.fields, f.Shaped doubles) → (∀ inner ∈ d.inner, Shaped doubles inner) →
    Shaped doubles d

/-- **A structure that can be written.** -/
abbrev StructDecl.Printable : StructDecl → Prop :=
  StructDecl.Shaped False

/-- Parameters and a returned type that can be written. -/
structure SignaturePrintable (inputs : List Parameter) (output : ReturnType) : Prop where
  inputs : ∀ p ∈ inputs, p.type.Printable
  output : output.type.Printable

/-- **A function of the shape that texts have.** -/
structure FnDecl.Shaped (doubles : Prop) (f : FnDecl) : Prop where
  parameters : ∀ p ∈ f.parameters, p.Printable
  name : f.name.Printable
  signature : SignaturePrintable f.inputs f.output
  body : ∀ stmt ∈ f.body, stmt.Shaped doubles

/-- **A function that can be written.** -/
abbrev FnDecl.Printable : FnDecl → Prop :=
  FnDecl.Shaped False

/-- An interface that can be written. -/
structure InterfaceDecl.Printable (d : InterfaceDecl) : Prop where
  parameters : ∀ p ∈ d.parameters, p.Printable
  methods : ∀ f ∈ d.methods, SignaturePrintable f.inputs f.output

/-- **A declaration of the shape that texts have.** -/
def Decl.Shaped (doubles : Prop) : Decl → Prop
  | .struct d => d.Shaped doubles
  | .function d => d.Shaped doubles
  | .interface d => d.Printable
  | .synonym d => d.type.Printable
  | .enum _ => True

/-- **A declaration that can be written.** -/
abbrev Decl.Printable : Decl → Prop :=
  Decl.Shaped False

/-- **A file of the shape that texts have.** -/
structure File.Shaped (doubles : Prop) (file : File) : Prop where
  imports : ∀ path ∈ file.imports, path.Printable
  declarations : ∀ d ∈ file.declarations, d.Shaped doubles
  exports : ∀ path ∈ file.exports, path.Printable

/-- **A file that can be written.** -/
abbrev File.Printable : File → Prop :=
  File.Shaped False

end FrontEnd

import FrontEnd.Number.Decimal
import FrontEnd.Proofs.Program.TypeName
import FrontEnd.Token.Basic
import Mathlib.Algebra.BigOperators.Group.List.Basic
import Mathlib.Algebra.Order.Group.Multiset

/-!
# The data of a program

What a program says in its own words, besides its structure: the words that it uses as names, its
texts between quotes, and its integers. A token has at most one datum, and a tree has those of its
parts. As a tree and the tokens that it is written with need not agree in their order, data are
counted and not listed.

**The laws** (`Name.data_eq`, `Segment.data_eq`): the data of a name are those of its segments, and
those of a segment are its text and the data of its arguments.
-/

namespace FrontEnd

/-- **What a program says at one place.** -/
inductive Datum where
  /-- A word that names something, or is part of a name. -/
  | word (text : String)
  | string (text : String)
  | char (text : String)
  | int (value : Int)
deriving DecidableEq

/-- Whether a datum stands between quotes. -/
def Datum.isQuoted : Datum → Bool
  | .string _ | .char _ => true
  | .word _ | .int _ => false

/-- The data between quotes among some data. -/
def quotations (data : Multiset Datum) : Multiset Datum :=
  data.filter (·.isQuoted)

@[simp] theorem quotations_add (front back : Multiset Datum) :
    quotations (front + back) = quotations front + quotations back :=
  Multiset.filter_add ..

/-- All data of the members of a list, counted. -/
def total {α : Type} (data : α → Multiset Datum) (members : List α) : Multiset Datum :=
  (members.map data).sum

section Total

variable {α : Type} {data : α → Multiset Datum}

@[simp] theorem total_nil : total data [] = 0 := rfl

@[simp] theorem total_cons (first : α) (rest : List α) :
    total data (first :: rest) = data first + total data rest :=
  List.sum_cons

@[simp] theorem total_append (front back : List α) :
    total data (front ++ back) = total data front + total data back := by
  rw [total, List.map_append, List.sum_append]
  rfl

end Total

/-! ## Tokens -/

namespace Token

/-- **The datum of a token**: the text of an identifier, what stands between quotes, or the worth of
an integer. -/
def datum? (token : Token) : Option Datum :=
  match token.kind with
  | .identifier => some (.word token.text)
  | .string => some (.string token.text)
  | .char => some (.char token.text)
  | .int => some (.int (numeral token.text.toList))
  | _ => none

/-- **The marks**: the kinds of tokens that have no datum, except the end. -/
def Kind.isMark : Kind → Bool
  | .identifier | .string | .char | .int | .eof => false
  | _ => true

theorem datum?_of_isMark {token : Token} (mark : token.kind.isMark = true) :
    token.datum? = none := by
  unfold datum?
  split
  next here => simp [here, Kind.isMark] at mark
  next here => simp [here, Kind.isMark] at mark
  next here => simp [here, Kind.isMark] at mark
  next here => simp [here, Kind.isMark] at mark
  next => rfl

/-- Only identifiers have words for their data. -/
theorem identifier_of_datum? {token : Token} {text : String}
    (isWord : token.datum? = some (.word text)) : token.kind = .identifier ∧ token.text = text := by
  unfold datum? at isWord
  split at isWord
  next here =>
    cases isWord
    exact ⟨here, rfl⟩
  all_goals cases isWord

/-- **The data of tokens**, each as often as it stands there. -/
def data (tokens : List Token) : Multiset Datum :=
  tokens.filterMap datum?

theorem data_nil : data [] = 0 := rfl

theorem data_singleton (token : Token) : data [token] = token.datum?.toList := by
  rw [data, List.filterMap_cons]
  cases token.datum? <;> rfl

theorem data_append (front back : List Token) : data (front ++ back) = data front + data back := by
  rw [data, List.filterMap_append, ← Multiset.coe_add]
  rfl

theorem data_cons (token : Token) (rest : List Token) :
    data (token :: rest) = data [token] + data rest :=
  data_append [token] rest

end Token

/-! ## Names -/

/-- The texts of segments, as data. -/
def wordsOf (parts : List Segment) : Multiset Datum :=
  parts.map fun part => Datum.word part.text

theorem wordsOf_append (front back : List Segment) :
    wordsOf (front ++ back) = wordsOf front + wordsOf back := by
  rw [wordsOf, List.map_append, ← Multiset.coe_add]
  rfl

theorem wordsOf_flatMap {α : Type} (parts : α → List Segment) (members : List α) :
    wordsOf (members.flatMap parts) = total (fun member => wordsOf (parts member)) members := by
  induction members with
  | nil => rfl
  | cons first rest ih => rw [List.flatMap_cons, wordsOf_append, ih, total_cons]

/-- The data of a segment: its text and the words in its arguments. -/
def Segment.data (segment : Segment) : Multiset Datum :=
  wordsOf segment.parts

/-- **The data of a name**: the texts of all segments in it, those of its arguments too. -/
def Name.data (name : Name) : Multiset Datum :=
  wordsOf name.parts

theorem Name.data_eq (name : Name) : name.data = total Segment.data name.segments := by
  rw [data, parts_eq, partsOfSegments_eq, wordsOf_flatMap]
  rfl

theorem Segment.data_eq (segment : Segment) :
    segment.data = {.word segment.text} + total Name.data segment.arguments := by
  rw [data, parts_eq, partsOfNames_eq, ← List.singleton_append, wordsOf_append, wordsOf_flatMap]
  rfl

/-- The data of a type parameter: its name and those of its bound. -/
def TypeParameter.data (p : TypeParameter) : Multiset Datum :=
  {.word p.name} + total Name.data p.bound.toList

/-! ## Expressions -/

mutual
/-- **The data of an expression.** The name of a member or of a field is a datum too. -/
def Expr.data : Expr → Multiset Datum
  | .bool _ _ | .double _ _ => 0
  | .int value _ => {.int value}
  | .string value _ => {.string value}
  | .char value _ => {.char value}
  | .symbol text _ => {.word text}
  | .name name => name.data
  | .negate value _ => value.data
  | .binary _ left right _ => left.data + right.data
  | .call callee arguments _ => callee.data + dataOfValues arguments
  | .index base position _ => base.data + position.data
  | .member base field _ => base.data + {.word field}
  | .structLiteral _ fields _ => dataOfFieldValues fields
  | .arrayLiteral values _ => dataOfValues values
/-- The data of expressions. -/
def dataOfValues : List Expr → Multiset Datum
  | [] => 0
  | first :: rest => first.data + dataOfValues rest
/-- The data of fields with their values. -/
def dataOfFieldValues : List (String × Expr) → Multiset Datum
  | [] => 0
  | (field, value) :: rest => ({.word field} + value.data) + dataOfFieldValues rest
end

theorem dataOfValues_eq (values : List Expr) : dataOfValues values = total Expr.data values := by
  induction values with
  | nil => rfl
  | cons first rest ih => rw [dataOfValues, ih, total_cons]

theorem dataOfFieldValues_eq (fields : List (String × Expr)) :
    dataOfFieldValues fields = total (fun field => {.word field.1} + field.2.data) fields := by
  induction fields with
  | nil => rfl
  | cons first rest ih => rw [dataOfFieldValues, ih, total_cons]

/-! ## Statements -/

mutual
/-- **The data of a statement**, those of its blocks included. -/
def Stmt.data : Stmt → Multiset Datum
  | .declare _ type _ name initial _ => type.data + {.word name} + initial.data
  | .assign target value _ => target.data + value.data
  | .evaluate value _ => value.data
  | .breakLoop _ | .continueLoop _ => 0
  | .loop condition body _ => condition.data + dataOfBody body
  | .branch first others otherwise _ => first.data + dataOfArms others + dataOfBody otherwise
  | .returnWith value _ => total Expr.data value.toList
  | .select subject cases otherwise _ => subject.data + dataOfCases cases + dataOfLast otherwise
/-- The data of statements. -/
def dataOfBody : List Stmt → Multiset Datum
  | [] => 0
  | first :: rest => first.data + dataOfBody rest
/-- The data of an arm. -/
def Arm.data : Arm → Multiset Datum
  | .mk condition body => condition.data + dataOfBody body
/-- The data of arms. -/
def dataOfArms : List Arm → Multiset Datum
  | [] => 0
  | first :: rest => first.data + dataOfArms rest
/-- The data of a case. -/
def Case.data : Case → Multiset Datum
  | .mk pattern body => pattern.data + body.data
/-- The data of cases. -/
def dataOfCases : List Case → Multiset Datum
  | [] => 0
  | first :: rest => first.data + dataOfCases rest
/-- The data of what a pattern leads to. -/
def CaseBody.data : CaseBody → Multiset Datum
  | .block body => dataOfBody body
  | .value value => value.data
/-- The data of a last case. -/
def dataOfLast : Option CaseBody → Multiset Datum
  | none => 0
  | some body => body.data
end

theorem dataOfBody_eq (body : List Stmt) : dataOfBody body = total Stmt.data body := by
  induction body with
  | nil => rfl
  | cons first rest ih => rw [dataOfBody, ih, total_cons]

theorem dataOfArms_eq (arms : List Arm) : dataOfArms arms = total Arm.data arms := by
  induction arms with
  | nil => rfl
  | cons first rest ih => rw [dataOfArms, ih, total_cons]

theorem dataOfCases_eq (cases : List Case) : dataOfCases cases = total Case.data cases := by
  induction cases with
  | nil => rfl
  | cons first rest ih => rw [dataOfCases, ih, total_cons]

theorem dataOfLast_eq (last : Option CaseBody) :
    dataOfLast last = total CaseBody.data last.toList := by
  cases last with
  | none => rfl
  | some body => simp [dataOfLast]

/-! ## Declarations and files -/

/-- The data of the texts of a path. A star stands for everything below and is no datum. -/
def dataOfTexts (texts : List String) : Multiset Datum :=
  (texts.filter (· ≠ "*")).map Datum.word

theorem dataOfTexts_append (front back : List String) :
    dataOfTexts (front ++ back) = dataOfTexts front + dataOfTexts back := by
  rw [dataOfTexts, List.filter_append, List.map_append, ← Multiset.coe_add]
  rfl

theorem dataOfTexts_eq (texts : List String) :
    dataOfTexts texts = total (fun text => dataOfTexts [text]) texts := by
  induction texts with
  | nil => rfl
  | cons first rest ih => rw [total_cons, ← ih, ← dataOfTexts_append, List.singleton_append]

theorem dataOfTexts_singleton {text : String} (noStar : text ≠ "*") :
    dataOfTexts [text] = {.word text} := by
  rw [dataOfTexts, List.filter_cons_of_pos (by simpa using noStar)]
  rfl

theorem dataOfTexts_star : dataOfTexts ["*"] = 0 := by
  simp [dataOfTexts]

/-- The data of a module path. -/
def ModulePath.data (path : ModulePath) : Multiset Datum :=
  dataOfTexts path.texts

/-- The data of a field of a structure. -/
def Field.data (field : Field) : Multiset Datum :=
  field.type.data + {.word field.name} + total Expr.data field.initial.toList

mutual
/-- The data of a structure and of the structures inside it. -/
def StructDecl.data : StructDecl → Multiset Datum
  | ⟨_, name, parameters, bases, fields, inner, _⟩ =>
    {.word name} + total TypeParameter.data parameters + total Name.data bases +
      total Field.data fields + dataOfStructs inner
/-- The data of structures. -/
def dataOfStructs : List StructDecl → Multiset Datum
  | [] => 0
  | first :: rest => first.data + dataOfStructs rest
end

theorem dataOfStructs_eq (structs : List StructDecl) :
    dataOfStructs structs = total StructDecl.data structs := by
  induction structs with
  | nil => rfl
  | cons first rest ih => rw [dataOfStructs, ih, total_cons]

/-- The data of a parameter of a function. -/
def Parameter.data (p : Parameter) : Multiset Datum :=
  p.type.data + {.word p.name}

/-- The data of a function. -/
def FnDecl.data (function : FnDecl) : Multiset Datum :=
  total TypeParameter.data function.parameters + function.name.data +
    total Parameter.data function.inputs + function.output.type.data +
    total Stmt.data function.body

/-- The data of a function that an interface asks for. -/
def Method.data (method : Method) : Multiset Datum :=
  {.word method.name} + total Parameter.data method.inputs + method.output.type.data

/-- **The data of a declaration.** -/
def Decl.data : Decl → Multiset Datum
  | .struct d => d.data
  | .function d => d.data
  | .interface d =>
    {.word d.name} + total TypeParameter.data d.parameters + total Method.data d.methods
  | .synonym d => {.word d.name} + d.type.data
  | .enum d => {.word d.name} + total (fun value => {.word value}) d.values

/-- **The data of a file**, in what it imports, declares and exports. -/
def File.data (file : File) : Multiset Datum :=
  total ModulePath.data file.imports + total Decl.data file.declarations +
    total ModulePath.data file.exports

end FrontEnd

import FrontEnd.Grammar.Table
import FrontEnd.Program.Decl
import FrontEnd.Token.Basic

/-!
# The lexemes of syntax trees

A syntax tree written out as the lexemes of its tokens, which are their kinds and texts without
their places (`File.lexemes`). Imports come first, then the exports if there are any, then the
declarations; within a structure the fields come before the structures inside it. Elements have a
comma between them and none behind the last.

Every expression stands in parentheses of its own, so no operator binds across another. A product
with minus one is written as the sign that it comes from. The digits of a double are not kept in the
tree, so a double is written with no text at all.
-/

namespace FrontEnd

open Token

/-- **A lexeme**: the kind and the text of a token, without its place. -/
abbrev Lexeme :=
  Token.Kind × String

/-- The lexeme of a token. -/
def Token.lexeme (token : Token) : Lexeme :=
  (token.kind, token.text)

/-- The lexeme of a kind whose text never varies. -/
def Token.Kind.lexeme (kind : Kind) : Lexeme :=
  (kind, kind.spelling?.getD "")

namespace Lexeme

/-- An identifier. -/
def named (text : String) : Lexeme :=
  (.identifier, text)

/-- **Words with a mark between them.** -/
def joined (mark : Kind) : List (List Lexeme) → List Lexeme
  | [] => []
  | first :: rest => first ++ rest.flatMap (mark.lexeme :: ·)

/-- A word between an opening and a closing mark. -/
def between (opening closing : Kind) (word : List Lexeme) : List Lexeme :=
  opening.lexeme :: (word ++ [closing.lexeme])

/-- A word in parentheses. -/
def grouped (word : List Lexeme) : List Lexeme :=
  between .openParen .closeParen word

/-- Words with commas between them, between an opening and a closing mark. -/
def list (opening closing : Kind) (words : List (List Lexeme)) : List Lexeme :=
  between opening closing (joined .comma words)

/-- A mark that stands there or not. -/
def optional (mark : Kind) (stands : Bool) : List Lexeme :=
  if stands then [mark.lexeme] else []

/-- The mark of an array type. -/
def arraySuffix (isArray : Bool) : List Lexeme :=
  if isArray then [Kind.openBracket.lexeme, Kind.closeBracket.lexeme] else []

end Lexeme

open Lexeme

/-! ## Names -/

mutual
/-- **The lexemes of a name**: its segments with points between them. -/
def Name.lexemes : Name → List Lexeme
  | ⟨segments, _⟩ => joined .dot (segmentLexemes segments)
/-- The lexemes of each segment. -/
def segmentLexemes : List Segment → List (List Lexeme)
  | [] => []
  | first :: rest => first.lexemes :: segmentLexemes rest
/-- The lexemes of a segment: its text, and its arguments in angle brackets if it has any. -/
def Segment.lexemes : Segment → List Lexeme
  | ⟨_, text, [], _⟩ => [named text]
  | ⟨_, text, argument :: rest, _⟩ =>
    named text :: list .less .greater (argument.lexemes :: nameLexemes rest)
/-- The lexemes of each name. -/
def nameLexemes : List Name → List (List Lexeme)
  | [] => []
  | first :: rest => first.lexemes :: nameLexemes rest
end

/-- The lexemes of a type parameter, with its bound behind a colon if it has one. -/
def TypeParameter.lexemes (p : TypeParameter) : List Lexeme :=
  named p.name :: p.bound.elim [] fun bound => Kind.colon.lexeme :: bound.lexemes

/-- A list of type parameters; none is written where there are none. -/
def parameterLexemes (parameters : List TypeParameter) : List Lexeme :=
  if parameters.isEmpty then []
  else list .less .greater (parameters.map TypeParameter.lexemes)

/-! ## Expressions -/

/-- The kind of token that writes an operator. -/
def Operator.kind : Operator → Kind
  | .multiply => .star
  | .divide => .slash
  | .add => .plus
  | .subtract => .dash
  | .greater => .greater
  | .greaterOrEqual => .greaterEquals
  | .smaller => .less
  | .smallerOrEqual => .lessEquals
  | .equal => .equals
  | .notEqual => .notEquals
  | .and => .and
  | .or => .or

/-- Whether an expression is the integer minus one. -/
def Expr.isMinusOne : Expr → Bool
  | .int value _ => value == -1
  | _ => false

mutual
/-- **The lexemes of an expression** without parentheses around it. -/
def Expr.core : Expr → List Lexeme
  | .bool value _ => [if value then Kind.trueWord.lexeme else Kind.falseWord.lexeme]
  | .int value _ => [(.int, toString value)]
  | .double _ _ => [(.double, "")]
  | .string value _ => [(.string, value)]
  | .char value _ => [(.char, value)]
  | .symbol text _ => [named text]
  | .name name => name.lexemes
  | .negate value _ => Kind.not.lexeme :: grouped value.core
  | .binary operator left right _ =>
    if operator = .multiply ∧ right.isMinusOne then Kind.dash.lexeme :: grouped left.core
    else grouped left.core ++ operator.kind.lexeme :: grouped right.core
  | .call callee arguments _ =>
    grouped callee.core ++ list .openParen .closeParen (exprLexemes arguments)
  | .index base position _ =>
    grouped base.core ++ between .openBracket .closeBracket (grouped position.core)
  | .member base field _ => grouped base.core ++ [Kind.dot.lexeme, named field]
  | .structLiteral isMutable fields _ =>
    optional .mutWord isMutable ++ list .openCurly .closeCurly (fieldLexemes fields)
  | .arrayLiteral values _ => list .openBracket .closeBracket (exprLexemes values)
/-- The lexemes of each expression. -/
def exprLexemes : List Expr → List (List Lexeme)
  | [] => []
  | first :: rest => grouped first.core :: exprLexemes rest
/-- The lexemes of each field of a structure literal. -/
def fieldLexemes : List (String × Expr) → List (List Lexeme)
  | [] => []
  | (name, value) :: rest =>
    (Kind.dot.lexeme :: named name :: Kind.assignment.lexeme :: grouped value.core) ::
      fieldLexemes rest
end

/-- **The lexemes of an expression**, which stands in parentheses. -/
def Expr.lexemes (value : Expr) : List Lexeme :=
  grouped value.core

/-- A value behind an assignment token, if there is one. -/
def initialLexemes (initial : Option Expr) : List Lexeme :=
  initial.elim [] fun value => Kind.assignment.lexeme :: value.lexemes

/-! ## Statements -/

/-- The condition or subject of a statement. -/
def Expr.conditionLexemes (value : Expr) : List Lexeme :=
  grouped value.lexemes

mutual
/-- **The lexemes of a statement.** -/
def Stmt.lexemes : Stmt → List Lexeme
  | .declare isMutable type isArray name initial _ =>
    optional .mutWord isMutable ++ (type.lexemes ++ (arraySuffix isArray ++
      named name :: Kind.assignment.lexeme :: (initial.lexemes ++ [Kind.semicolon.lexeme])))
  | .assign target value _ =>
    target.lexemes ++ Kind.assignment.lexeme :: (value.lexemes ++ [Kind.semicolon.lexeme])
  | .evaluate value _ => value.lexemes ++ [Kind.semicolon.lexeme]
  | .breakLoop _ => [Kind.breakWord.lexeme, Kind.semicolon.lexeme]
  | .continueLoop _ => [Kind.continueWord.lexeme, Kind.semicolon.lexeme]
  | .loop condition body _ =>
    Kind.loopWord.lexeme ::
      (condition.conditionLexemes ++ between .openCurly .closeCurly (bodyLexemes body))
  | .branch first others otherwise _ =>
    Kind.ifWord.lexeme :: (first.lexemes ++ (armLexemes others ++
      if otherwise.isEmpty then []
      else Kind.elseWord.lexeme :: between .openCurly .closeCurly (bodyLexemes otherwise)))
  | .returnWith none _ => [Kind.returnWord.lexeme, Kind.semicolon.lexeme]
  | .returnWith (some value) _ =>
    Kind.returnWord.lexeme :: (value.lexemes ++ [Kind.semicolon.lexeme])
  | .select subject cases otherwise _ =>
    Kind.whenWord.lexeme :: (subject.conditionLexemes ++
      list .openCurly .closeCurly (caseLexemes cases ++ lastLexemes otherwise))
/-- The lexemes of statements, one behind the other. -/
def bodyLexemes : List Stmt → List Lexeme
  | [] => []
  | first :: rest => first.lexemes ++ bodyLexemes rest
/-- The lexemes of an arm. -/
def Arm.lexemes : Arm → List Lexeme
  | .mk condition body =>
    condition.conditionLexemes ++ between .openCurly .closeCurly (bodyLexemes body)
/-- The lexemes of further arms, one behind the other. -/
def armLexemes : List Arm → List Lexeme
  | [] => []
  | first :: rest =>
    Kind.elseWord.lexeme :: Kind.ifWord.lexeme :: (first.lexemes ++ armLexemes rest)
/-- The lexemes of a case. -/
def Case.lexemes : Case → List Lexeme
  | .mk pattern body => pattern.lexemes ++ Kind.colonColon.lexeme :: body.lexemes
/-- The lexemes of each case. -/
def caseLexemes : List Case → List (List Lexeme)
  | [] => []
  | first :: rest => first.lexemes :: caseLexemes rest
/-- The lexemes of what a pattern leads to. -/
def CaseBody.lexemes : CaseBody → List Lexeme
  | .block body => between .openCurly .closeCurly (bodyLexemes body)
  | .value value => value.lexemes
/-- The lexemes of a last case, if there is one. -/
def lastLexemes : Option CaseBody → List (List Lexeme)
  | none => []
  | some body => [Kind.elseWord.lexeme :: Kind.colonColon.lexeme :: body.lexemes]
end

/-- The lexemes of statements in braces. -/
def blockLexemes (body : List Stmt) : List Lexeme :=
  between .openCurly .closeCurly (bodyLexemes body)

/-! ## Declarations -/

/-- The lexemes of a field. -/
def Field.lexemes (f : Field) : List Lexeme :=
  optional .mutWord f.isMutable ++ (f.type.lexemes ++ (arraySuffix f.isArray ++
    named f.name :: (initialLexemes f.initial ++ [Kind.semicolon.lexeme])))

/-- The types that a structure builds on, behind a colon if there are any. -/
def baseLexemes (bases : List Name) : List Lexeme :=
  if bases.isEmpty then [] else Kind.colon.lexeme :: joined .comma (bases.map Name.lexemes)

mutual
/-- **The lexemes of a structure**: its fields before the structures inside it. -/
def StructDecl.lexemes : StructDecl → List Lexeme
  | ⟨isClosed, name, parameters, bases, fields, inner, _⟩ =>
    optional .closedWord isClosed ++ Kind.structWord.lexeme :: named name ::
      (parameterLexemes parameters ++ (baseLexemes bases ++
        between .openCurly .closeCurly (fields.flatMap Field.lexemes ++ structLexemes inner)))
/-- The lexemes of structures, one behind the other. -/
def structLexemes : List StructDecl → List Lexeme
  | [] => []
  | first :: rest => first.lexemes ++ structLexemes rest
end

/-- The lexemes of a parameter. -/
def Parameter.lexemes (p : Parameter) : List Lexeme :=
  p.type.lexemes ++ (arraySuffix p.isArray ++ [named p.name])

/-- The lexemes of parameters in parentheses. -/
def inputLexemes (inputs : List Parameter) : List Lexeme :=
  list .openParen .closeParen (inputs.map Parameter.lexemes)

/-- The lexemes of the type that a function returns. -/
def ReturnType.lexemes (output : ReturnType) : List Lexeme :=
  Kind.colon.lexeme :: (output.type.lexemes ++ arraySuffix output.isArray)

/-- **The lexemes of a function.** -/
def FnDecl.lexemes (f : FnDecl) : List Lexeme :=
  optional .mutWord f.isMutable ++ Kind.fnWord.lexeme :: (parameterLexemes f.parameters ++
    (f.name.lexemes ++ (inputLexemes f.inputs ++ (f.output.lexemes ++ blockLexemes f.body))))

/-- The lexemes of a function of an interface. -/
def Method.lexemes (f : Method) : List Lexeme :=
  optional .mutWord f.isMutable ++ Kind.fnWord.lexeme :: named f.name ::
    (inputLexemes f.inputs ++ (f.output.lexemes ++ [Kind.semicolon.lexeme]))

/-- The lexemes of an interface. -/
def InterfaceDecl.lexemes (d : InterfaceDecl) : List Lexeme :=
  Kind.interfaceWord.lexeme :: named d.name :: (parameterLexemes d.parameters ++
    between .openCurly .closeCurly (d.methods.flatMap Method.lexemes))

/-- The lexemes of a synonym. -/
def SynonymDecl.lexemes (d : SynonymDecl) : List Lexeme :=
  Kind.aliasWord.lexeme :: named d.name :: Kind.assignment.lexeme ::
    (d.type.lexemes ++ [Kind.semicolon.lexeme])

/-- The lexemes of an enumeration. -/
def EnumDecl.lexemes (d : EnumDecl) : List Lexeme :=
  Kind.enumWord.lexeme :: named d.name ::
    list .openCurly .closeCurly (d.values.map fun value => [named value])

/-- **The lexemes of a declaration.** -/
def Decl.lexemes : Decl → List Lexeme
  | .struct d => d.lexemes
  | .function d => d.lexemes
  | .interface d => d.lexemes
  | .synonym d => d.lexemes
  | .enum d => d.lexemes

/-! ## Files -/

/-- The lexeme of one text of a module path. -/
def pathLexeme (text : String) : Lexeme :=
  if text = "*" then Kind.star.lexeme else named text

/-- The lexemes of a module path: its texts with points between them. -/
def ModulePath.lexemes (path : ModulePath) : List Lexeme :=
  joined .dot (path.texts.map fun text => [pathLexeme text])

/-- The lexemes of an import. -/
def importLexemes (path : ModulePath) : List Lexeme :=
  Kind.importWord.lexeme :: (path.lexemes ++ [Kind.semicolon.lexeme])

/-- The lexemes of the exports; none are written where there are none. -/
def exportLexemes (paths : List ModulePath) : List Lexeme :=
  if paths.isEmpty then []
  else Kind.exportWord.lexeme :: list .openCurly .closeCurly (paths.map ModulePath.lexemes)

/-- **The lexemes of a file.** -/
def File.lexemes (file : File) : List Lexeme :=
  file.imports.flatMap importLexemes ++
    (exportLexemes file.exports ++ file.declarations.flatMap Decl.lexemes)

/-! ## Lists -/

namespace Lexeme

@[simp] theorem fst_lexeme (kind : Kind) : kind.lexeme.1 = kind := rfl

@[simp] theorem fst_named (text : String) : (named text).1 = .identifier := rfl

theorem joined_cons_cons (mark : Kind) (first second : List Lexeme) (rest : List (List Lexeme)) :
    joined mark (first :: second :: rest) =
      first ++ mark.lexeme :: joined mark (second :: rest) := rfl

/-- Words in front of a last one stand each before its mark. -/
theorem joined_concat (mark : Kind) (words : List (List Lexeme)) (last : List Lexeme) :
    joined mark (words ++ [last]) = words.flatMap (· ++ [mark.lexeme]) ++ last := by
  induction words with
  | nil => simp [joined]
  | cons first rest ih =>
    have behind : joined mark (first :: (rest ++ [last])) =
        first ++ mark.lexeme :: joined mark (rest ++ [last]) := by
      cases rest <;> rfl
    rw [List.cons_append, behind, ih, List.flatMap_cons, List.append_assoc, List.append_assoc]
    rfl

end Lexeme

theorem segmentLexemes_eq (segments : List Segment) :
    segmentLexemes segments = segments.map Segment.lexemes := by
  induction segments with
  | nil => rfl
  | cons first rest ih => rw [segmentLexemes, ih, List.map_cons]

theorem nameLexemes_eq (names : List Name) : nameLexemes names = names.map Name.lexemes := by
  induction names with
  | nil => rfl
  | cons first rest ih => rw [nameLexemes, ih, List.map_cons]

theorem exprLexemes_eq (values : List Expr) : exprLexemes values = values.map Expr.lexemes := by
  induction values with
  | nil => rfl
  | cons first rest ih => rw [exprLexemes, ih, List.map_cons, Expr.lexemes]

/-- The lexemes of a field of a structure literal. -/
def literalFieldLexemes (field : String × Expr) : List Lexeme :=
  Kind.dot.lexeme :: named field.1 :: Kind.assignment.lexeme :: field.2.lexemes

theorem fieldLexemes_eq (fields : List (String × Expr)) :
    fieldLexemes fields = fields.map literalFieldLexemes := by
  induction fields with
  | nil => rfl
  | cons first rest ih => rw [fieldLexemes, ih, List.map_cons, literalFieldLexemes, Expr.lexemes]

theorem bodyLexemes_eq (body : List Stmt) : bodyLexemes body = body.flatMap Stmt.lexemes := by
  induction body with
  | nil => rfl
  | cons first rest ih => rw [bodyLexemes, ih, List.flatMap_cons]

/-- The lexemes of an arm behind the first. -/
def furtherArmLexemes (arm : Arm) : List Lexeme :=
  Kind.elseWord.lexeme :: Kind.ifWord.lexeme :: arm.lexemes

theorem armLexemes_eq (arms : List Arm) : armLexemes arms = arms.flatMap furtherArmLexemes := by
  induction arms with
  | nil => rfl
  | cons first rest ih =>
    rw [armLexemes, ih, List.flatMap_cons, furtherArmLexemes]
    rfl

theorem caseLexemes_eq (cases : List Case) : caseLexemes cases = cases.map Case.lexemes := by
  induction cases with
  | nil => rfl
  | cons first rest ih => rw [caseLexemes, ih, List.map_cons]

theorem structLexemes_eq (structs : List StructDecl) :
    structLexemes structs = structs.flatMap StructDecl.lexemes := by
  induction structs with
  | nil => rfl
  | cons first rest ih => rw [structLexemes, ih, List.flatMap_cons]

end FrontEnd

import FrontEnd.Grammar.Stmt
import FrontEnd.Program.Decl

/-!
# Parsing declarations and files

A declaration is told by its first token. Structures nest: `structUpTo` bounds their depth, which
the tokens left bound in turn. A file is imports, declarations and at most one block of exports, in
any order.
-/

namespace FrontEnd.Parse

open Token

/-! ## Imports and exports -/

/-- **The texts of a module path**: identifiers with points between them, the last of which may be a
star. -/
def moduleTexts : Parse (List String) := do
  let front ← repeatWhile (fun c => c.kind = .identifier && c.peek 1 = .dot) do
    let token ← advance
    let _ ← advance
    return token.text
  if ← consume .star then
    return front ++ ["*"]
  else
    return front ++ [(← expect .identifier).text]

/-- An import with its word and semicolon. -/
def importPath : Parse ModulePath := do
  let start := (← advance).span.start
  let texts ← moduleTexts
  let _ ← expect .semicolon
  return ⟨texts, ← spanFrom start⟩

/-- An exported path. -/
def exportPath : Parse ModulePath := do
  let start ← here
  let texts ← moduleTexts
  return ⟨texts, ← spanFrom start⟩

/-- **A block of exports** with its word and braces. -/
def exports : Parse (List ModulePath) := do
  let _ ← advance
  let _ ← expect .openCurly
  let paths ← separated .closeCurly exportPath
  let _ ← expect .closeCurly
  return paths

/-! ## Structures -/

/-- A field of a structure with its semicolon. -/
def field (g : Grammar) : Parse Field := do
  let start ← here
  let isMutable ← consume .mutWord
  let type ← name
  let isArray ← arrayMark
  let token ← expect .identifier
  let initial ← if ← consume .assignment then some <$> expr g .loosest else pure none
  let _ ← expect .semicolon
  return ⟨isMutable, type, isArray, token.text, initial, ← spanFrom start⟩

/-- What stands in a structure: a field or a structure inside it. -/
def structMember (g : Grammar) (inner : Parse StructDecl) : Parse (Field ⊕ StructDecl) := do
  match ← kind with
  | .structWord | .closedWord => .inr <$> inner
  | _ => .inl <$> field g

/-- The types that a structure builds on, behind a colon. -/
def bases : Parse (List Name) := do
  if ← consume .colon then separated .openCurly name else return []

/-- A structure whose inner structures nest at most to a depth. -/
def structUpTo (g : Grammar) : Nat → Parse StructDecl
  | 0 => exhausted
  | n + 1 => do
    let start ← here
    let isClosed ← consume .closedWord
    let _ ← expect .structWord
    let token ← expect .identifier
    let parameters ← typeParameters
    let bases ← bases
    let _ ← expect .openCurly
    let members ← repeatUntil .closeCurly (structMember g (structUpTo g n))
    let _ ← expect .closeCurly
    return ⟨isClosed, token.text, parameters, bases, members.filterMap Sum.getLeft?,
      members.filterMap Sum.getRight?, ← spanFrom start⟩

/-- **A structure.** Its fields and the structures inside it keep their orders, not how they
mingle. -/
def struct (g : Grammar) : Parse StructDecl := do
  structUpTo g (← get).left.length

/-! ## Functions and interfaces -/

/-- A parameter of a function with the separator behind it, which its span takes in. -/
def parameter : Parse Parameter := do
  let start ← here
  let type ← name
  let isArray ← arrayMark
  let token ← expect .identifier
  separator .closeParen
  return ⟨type, isArray, token.text, ← spanFrom start⟩

/-- The parameters of a function in parentheses. -/
def inputs : Parse (List Parameter) := do
  let _ ← expect .openParen
  let parameters ← repeatUntil .closeParen parameter
  let _ ← expect .closeParen
  return parameters

/-- The type that a function returns, behind a colon. -/
def output : Parse ReturnType := do
  let _ ← expect .colon
  let type ← name
  return ⟨type, ← arrayMark⟩

/-- **A function.** -/
def function (g : Grammar) : Parse FnDecl := do
  let start ← here
  let isMutable ← consume .mutWord
  let _ ← expect .fnWord
  let parameters ← typeParameters
  let name ← name
  let inputs ← inputs
  let output ← output
  let body ← block g
  return ⟨isMutable, parameters, name, inputs, output, body, ← spanFrom start⟩

/-- A function that an interface asks for, with its semicolon. -/
def method : Parse Method := do
  let start ← here
  let isMutable ← consume .mutWord
  let _ ← expect .fnWord
  let token ← expect .identifier
  let inputs ← inputs
  let output ← output
  let _ ← expect .semicolon
  return ⟨isMutable, token.text, inputs, output, ← spanFrom start⟩

/-- **An interface.** -/
def interface : Parse InterfaceDecl := do
  let start := (← advance).span.start
  let token ← expect .identifier
  let parameters ← typeParameters
  let _ ← expect .openCurly
  let methods ← repeatUntil .closeCurly method
  let _ ← expect .closeCurly
  return ⟨token.text, parameters, methods, ← spanFrom start⟩

/-! ## Synonyms and enumerations -/

/-- **Another name for a type.** -/
def synonym : Parse SynonymDecl := do
  let start := (← advance).span.start
  let token ← expect .identifier
  let _ ← expect .assignment
  let type ← name
  let _ ← expect .semicolon
  return ⟨token.text, type, ← spanFrom start⟩

/-- A value of an enumeration. -/
def enumValue : Parse String :=
  return (← expect .identifier).text

/-- **An enumeration.** -/
def enum : Parse EnumDecl := do
  let start := (← advance).span.start
  let token ← expect .identifier
  let _ ← expect .openCurly
  let values ← separated .closeCurly enumValue
  let _ ← expect .closeCurly
  return ⟨token.text, values, ← spanFrom start⟩

/-! ## Declarations and files -/

/-- **A declaration.** -/
def decl (g : Grammar) : Parse Decl := do
  match g.decl (← kind) with
  | some .struct => .struct <$> struct g
  | some .function => .function <$> function g
  | some .interface => .interface <$> interface
  | some .synonym => .synonym <$> synonym
  | some .enum => .enum <$> enum
  | none => unexpected "declaration"

/-- What of a file has been read. -/
structure Contents where
  imports : List ModulePath
  declarations : List Decl
  exports : Option (List ModulePath)

/-- **One item of a file**: an import, a block of exports, or a declaration. A second block of
exports is refused. -/
def item (g : Grammar) (sofar : Contents) : Parse Contents := do
  match ← kind with
  | .importWord => return { sofar with imports := sofar.imports ++ [← importPath] }
  | .exportWord =>
    match sofar.exports with
    | some _ => fail .duplicateExport (← here)
    | none => return { sofar with exports := some (← exports) }
  | _ => return { sofar with declarations := sofar.declarations ++ [← decl g] }

/-- **A file**, up to the first token of the end. -/
def file (g : Grammar) : Parse File := do
  let contents ← growWhile (fun c => c.kind ≠ .eof) (item g) ⟨[], [], none⟩
  return ⟨(← get).file, contents.imports, contents.declarations, contents.exports.getD []⟩

end FrontEnd.Parse

namespace FrontEnd

/-- **The file that a sequence of tokens writes**, its segments numbered from `firstId` on, and the
first number left over. -/
def File.ofTokens (tokens : List Token) (firstId : Nat) : Except Halt (File × Nat) :=
  match (Parse.file .standard).run (.ofTokens tokens firstId) with
  | .ok file c => .ok (file, c.nextId)
  | .error halt _ => .error halt

section Runs

variable {tokens : List Token} {firstId nextId : Nat} {file : File} {halt : Halt}

/-- **A sequence writes a file exactly when the action for files gives it** where the sequence is
entered. -/
theorem File.ofTokens_eq_ok_iff :
    File.ofTokens tokens firstId = .ok (file, nextId) ↔
      ∃ c, Parse.file .standard (.ofTokens tokens firstId) = .ok file c ∧ c.nextId = nextId := by
  rw [File.ofTokens, EStateM.run]
  cases Parse.file .standard (.ofTokens tokens firstId) with
  | ok found c =>
    constructor
    · rintro ⟨⟩
      exact ⟨c, rfl, rfl⟩
    · rintro ⟨c', ⟨⟩, rfl⟩
      rfl
  | error stopped c => exact iff_of_false nofun nofun

/-- **A sequence writes no file exactly when the action for files is halted.** -/
theorem File.ofTokens_eq_error_iff :
    File.ofTokens tokens firstId = .error halt ↔
      ∃ c, Parse.file .standard (.ofTokens tokens firstId) = .error halt c := by
  rw [File.ofTokens, EStateM.run]
  cases Parse.file .standard (.ofTokens tokens firstId) with
  | ok found c => exact iff_of_false nofun nofun
  | error stopped c => simp

end Runs

end FrontEnd

import FrontEnd.Program.Stmt

/-!
# Declarations and files

What a file declares, imports and exports. A function whose name has several segments is a method of
what the name without its last segment denotes.
-/

namespace FrontEnd

/-- **A path of an import or an export**: texts with points between them, the last of which may be a
star for everything below. -/
structure ModulePath where
  texts : List String
  span : Span
deriving DecidableEq

/-- Whether a path ends in a star. -/
def ModulePath.isWildcard (path : ModulePath) : Bool :=
  path.texts.getLast? == some "*"

/-- **A field of a structure.** -/
structure Field where
  isMutable : Bool
  type : Name
  isArray : Bool
  name : String
  initial : Option Expr
  span : Span

/-- **A structure** with its type parameters, the types it builds on, its fields and the structures
inside it. -/
structure StructDecl where
  isClosed : Bool
  name : String
  parameters : List TypeParameter
  bases : List Name
  fields : List Field
  inner : List StructDecl
  span : Span

/-- **A parameter of a function.** -/
structure Parameter where
  type : Name
  isArray : Bool
  name : String
  span : Span

/-- **The type that a function returns.** -/
structure ReturnType where
  type : Name
  isArray : Bool

/-- **A function.** -/
structure FnDecl where
  isMutable : Bool
  parameters : List TypeParameter
  name : Name
  inputs : List Parameter
  output : ReturnType
  body : List Stmt
  span : Span

/-- A function whose name has several segments is a method. -/
def FnDecl.isMethod (function : FnDecl) : Bool :=
  1 < function.name.segments.length

/-- **A function that an interface asks for.** -/
structure Method where
  isMutable : Bool
  name : String
  inputs : List Parameter
  output : ReturnType
  span : Span

/-- **An interface.** -/
structure InterfaceDecl where
  name : String
  parameters : List TypeParameter
  methods : List Method
  span : Span

/-- **Another name for a type.** -/
structure SynonymDecl where
  name : String
  type : Name
  span : Span

/-- **An enumeration.** -/
structure EnumDecl where
  name : String
  values : List String
  span : Span
deriving DecidableEq

/-- **The declarations.** -/
inductive Decl where
  | struct (decl : StructDecl)
  | function (decl : FnDecl)
  | interface (decl : InterfaceDecl)
  | synonym (decl : SynonymDecl)
  | enum (decl : EnumDecl)

/-- The stretch of the source that a declaration takes. -/
def Decl.span : Decl → Span
  | .struct d => d.span
  | .function d => d.span
  | .interface d => d.span
  | .synonym d => d.span
  | .enum d => d.span

/-- **A file**: what it imports, declares and exports, each in the order of the source. -/
structure File where
  file : String
  imports : List ModulePath
  declarations : List Decl
  exports : List ModulePath

/-- The functions of a file, in the order of the source. -/
def File.functions (file : File) : List FnDecl :=
  file.declarations.filterMap fun
    | .function f => some f
    | _ => none

end FrontEnd

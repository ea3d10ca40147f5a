import FrontEnd.Source.Position

/-!
# Claims

A claim is what a declaration says of the path it stands at: what kind of symbol it is, and a value
that tells one declaration from another. Two claims on one path are compatible when they are equal,
when one of them says nothing yet, or when both are modules of which at least one names no file.
`Claim.merge?` is what the path holds after the second.
-/

namespace FrontEnd

namespace Symbol

/-- **The kinds of symbol.** -/
inductive Kind where
  /-- A path that only leads further down. -/
  | unknown
  /-- A symbol that no source declares. -/
  | builtin
  /-- A module: a file, or what files stand in. -/
  | file
  | struct | structField | interface | interfaceMethod | synonym | enum | function | typeParameter
deriving DecidableEq, Repr

namespace Kind

/-- The name of a kind of symbol. -/
def name : Kind → String
  | unknown => "Unknown"
  | builtin => "Virtual"
  | file => "File"
  | struct => "Struct"
  | structField => "StructField"
  | interface => "Interface"
  | interfaceMethod => "InterfaceFunc"
  | synonym => "Alias"
  | enum => "Enum"
  | function => "Function"
  | typeParameter => "GenericParameter"

/-- Every kind of symbol. -/
def all : List Kind :=
  [unknown, builtin, file, struct, structField, interface, interfaceMethod, synonym, enum, function,
   typeParameter]

/-- The kind of a name. -/
def ofName? (name : String) : Option Kind :=
  all.find? (·.name = name)

end Kind

/-- **What tells a declaration from others** at its path. -/
inductive Value where
  | empty
  /-- What a built-in symbol stands for: a structure for a type, a function for a function. -/
  | builtin (kind : Kind)
  | file (name : String)
  | declared (position : Position) (arity : Nat)
deriving DecidableEq, Repr

/-- Where a value was declared. A file is declared at its start, and what has no source nowhere. -/
def Value.position : Value → Position
  | .declared position _ => position
  | .file name => .first name
  | .empty | .builtin _ => .nowhere

/-- The number of type arguments that a declaration takes. -/
def Value.arity : Value → Nat
  | .declared _ arity => arity
  | _ => 0

end Symbol

/-- **What a declaration says of its path.** -/
structure Claim where
  kind : Symbol.Kind
  value : Symbol.Value
deriving DecidableEq, Repr

namespace Claim

/-- The claim on a path that only leads further down. -/
def unclaimed : Claim :=
  ⟨.unknown, .empty⟩

/-- The claim of a built-in type. -/
def builtinType : Claim :=
  ⟨.builtin, .builtin .struct⟩

/-- The claim of a built-in function. -/
def builtinFunction : Claim :=
  ⟨.builtin, .builtin .function⟩

/-- The claim of a module that names no file. -/
def namespaceOnly : Claim :=
  ⟨.file, .empty⟩

/-- The claim of a module that is a file. -/
def file (name : String) : Claim :=
  ⟨.file, .file name⟩

/-- The claim of a declaration that takes a number of type arguments. -/
def declared (kind : Symbol.Kind) (position : Position) (arity : Nat) : Claim :=
  ⟨kind, .declared position arity⟩

/-- Whether a claim says anything. -/
def isKnown (claim : Claim) : Bool :=
  claim.kind ≠ .unknown

/-- **The claim that a path holds after a further claim on it**, if the two are compatible. -/
def merge? (held further : Claim) : Option Claim :=
  match held.kind, held.value with
  | .unknown, _ => some further
  | .file, .empty => if further.kind = .file then some further else none
  | .file, .file _ =>
    if further = held ∨ further = namespaceOnly then some held else none
  | _, _ => if further = held then some held else none

/-- Whether a path with this claim can stand in type position. -/
def isType (claim : Claim) : Bool :=
  match claim.kind with
  | .struct | .interface | .synonym | .enum | .typeParameter | .file => true
  | .builtin => claim.value = .builtin .struct
  | .unknown | .structField | .interfaceMethod | .function => false

/-- Whether a path with this claim is a type declared inside another. -/
def isNestedType (claim : Claim) : Bool :=
  match claim.kind with
  | .struct | .interface | .synonym | .enum => true
  | _ => false

end Claim

end FrontEnd

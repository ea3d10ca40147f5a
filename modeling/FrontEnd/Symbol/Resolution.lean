import FrontEnd.Symbol.Demand
import FrontEnd.Symbol.Registration
import FrontEnd.Symbol.Resolutions

/-!
# Resolving types

Every name in type position refers to a symbol of the tree. The demands of a file are met one after
another, and the first that cannot be met ends it; what was found before stays.

The first segment of a name means the nearest type in the scopes around it, and every further
segment a type below the one before. A type argument is looked up first among the types declared
inside the type it is given to. A segment has to carry as many arguments as its type takes.
-/

namespace FrontEnd

namespace Tree

/-- An action that adds to what is resolved. -/
abbrev Resolve :=
  EStateM Diagnostic Resolutions

/-- Notes that a segment refers to the node at a path. -/
def note (t : Tree) (segment : Nat) (path : Path) : Resolve Unit :=
  modify fun r => r.insert segment ((t.find? path).getD root)

mutual
/-- **Resolves a name** in a scope, `find` being what its first segment may mean. -/
def resolveName (t : Tree) (scope : Path) (find : String → Option Path) : Name → Resolve Unit
  | ⟨segments, _⟩ => resolveSegments t scope find segments
/-- Resolves segments, each below the one before. -/
def resolveSegments (t : Tree) (scope : Path) (find : String → Option Path) :
    List Segment → Resolve Unit
  | [] => pure ()
  | segment :: rest => do
    let found ← resolveSegment t scope find segment
    resolveSegments t scope (t.typeBelow? found) rest
/-- **Resolves a segment with its arguments** and gives the path of the type that it refers to. -/
def resolveSegment (t : Tree) (scope : Path) (find : String → Option Path) :
    Segment → Resolve Path
  | ⟨id, text, arguments, span⟩ => do
    match find text with
    | none => throw ⟨.undefinedSymbol text, span.start⟩
    | some found =>
      let expected := t.arityAt found
      if expected = arguments.length then
        note t id found
        resolveArguments t scope found arguments
        return found
      else
        throw ⟨.genericArgumentMismatch text expected arguments.length, span.start⟩
/-- Resolves the arguments given to the type at a path. The types declared inside that type are
looked at before the scope. -/
def resolveArguments (t : Tree) (scope owner : Path) : List Name → Resolve Unit
  | [] => pure ()
  | argument :: rest => do
    resolveName t scope
      (fun text => t.nestedType? owner text <|> t.typeInScope? scope text) argument
    resolveArguments t scope owner rest
end

/-- Meets a demand. -/
def meet (t : Tree) : Demand → Resolve Unit
  | .declared module below position =>
    if (t.claimAt? (module ++ below)).any Claim.isKnown then pure ()
    else throw ⟨.undefinedSymbol below.written, position⟩
  | .type scope name => resolveName t scope (t.typeInScope? scope) name

/-- **Resolves the types of a file** that is registered at a module. -/
def resolve (t : Tree) (module : Path) (file : File) : Resolve Unit :=
  (file.demands module).forM t.meet

end Tree

/-- **Registers a file at the root, with what is built in, and resolves its types.** -/
def resolveSymbols (file : File) : EStateM Diagnostic Tree Resolutions := do
  let module ← Tree.register [] file
  Tree.registerBuiltins .standard
  let t ← get
  match (t.resolve (t.pathOf module) file).run .empty with
  | .ok _ resolutions => return resolutions
  | .error diagnostic _ => throw diagnostic

end FrontEnd

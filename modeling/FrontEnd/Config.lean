import FrontEnd.Source.Position

/-!
# Configuration

What a compilation takes as given: the built-in types and functions, and the name of a file that has
none.
-/

namespace FrontEnd

/-- **What is built in**, and the file name of a source without one. -/
structure Config where
  types : List String
  functions : List String
  defaultFile : String
deriving DecidableEq, Repr

namespace Config

/-- The configuration of the language. -/
def standard : Config :=
  ⟨["void", "boolean", "char", "string", "int", "double"], ["println"], unnamedFile⟩

/-- A configuration with a further built-in type. -/
def withType (config : Config) (name : String) : Config :=
  { config with types := config.types ++ [name] }

/-- A configuration with a further built-in function. -/
def withFunction (config : Config) (name : String) : Config :=
  { config with functions := config.functions ++ [name] }

end Config

end FrontEnd

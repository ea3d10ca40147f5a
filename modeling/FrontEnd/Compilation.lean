import FrontEnd.Grammar.Decl
import FrontEnd.Scope.Check
import FrontEnd.Symbol.Resolution
import FrontEnd.Token.Scan

/-!
# Compiling units

A unit is a source with its file name and the path of its module. Units are compiled together: all
are parsed, their segments numbered through; all are registered in one symbol tree; then the types
of each are resolved, and then the functions of each are checked. So a unit may refer to what another
declares, whichever comes first, and the first fault of the earliest of these four passes is the one
that is reported.
-/

namespace FrontEnd

/-- **A source with its file name and the path of its module.** -/
structure SourceUnit where
  modulePath : Path
  file : String
  source : String
deriving DecidableEq, Repr

/-- **What compiled units amount to**: their files in the order of the units, the symbol tree, and
the nodes that their types refer to. -/
structure Program where
  files : List File
  tree : Tree
  resolutions : Resolutions

/-- A file that is registered, with the path of its module. -/
structure Placed where
  module : Path
  file : File

namespace Compilation

/-- A result that may carry a diagnostic, as a result of a run. -/
def lift {α : Type} : Except Diagnostic α → Except Halt α
  | .ok value => .ok value
  | .error diagnostic => .error (.fault diagnostic)

/-- What an action leaves behind, unless it found a fault. -/
def finish {σ α : Type} (action : EStateM Diagnostic σ α) (state : σ) : Except Diagnostic (α × σ) :=
  match action.run state with
  | .ok value state => .ok (value, state)
  | .error diagnostic _ => .error diagnostic

/-- **The file of a source**, its segments numbered from `firstId` on, and the first number left
over. -/
def parseSource (file source : String) (firstId : Nat) : Except Halt (File × Nat) := do
  let tokens ← lift (Token.ofText file source)
  File.ofTokens tokens firstId

/-- The files of units, numbered through from `firstId` on. -/
def parseUnits (firstId : Nat) : List SourceUnit → Except Halt (List File)
  | [] => .ok []
  | unit :: rest => do
    let (file, nextId) ← parseSource unit.file unit.source firstId
    let files ← parseUnits nextId rest
    return file :: files

/-- Registers files at their modules, one after another. -/
def registerUnits : List (Path × File) → EStateM Diagnostic Tree (List Placed)
  | [] => pure []
  | (modulePath, file) :: rest => do
    let module ← Tree.register modulePath file
    let path := (← get).pathOf module
    let placed ← registerUnits rest
    return ⟨path, file⟩ :: placed

/-- Registers files at their modules and then what is built in. -/
def registerAll (config : Config) (files : List (Path × File)) :
    EStateM Diagnostic Tree (List Placed) := do
  let placed ← registerUnits files
  Tree.registerBuiltins config
  return placed

/-- Resolves the types of files. -/
def resolveAll (t : Tree) (files : List Placed) : Tree.Resolve Unit :=
  files.forM fun placed => t.resolve placed.module placed.file

/-- Checks the functions of files. -/
def checkAll (t : Tree) (files : List Placed) : Except Diagnostic Unit :=
  files.forM fun placed => placed.file.functions.forM (t.checkScopes placed.module)

/-- **What parsed files amount to** together. -/
def assemble (config : Config) (files : List (Path × File)) : Except Diagnostic Program := do
  let (placed, tree) ← finish (registerAll config files) .empty
  let ((), resolutions) ← finish (resolveAll tree placed) .empty
  checkAll tree placed
  return ⟨files.map Prod.snd, tree, resolutions⟩

end Compilation

/-- **Compiles units together.** -/
def compileUnits (config : Config) (units : List SourceUnit) : Except Halt Program := do
  let files ← Compilation.parseUnits 0 units
  Compilation.lift (Compilation.assemble config ((units.map SourceUnit.modulePath).zip files))

/-- **Compiles a single source**, which stands at the root. A source without a file name gets that
of the configuration. -/
def compile (config : Config) (file : Option String) (source : String) : Except Halt Program :=
  compileUnits config [⟨[], file.getD config.defaultFile, source⟩]

end FrontEnd

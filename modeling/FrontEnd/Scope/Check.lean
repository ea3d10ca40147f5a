import FrontEnd.Program.Decl
import FrontEnd.Program.Use
import FrontEnd.Scope.Stack
import FrontEnd.Symbol.Tree

/-!
# Checking scopes

A function is checked statement by statement with the names visible at each point. Every use of a
name has to be visible; a qualified use may also name a symbol that its module or the root declares.
`break` and `continue` have to stand in a loop. A variable is visible behind its declaration, to the
end of the block that declares it.

The check stops at the first fault. Every block that was opened is closed again, whether its
statements pass or not (`within`).
-/

namespace FrontEnd

/-- An action that checks with the frames around a point. -/
abbrev Check :=
  EStateM Diagnostic ScopeStack

namespace Tree

/-- Whether a path is that of the root or of a module. -/
def isModule (t : Tree) (path : Path) : Bool :=
  path.isEmpty || (t.claimAt? path).any (·.kind = .file)

/-- **Whether a node is visible in every function**: free functions and enumerations, which stand
directly in a module, and built-in functions. -/
def isGlobal (t : Tree) (node : Node) : Bool :=
  match node.claim.kind with
  | .function | .enum => !node.path.isEmpty && t.isModule node.path.dropLast
  | .builtin => node.claim.value = .builtin .function
  | _ => false

/-- The names that are visible in every function. -/
def globals (t : Tree) : List String :=
  (t.nodes.filter t.isGlobal).map Node.segment

/-- Whether a module or the root declares a symbol. -/
def declares (t : Tree) (module : Path) (name : String) : Bool :=
  [module, []].any fun path => (t.claimAt? (path ++ [name])).any Claim.isKnown

end Tree

/-- **What every statement of a function sees**: the global names, the parameters, and `this` in a
method. -/
def FnDecl.baseFrame (function : FnDecl) (t : Tree) : Frame :=
  let own := if function.isMethod then ["this"] else []
  ⟨t.globals ++ function.inputs.map Parameter.name ++ own, false⟩

namespace Check

/-- What does not change while a function is checked: whether a qualified use may name a symbol. -/
abbrev Declared :=
  String → Bool

/-- Whether a use is visible. -/
def admits (declared : Declared) (s : ScopeStack) (use : Use) : Bool :=
  s.contains use.name || (use.isQualified && declared use.name)

/-- **Checks the uses of an expression** in their order. -/
def expr (declared : Declared) (value : Expr) : Check Unit := do
  let s ← get
  match value.uses.find? (fun use => !admits declared s use) with
  | none => pure ()
  | some use => throw ⟨.nameNotDeclared use.name, use.position⟩

/-- Checks that a word which controls a loop stands in one. -/
def control (keyword : String) (position : Position) : Check Unit := do
  if (← get).inLoop then pure ()
  else throw ⟨.controlOutsideLoop keyword, position⟩

/-- **Checks inside a block** that is opened for the check and closed behind it, in every case. -/
def within {α : Type} (opened : ScopeStack → ScopeStack) (action : Check α) : Check α := fun s =>
  match action (opened s) with
  | .ok value s' => .ok value s'.pop
  | .error diagnostic s' => .error diagnostic s'.pop

/-- Opens the body of a loop. -/
def loopBody (s : ScopeStack) : ScopeStack :=
  s.push (.blank true)

mutual
/-- **Checks a statement.** -/
def stmt (declared : Declared) : Stmt → Check Unit
  | .declare _ _ _ name initial _ => do
    expr declared initial
    modify (·.declare name)
  | .assign target value _ => do
    expr declared target
    expr declared value
  | .evaluate value _ => expr declared value
  | .breakLoop span => control "break" span.start
  | .continueLoop span => control "continue" span.start
  | .loop condition body _ => do
    expr declared condition
    within loopBody (stmts declared body)
  | .branch first others otherwise _ => do
    arm declared first
    arms declared others
    within .pushBlock (stmts declared otherwise)
  | .returnWith none _ => pure ()
  | .returnWith (some value) _ => expr declared value
  | .select subject cases otherwise _ => do
    expr declared subject
    casesOf declared cases
    lastCase declared otherwise
/-- Checks the statements of a block in their order. -/
def stmts (declared : Declared) : List Stmt → Check Unit
  | [] => pure ()
  | first :: rest => do
    stmt declared first
    stmts declared rest
/-- Checks a condition and the block it guards. -/
def arm (declared : Declared) : Arm → Check Unit
  | .mk condition body => do
    expr declared condition
    within .pushBlock (stmts declared body)
/-- Checks further arms. -/
def arms (declared : Declared) : List Arm → Check Unit
  | [] => pure ()
  | first :: rest => do
    arm declared first
    arms declared rest
/-- Checks a pattern and what it leads to. -/
def caseOf (declared : Declared) : Case → Check Unit
  | .mk pattern body => do
    expr declared pattern
    caseBody declared body
/-- Checks the cases of a selection. -/
def casesOf (declared : Declared) : List Case → Check Unit
  | [] => pure ()
  | first :: rest => do
    caseOf declared first
    casesOf declared rest
/-- Checks what a pattern leads to, in a block of its own. -/
def caseBody (declared : Declared) : CaseBody → Check Unit
  | .block body => within .pushBlock (stmts declared body)
  | .value value => within .pushBlock (expr declared value)
/-- Checks the last case of a selection. -/
def lastCase (declared : Declared) : Option CaseBody → Check Unit
  | none => pure ()
  | some body => caseBody declared body
end

end Check

/-- **Checks the scopes of a function** that is declared in a module. -/
def Tree.checkScopes (t : Tree) (module : Path) (function : FnDecl) : Except Diagnostic Unit :=
  let opened := (ScopeStack.empty.push (function.baseFrame t)).push (.blank false)
  match (Check.stmts (t.declares module) function.body).run opened with
  | .ok _ _ => .ok ()
  | .error diagnostic _ => .error diagnostic

end FrontEnd

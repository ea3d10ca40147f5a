import FrontEnd.Proofs.Program.Place
import FrontEnd.Scope.Check

/-!
# Well-scoped functions

What it means that a function is well scoped: every use that an expression of its body mentions is
visible where the statement with the expression stands, and every `break` and `continue` stands in a
loop. It is said of places in the body (`StandsIn`) and of the symbol tree, without frames and
without an order of checking.

**The laws** (`FnDecl.contains_baseFrame_iff`, `Tree.declares_iff`): the frame that a function
starts with holds the names that it sees everywhere, and a module declares the symbols that are
claimed below it or below the root.
-/

namespace FrontEnd

/-! ## Being well scoped -/

namespace FnDecl

/-- **The names that every statement of a function sees.** -/
inductive SeesAtStart (t : Tree) (function : FnDecl) : String → Prop
  /-- A function or an enumeration that stands directly in the root or in a module. -/
  | global {node : Node} {owner : Path} {name : String} :
    node ∈ t.nodes → node.claim.kind = .function ∨ node.claim.kind = .enum →
    node.path = owner ++ [name] →
    owner = [] ∨ (∃ claim, t.claimAt? owner = some claim ∧ claim.kind = .file) →
    SeesAtStart t function name
  /-- A function that is built in. -/
  | builtin {node : Node} :
    node ∈ t.nodes → node.claim = .builtinFunction → SeesAtStart t function node.segment
  | parameter {parameter : Parameter} :
    parameter ∈ function.inputs → SeesAtStart t function parameter.name
  /-- The receiver, in a function whose name has several segments. -/
  | receiver : 1 < function.name.segments.length → SeesAtStart t function "this"

/-- **Whether a use is visible** behind the statements `before`: it is of a name that the function
sees everywhere, or of a variable that one of these statements declares, or, if it is qualified, of
a symbol that the module or the root declares. -/
inductive Sees (t : Tree) (module : Path) (function : FnDecl) (before : List Stmt) : Use → Prop
  | atStart {use : Use} :
    function.SeesAtStart t use.name → Sees t module function before use
  | declared {use : Use} {stmt : Stmt} :
    stmt ∈ before → stmt.declared? = some use.name → Sees t module function before use
  | symbol {use : Use} {owner : Path} {claim : Claim} :
    use.isQualified = true → owner = module ∨ owner = [] →
    t.claimAt? (owner ++ [use.name]) = some claim → claim.kind ≠ .unknown →
    Sees t module function before use

/-- **A function is well scoped** when every use in its body is visible where it stands and every
word that controls a loop stands in one. -/
structure WellScoped (t : Tree) (module : Path) (function : FnDecl) : Prop where
  uses : ∀ {before : List Stmt} {inLoop : Bool} {stmt : Stmt} {value : Expr} {use : Use},
    StandsIn function.body before inLoop stmt → value ∈ stmt.values → value.Mentions use →
      function.Sees t module before use
  controls : ∀ {before : List Stmt} {inLoop : Bool} {stmt : Stmt},
    StandsIn function.body before inLoop stmt → stmt.isLoopControl = true → inLoop = true

end FnDecl

/-! ## What the names at the start are -/

/-- The path of a node that is not the root ends in its segment. -/
theorem Node.path_eq {node : Node} (below : node.path ≠ []) :
    node.path = node.path.dropLast ++ [node.segment] := by
  rw [Node.segment, List.getLastD_eq_getLast?, List.getLast?_eq_some_getLast below,
    Option.getD_some, List.dropLast_concat_getLast]

theorem Node.segment_eq {node : Node} {owner : Path} {name : String}
    (shape : node.path = owner ++ [name]) : node.segment = name := by
  simp [Node.segment, shape]

namespace Tree

theorem isModule_iff {t : Tree} {path : Path} :
    t.isModule path = true ↔
      path = [] ∨ ∃ claim, t.claimAt? path = some claim ∧ claim.kind = .file := by
  simp [isModule, Option.any_eq_true]

theorem declares_iff {t : Tree} {module : Path} {name : String} :
    t.declares module name = true ↔ ∃ owner claim, (owner = module ∨ owner = []) ∧
      t.claimAt? (owner ++ [name]) = some claim ∧ claim.kind ≠ .unknown := by
  simp [declares, Option.any_eq_true, Claim.isKnown]

/-- A node is visible in every function when it is a function or an enumeration directly in the
root or a module, or a function that is built in. -/
theorem isGlobal_iff {t : Tree} {node : Node} :
    t.isGlobal node = true ↔
      ((∃ owner, node.path = owner ++ [node.segment] ∧ t.isModule owner = true) ∧
        (node.claim.kind = .function ∨ node.claim.kind = .enum)) ∨
      node.claim = .builtinFunction := by
  have standing : (!node.path.isEmpty && t.isModule node.path.dropLast) = true ↔
      ∃ owner, node.path = owner ++ [node.segment] ∧ t.isModule owner = true := by
    constructor
    · intro h
      simp only [Bool.and_eq_true, Bool.not_eq_true', List.isEmpty_eq_false_iff] at h
      exact ⟨node.path.dropLast, Node.path_eq h.1, h.2⟩
    · rintro ⟨owner, shape, isModule⟩
      rw [shape, List.dropLast_concat, isModule]
      simp
  obtain ⟨path, kind, value⟩ := node
  cases kind with
  | function | enum => simpa [isGlobal, Claim.builtinFunction] using standing
  | builtin => simp [isGlobal, Claim.builtinFunction]
  | _ => simp [isGlobal, Claim.builtinFunction]

end Tree

/-- The frame that a function starts with holds the names that it sees everywhere. -/
theorem FnDecl.contains_baseFrame_iff {t : Tree} {function : FnDecl} {name : String} :
    (function.baseFrame t).contains name = true ↔ function.SeesAtStart t name := by
  simp only [baseFrame, Frame.contains, List.contains_eq_mem, decide_eq_true_eq, List.mem_append,
    List.mem_map, Tree.globals, List.mem_filter]
  constructor
  · rintro ((⟨node, ⟨mem, visible⟩, rfl⟩ | ⟨parameter, mem, rfl⟩) | own)
    · rcases Tree.isGlobal_iff.1 visible with ⟨⟨owner, shape, isModule⟩, kind⟩ | builtin
      · exact .global mem kind shape (Tree.isModule_iff.1 isModule)
      · exact .builtin mem builtin
    · exact .parameter mem
    · split at own
      next isMethod =>
        obtain rfl := List.mem_singleton.1 own
        exact .receiver (of_decide_eq_true isMethod)
      next => cases own
  · intro sees
    cases sees with
    | @global node owner _ mem kind shape isModule =>
      have segment := Node.segment_eq shape
      refine .inl (.inl ⟨node, ⟨mem, Tree.isGlobal_iff.2 (.inl ⟨⟨owner, ?_, ?_⟩, kind⟩)⟩, segment⟩)
      · rw [segment, shape]
      · exact Tree.isModule_iff.2 isModule
    | @builtin node mem claim =>
      exact .inl (.inl ⟨node, ⟨mem, Tree.isGlobal_iff.2 (.inr claim)⟩, rfl⟩)
    | @parameter parameter mem => exact .inl (.inr ⟨parameter, mem, rfl⟩)
    | receiver several =>
      right
      rw [if_pos (show function.isMethod = true from decide_eq_true several)]
      exact List.mem_singleton_self _

end FrontEnd

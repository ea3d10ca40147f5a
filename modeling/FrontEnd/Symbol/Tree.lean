import FrontEnd.Diagnostic.Basic
import FrontEnd.Symbol.Claim
import FrontEnd.Symbol.Path

/-!
# The symbol tree

The symbol tree says what is claimed at each path. It is kept as the list of its nodes in the order
of their creation, each with its whole path: the index of a node is its number, the parent of a node
stands at its path without the last segment, and its children at its path with one segment more. The
root has the empty path and the number zero. Nodes are added and claimed, never removed.

A declaration adds the missing ancestors of its path as unclaimed nodes and merges its claim with
the one held there. **The law** (`Tree.declare_error`): where the two are not compatible the tree
stays as it is.
-/

namespace FrontEnd

/-- **A node of the symbol tree.** -/
structure Node where
  path : Path
  claim : Claim
deriving DecidableEq, Repr

/-- The last segment of the path of a node, empty for the root. -/
def Node.segment (node : Node) : String :=
  node.path.getLastD ""

/-- **The symbol tree**: its nodes in the order of their creation. -/
structure Tree where
  nodes : List Node
deriving DecidableEq, Repr

namespace Tree

/-- The tree of the root alone. -/
def empty : Tree :=
  ⟨[⟨[], ⟨.builtin, .empty⟩⟩]⟩

/-- The number of the root. -/
def root : Nat :=
  0

/-- The number of nodes. -/
def size (t : Tree) : Nat :=
  t.nodes.length

/-- The node with a number. -/
def node? (t : Tree) (id : Nat) : Option Node :=
  t.nodes[id]?

/-- The path of the node with a number. -/
def pathOf (t : Tree) (id : Nat) : Path :=
  (t.node? id).elim [] Node.path

/-- **The number of the node at a path.** -/
def find? (t : Tree) (path : Path) : Option Nat :=
  t.nodes.findIdx? (·.path = path)

/-- What is claimed at a path, if a node stands there. -/
def claimAt? (t : Tree) (path : Path) : Option Claim :=
  (t.nodes.find? (·.path = path)).map Node.claim

/-- The number of type arguments that the symbol at a path takes. -/
def arityAt (t : Tree) (path : Path) : Nat :=
  (t.claimAt? path).elim 0 (·.value.arity)

/-- The number of the node that a path below a node leads to. -/
def lookup? (t : Tree) (base : Nat) (path : Path) : Option Nat :=
  t.find? (t.pathOf base ++ path)

/-- The number of the parent of a node; the root has none. -/
def parent? (t : Tree) (node : Node) : Option Nat :=
  if node.path.isEmpty then none else t.find? node.path.dropLast

/-- **The children of a node** as segments and numbers, in the order of their segments. -/
def children (t : Tree) (node : Node) : List (String × Nat) :=
  let below := t.nodes.filter fun other =>
    !other.path.isEmpty && other.path.dropLast = node.path
  let named := below.filterMap fun other => (t.find? other.path).map (other.segment, ·)
  named.mergeSort fun a b => a.1 ≤ b.1

/-! ## Declaring -/

/-- A tree with a further node. -/
def push (t : Tree) (path : Path) (claim : Claim) : Tree :=
  ⟨t.nodes ++ [⟨path, claim⟩]⟩

/-- A tree with an unclaimed node at a path where no node stood. -/
def reserve (t : Tree) (path : Path) : Tree :=
  if (t.find? path).isSome then t else t.push path .unclaimed

/-- A tree with another claim at the paths where a node stands. -/
def claim (t : Tree) (path : Path) (claim : Claim) : Tree :=
  ⟨t.nodes.map fun node => if node.path = path then { node with claim } else node⟩

/-- **Declares a claim at a path below a node** and gives the number of the node there. A claim that
is not compatible with the one held there is a fault at the place of the further declaration. -/
def declare (base : Nat) (path : Path) (further : Claim) : EStateM Diagnostic Tree Nat := fun t =>
  let target := t.pathOf base ++ path
  match t.find? target, t.claimAt? target with
  | some id, some held =>
    match held.merge? further with
    | some merged => .ok id (t.claim target merged)
    | none => .error ⟨.duplicateDeclaration target.written, further.value.position⟩ t
  | _, _ =>
    let grown := target.between.foldl reserve t
    .ok grown.size (grown.push target further)

/-- A declaration that is refused leaves the tree as it is. -/
theorem declare_error {base : Nat} {path : Path} {further : Claim} {t after : Tree}
    {diagnostic : Diagnostic} (h : declare base path further t = .error diagnostic after) :
    after = t := by
  unfold declare at h
  grind

/-! ## Types -/

/-- The path of a type below a path, if the segment leads to one. -/
def typeBelow? (t : Tree) (path : Path) (segment : String) : Option Path :=
  let target := path ++ [segment]
  if (t.claimAt? target).any Claim.isType then some target else none

/-- The path of a type that is declared inside a type. -/
def nestedType? (t : Tree) (path : Path) (segment : String) : Option Path :=
  let target := path ++ [segment]
  if (t.claimAt? target).any Claim.isNestedType then some target else none

/-- **The type that a segment means inside a scope**: the first that stands below the scope or below
what the scope stands in, from the inside out. -/
def typeInScope? (t : Tree) (scope : Path) (segment : String) : Option Path :=
  scope.ancestors.findSome? fun path => t.typeBelow? path segment

end Tree

end FrontEnd

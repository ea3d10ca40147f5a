import FrontEnd.Proofs.Action
import FrontEnd.Proofs.Grammar.Carrying
import FrontEnd.Proofs.Program.Relabelled
import FrontEnd.Symbol.Resolution

/-!
# Resolution of relabelled files

The resolution of types reads the kinds and arities of a symbol tree and the texts and numbers of
names. A position is only passed on, into the diagnostic of a fault. So a run on a relabelled tree
and a relabelled file is the run on the tree and the file, with its diagnostic relabelled
(`Tree.follows_resolve`), wherever the numbers of segments stay.

One action follows another (`Follows`) when from every state it ends as the other does, up to the
position of a fault. Unlike the actions of the parser these have no labels in their states.
-/

namespace FrontEnd

variable {m : Relabel}

/-! ## Runs up to the positions of faults -/

/-- What a run ends in, with its diagnostic at another position. -/
def Relabel.outcome {σ α : Type} (m : Relabel) :
    EStateM.Result Diagnostic σ α → EStateM.Result Diagnostic σ α
  | .ok value s => .ok value s
  | .error d s => .error (m.diagnostic d) s

/-- **An action follows another** when it ends as the other does, up to the position of a fault. -/
def Follows {σ α : Type} (m : Relabel) (action moved : EStateM Diagnostic σ α) : Prop :=
  ∀ s, moved s = m.outcome (action s)

namespace Follows

variable {σ α β : Type} {action moved other otherMoved : EStateM Diagnostic σ α}
  {next after : α → EStateM Diagnostic σ β}

theorem pure (value : α) : Follows (σ := σ) m (Pure.pure value) (Pure.pure value) :=
  fun _ => rfl

theorem halt {d e : Diagnostic} (same : m.diagnostic d = e) :
    Follows (σ := σ) (α := α) m (throw d) (throw e) := by
  intro s
  cases same
  rfl

theorem bind (here : Follows m action moved) (behind : ∀ value, Follows m (next value) (after value)) :
    Follows m (action >>= next) (moved >>= after) := by
  intro s
  have front := here s
  change EStateM.bind moved after s = m.outcome (EStateM.bind action next s)
  unfold EStateM.bind
  rw [front]
  cases action s with
  | ok value between => exact behind value between
  | error d between => rfl

/-- An action that looks at the state. -/
theorem look {next after : σ → EStateM Diagnostic σ β} (behind : ∀ s, Follows m (next s) (after s)) :
    Follows m (get >>= next) (get >>= after) :=
  fun s => behind s s

theorem ite {p : Prop} [Decidable p] (yes : Follows m action moved)
    (no : Follows m other otherMoved) :
    Follows m (if p then action else other) (if p then moved else otherMoved) := by
  split
  · exact yes
  · exact no

/-- An action for each element of a list and of the list of other elements. -/
theorem forM {γ : Type} {act actMoved : γ → EStateM Diagnostic σ Unit} {f : γ → γ}
    (each : ∀ x, Follows m (act x) (actMoved (f x))) (xs : List γ) :
    Follows m (xs.forM act) ((xs.map f).forM actMoved) := by
  induction xs with
  | nil => exact pure ()
  | cons first rest ih => exact bind (each first) fun _ => ih

end Follows

/-- A change of the state follows itself. -/
theorem follows_modify {σ : Type} (f : σ → σ) :
    Follows m (modify f : EStateM Diagnostic σ Unit) (modify f) :=
  fun _ => rfl

/-! ## Relabelled trees -/

/-- A node with its claim at another position. -/
def Node.relabel (m : Relabel) (node : Node) : Node :=
  ⟨node.path, node.claim.relabel m⟩

@[simp] theorem Claim.kind_relabel (m : Relabel) (claim : Claim) :
    (claim.relabel m).kind = claim.kind := rfl

@[simp] theorem Claim.arity_relabel (m : Relabel) (claim : Claim) :
    (claim.relabel m).value.arity = claim.value.arity := by
  obtain ⟨kind, value⟩ := claim
  cases value <;> rfl

theorem Claim.eq_builtin_relabel (m : Relabel) (claim : Claim) (kind : Symbol.Kind) :
    (claim.relabel m).value = .builtin kind ↔ claim.value = .builtin kind := by
  obtain ⟨own, value⟩ := claim
  cases value <;> simp [relabel, Symbol.Value.relabel]

@[simp] theorem Claim.isType_relabel (m : Relabel) (claim : Claim) :
    (claim.relabel m).isType = claim.isType := by
  simp only [isType, kind_relabel, eq_builtin_relabel]

@[simp] theorem Claim.isNestedType_relabel (m : Relabel) (claim : Claim) :
    (claim.relabel m).isNestedType = claim.isNestedType := by
  simp only [isNestedType, kind_relabel]

@[simp] theorem Claim.isKnown_relabel (m : Relabel) (claim : Claim) :
    (claim.relabel m).isKnown = claim.isKnown := rfl

namespace Tree

/-- **A tree with its claims at other positions.** -/
def relabel (m : Relabel) (t : Tree) : Tree :=
  ⟨t.nodes.map (Node.relabel m)⟩

variable (m : Relabel) (t : Tree)

@[simp] theorem find?_relabel (path : Path) : (t.relabel m).find? path = t.find? path := by
  rw [find?, find?, relabel, List.findIdx?_map]
  rfl

@[simp] theorem node?_relabel (id : Nat) :
    (t.relabel m).node? id = (t.node? id).map (Node.relabel m) := by
  rw [node?, node?, relabel, List.getElem?_map]

@[simp] theorem pathOf_relabel (id : Nat) : (t.relabel m).pathOf id = t.pathOf id := by
  rw [pathOf, pathOf, node?_relabel]
  cases t.node? id <;> rfl

@[simp] theorem claimAt?_relabel (path : Path) :
    (t.relabel m).claimAt? path = (t.claimAt? path).map (Claim.relabel m) := by
  rw [claimAt?, claimAt?, relabel, List.find?_map, Option.map_map, Option.map_map]
  rfl

@[simp] theorem arityAt_relabel (path : Path) : (t.relabel m).arityAt path = t.arityAt path := by
  rw [arityAt, arityAt, claimAt?_relabel]
  cases t.claimAt? path with
  | none => rfl
  | some claim => exact claim.arity_relabel m

@[simp] theorem typeBelow?_relabel (path : Path) :
    (t.relabel m).typeBelow? path = t.typeBelow? path := by
  funext segment
  simp only [typeBelow?, claimAt?_relabel, Option.any_map, Claim.isType_relabel]

@[simp] theorem nestedType?_relabel (path : Path) :
    (t.relabel m).nestedType? path = t.nestedType? path := by
  funext segment
  simp only [nestedType?, claimAt?_relabel, Option.any_map, Claim.isNestedType_relabel]

@[simp] theorem typeInScope?_relabel (scope : Path) :
    (t.relabel m).typeInScope? scope = t.typeInScope? scope := by
  funext segment
  simp only [typeInScope?, typeBelow?_relabel]

end Tree

/-! ## Resolving -/

/-- A relabelling keeps numbers when the numbers of segments stay. -/
def Relabel.KeepsNumbers (m : Relabel) : Prop :=
  ∀ id, m.id id = id

namespace Tree

variable (t : Tree) (scope : Path)

theorem follows_note (keeps : m.KeepsNumbers) (id : Nat) (path : Path) :
    Follows m (t.note id path) ((t.relabel m).note (m.id id) path) := by
  rw [keeps, note, note, find?_relabel]
  exact follows_modify _

mutual
/-- **Relabelled segments are resolved as the segments are.** -/
theorem follows_resolveSegments (keeps : m.KeepsNumbers) (find : String → Option Path) :
    ∀ segments : List Segment,
    Follows m (t.resolveSegments scope find segments)
      ((t.relabel m).resolveSegments scope find (relabelSegments m segments))
  | [] => .pure ()
  | first :: rest => by
    rw [relabelSegments, resolveSegments, resolveSegments]
    refine .bind (follows_resolveSegment keeps find first) fun found => ?_
    rw [typeBelow?_relabel]
    exact follows_resolveSegments keeps (t.typeBelow? found) rest
theorem follows_resolveSegment (keeps : m.KeepsNumbers) (find : String → Option Path) :
    ∀ segment : Segment,
    Follows m (t.resolveSegment scope find segment)
      ((t.relabel m).resolveSegment scope find (segment.relabel m))
  | ⟨id, text, arguments, span⟩ => by
    have same : (relabelNames m arguments).length = arguments.length := by
      rw [relabelNames_eq, List.length_map]
    rw [Segment.relabel, resolveSegment, resolveSegment]
    cases find text with
    | none => exact .halt rfl
    | some found =>
      dsimp only
      rw [arityAt_relabel, same]
      refine .ite ?_ (.halt rfl)
      refine .bind (follows_note t keeps id found) fun _ => ?_
      exact .bind (follows_resolveArguments keeps found arguments) fun _ => .pure found
theorem follows_resolveArguments (keeps : m.KeepsNumbers) (owner : Path) :
    ∀ arguments : List Name,
    Follows m (t.resolveArguments scope owner arguments)
      ((t.relabel m).resolveArguments scope owner (relabelNames m arguments))
  | [] => .pure ()
  | ⟨segments, span⟩ :: rest => by
    rw [relabelNames, Name.relabel, resolveArguments, resolveArguments, resolveName, resolveName,
      nestedType?_relabel, typeInScope?_relabel]
    exact .bind (follows_resolveSegments keeps _ segments) fun _ =>
      follows_resolveArguments keeps owner rest
end

theorem follows_resolveName (keeps : m.KeepsNumbers) (find : String → Option Path) (name : Name) :
    Follows m (t.resolveName scope find name)
      ((t.relabel m).resolveName scope find (name.relabel m)) := by
  obtain ⟨segments, span⟩ := name
  exact follows_resolveSegments t scope keeps find segments

end Tree

/-! ## Demands -/

/-- A demand of a relabelled file. -/
def Demand.relabel (m : Relabel) : Demand → Demand
  | .declared module below position => .declared module below (m.position position)
  | .type scope name => .type scope (name.relabel m)

namespace Demand

theorem ofParameters_relabel (m : Relabel) (scope : Path) (parameters : List TypeParameter) :
    ofParameters scope (parameters.map (TypeParameter.relabel m)) =
      (ofParameters scope parameters).map (relabel m) := by
  have bounds := boundsOf_relabel m parameters
  rw [boundsOf, boundsOf] at bounds
  rw [ofParameters, ofParameters, bounds, List.map_map, List.map_map]
  rfl

theorem ofSignature_relabel (m : Relabel) (scope : Path) (inputs : List Parameter)
    (output : ReturnType) :
    ofSignature scope (inputs.map (Parameter.relabel m)) (output.relabel m) =
      (ofSignature scope inputs output).map (relabel m) := by
  rw [ofSignature, ofSignature, List.map_append, List.map_map, List.map_map]
  rfl

theorem ofStmts_relabel (m : Relabel) (scope : Path) (body : List Stmt) :
    ofStmts scope (body.map (Stmt.relabel m)) = (ofStmts scope body).map (relabel m) := by
  rw [ofStmts_eq, ofStmts_eq, declaredTypes_relabel, List.map_map, List.map_map]
  rfl

mutual
theorem ofStruct_relabel (m : Relabel) (owner : Path) (d : StructDecl) :
    ofStruct owner (d.relabel m) = (ofStruct owner d).map (relabel m) := by
  cases d with
  | mk isClosed name parameters bases fields inner span =>
    rw [StructDecl.relabel, ofStruct, ofStruct, ofParameters_relabel,
      ofStructs_relabel m _ inner]
    simp [relabel, Field.relabel, Relabel.span, Function.comp_def]
theorem ofStructs_relabel (m : Relabel) (owner : Path) (ds : List StructDecl) :
    ofStructs owner (relabelStructs m ds) = (ofStructs owner ds).map (relabel m) := by
  cases ds with
  | nil => rfl
  | cons first rest =>
    rw [relabelStructs, ofStructs, ofStructs, List.map_append, ofStruct_relabel m owner first,
      ofStructs_relabel m owner rest]
end

/-- **The demands of a relabelled declaration.** -/
theorem ofDecl_relabel (m : Relabel) (module : Path) (d : Decl) :
    ofDecl module (d.relabel m) = (ofDecl module d).map (relabel m) := by
  cases d with
  | struct d => exact ofStruct_relabel m module d
  | function d =>
    simp [Decl.relabel, ofDecl, FnDecl.relabel, ofParameters_relabel, ofSignature_relabel,
      ofStmts_relabel, relabel, Relabel.span]
  | interface d =>
    simp [Decl.relabel, ofDecl, InterfaceDecl.relabel, ofParameters_relabel, ofSignature_relabel,
      Method.relabel, List.flatMap_map, List.map_flatMap, relabel, Relabel.span]
  | synonym d => rfl
  | enum d => rfl

end Demand

/-- **The demands of a relabelled file** are those of the file, relabelled. -/
theorem File.demands_relabel (m : Relabel) (file : File) (module : Path) :
    (file.relabel m).demands module = (file.demands module).map (Demand.relabel m) := by
  rw [demands, demands, relabel, List.flatMap_map, List.map_flatMap]
  exact List.flatMap_congr fun d _ => Demand.ofDecl_relabel m module d

namespace Tree

theorem follows_meet (keeps : m.KeepsNumbers) (t : Tree) (demand : Demand) :
    Follows m (t.meet demand) ((t.relabel m).meet (demand.relabel m)) := by
  cases demand with
  | declared module below position =>
    rw [Demand.relabel, meet, meet, claimAt?_relabel, Option.any_map]
    exact .ite (.pure ()) (.halt rfl)
  | type scope name =>
    rw [Demand.relabel, meet, meet, typeInScope?_relabel]
    exact follows_resolveName t scope keeps _ name

/-- **The types of a relabelled file are resolved as those of the file** are, in the relabelled
tree. -/
theorem follows_resolve (keeps : m.KeepsNumbers) (t : Tree) (module : Path) (file : File) :
    Follows m (t.resolve module file) ((t.relabel m).resolve module (file.relabel m)) := by
  rw [resolve, resolve, File.demands_relabel]
  exact .forM (fun demand => follows_meet keeps t demand) _

end Tree

end FrontEnd

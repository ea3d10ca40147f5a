import FrontEnd.Proofs.Program.Relabelled
import FrontEnd.Proofs.Scope.Exact

/-!
# What the scope check looks at

The scope check of a function looks at the names that are visible and at the uses and words of the
body. Of the symbol tree it takes the claim at each path, and of the body nothing that a relabelling
changes where positions stay. So in trees in which the same is claimed a function and the relabelled
function pass together (`Tree.checkScopes_congr`).
-/

namespace FrontEnd

namespace Check

variable {declared other : Declared}

/-- An expression is in order wherever the same uses are visible. -/
theorem allowsExpr_relabel {m : Relabel} (keeps : m.KeepsPlaces) {s r : ScopeStack}
    (visible : ∀ use, admits declared s use = admits other r use) (value : Expr) :
    AllowsExpr declared s value ↔ AllowsExpr other r (value.relabel m) := by
  unfold AllowsExpr
  simp only [← Expr.mem_uses_iff, Expr.uses_of_keepsPlaces keeps, visible]

theorem admits_behind_congr {s r : ScopeStack} (isOpen : s.frames ≠ []) (isOpenToo : r.frames ≠ [])
    (visible : ∀ use, admits declared s use = admits other r use) {first second : Stmt}
    (same : first.declared? = second.declared?) (use : Use) :
    admits declared (s.behind first) use = admits other (r.behind second) use := by
  rw [Bool.eq_iff_iff, admits_behind isOpen, admits_behind isOpenToo, visible, same]

/-- **A body is in order wherever the same uses are visible** and the loop around it is the same. -/
theorem allowsBody_relabel {m : Relabel} (keeps : m.KeepsPlaces) (body : List Stmt)
    {s r : ScopeStack} (isOpen : s.frames ≠ []) (isOpenToo : r.frames ≠ [])
    (visible : ∀ use, admits declared s use = admits other r use)
    (loops : s.inLoop = r.inLoop) :
    AllowsBody declared s body ↔ AllowsBody other r (body.map (Stmt.relabel m)) := by
  induction body using bodyInduction generalizing s r with
  | nil => exact iff_of_true (allowsBody_nil s) (allowsBody_nil r)
  | cons first rest blocks ih =>
    have values : (∀ value ∈ first.values, AllowsExpr declared s value) ↔
        ∀ value ∈ (first.relabel m).values, AllowsExpr other r value := by
      rw [Stmt.values_relabel, List.forall_mem_map]
      exact forall₂_congr fun value _ => allowsExpr_relabel keeps visible value
    have inner (block : List Stmt) (isLoop : Bool) (mem : (block, isLoop) ∈ first.blocks) :
        AllowsBody declared (s.opened isLoop) block ↔
          AllowsBody other (r.opened isLoop) (block.map (Stmt.relabel m)) := by
      apply blocks block isLoop mem
      · exact s.frames_opened isLoop
      · exact r.frames_opened isLoop
      · intro use
        rw [admits_opened, admits_opened, visible]
      · rw [s.inLoop_opened, r.inLoop_opened, loops]
    have blocksToo : (∀ block isLoop, (block, isLoop) ∈ first.blocks →
          AllowsBody declared (s.opened isLoop) block) ↔
        ∀ block isLoop, (block, isLoop) ∈ (first.relabel m).blocks →
          AllowsBody other (r.opened isLoop) block := by
      rw [Stmt.blocks_relabel]
      constructor
      · intro allows block isLoop mem
        obtain ⟨⟨old, isLoop⟩, isBlock, same⟩ := List.mem_map.1 mem
        cases same
        exact (inner old isLoop isBlock).1 (allows old isLoop isBlock)
      · intro allows block isLoop mem
        have relabelled := List.mem_map_of_mem (f := Prod.map (List.map (Stmt.relabel m)) id) mem
        exact (inner block isLoop mem).2 (allows _ _ relabelled)
    have later : AllowsBody declared (s.behind first) rest ↔
        AllowsBody other (r.behind (first.relabel m)) (rest.map (Stmt.relabel m)) := by
      apply ih
      · exact ScopeStack.frames_behind isOpen first
      · exact ScopeStack.frames_behind isOpenToo _
      · exact admits_behind_congr isOpen isOpenToo visible (first.declared?_relabel m).symm
      · rw [s.inLoop_behind, r.inLoop_behind, loops]
    rw [List.map_cons, allowsBody_cons_iff isOpen, allowsBody_cons_iff isOpenToo, allowsStmt_iff,
      allowsStmt_iff, values, blocksToo, later, Stmt.isLoopControl_relabel, loops]

end Check

namespace Tree

section Congr

variable {t other : Tree} (claims : ∀ path, t.claimAt? path = other.claimAt? path)

include claims

theorem isGlobal_congr (node : Node) : t.isGlobal node = other.isGlobal node := by
  simp only [isGlobal, isModule, claims]

theorem declares_congr (module : Path) : t.declares module = other.declares module := by
  funext name
  simp only [declares, claims]

/-- In trees with the same claims and nodes the same names are visible in every function. -/
theorem mem_globals_congr (nodes : t.nodes.Perm other.nodes) (name : String) :
    name ∈ t.globals ↔ name ∈ other.globals := by
  have same : t.isGlobal = other.isGlobal := funext (isGlobal_congr claims)
  rw [globals, globals, same]
  exact ((nodes.filter _).map _).mem_iff

/-- A function and the relabelled function start with the same names. -/
theorem contains_opened_relabel (nodes : t.nodes.Perm other.nodes) (m : Relabel)
    (function : FnDecl) (name : String) :
    (t.opened function).contains name = (other.opened (function.relabel m)).contains name := by
  have inputs : (function.relabel m).inputs.map Parameter.name =
      function.inputs.map Parameter.name := List.map_map
  have isMethod : (function.relabel m).isMethod = function.isMethod := by
    simp [FnDecl.isMethod, FnDecl.relabel]
  have starts : (function.baseFrame t).contains name =
      ((function.relabel m).baseFrame other).contains name := by
    rw [Bool.eq_iff_iff]
    simp only [FnDecl.baseFrame, Frame.contains, List.contains_eq_mem, decide_eq_true_eq,
      List.mem_append, mem_globals_congr claims nodes, inputs, isMethod]
  rw [opened, opened]
  simp only [ScopeStack.contains_push, starts]

/-- **The scope check looks at claims and names only**: in trees with the same claims and nodes a
function and the relabelled function pass together. -/
theorem checkScopes_relabel (nodes : t.nodes.Perm other.nodes) {m : Relabel}
    (keeps : m.KeepsPlaces) (module : Path) (function : FnDecl) :
    t.checkScopes module function = .ok () ↔
      other.checkScopes module (function.relabel m) = .ok () := by
  rw [checkScopes_eq_ok_iff_allows, checkScopes_eq_ok_iff_allows]
  apply Check.allowsBody_relabel keeps
  · exact List.cons_ne_nil _ _
  · exact List.cons_ne_nil _ _
  · intro use
    rw [Check.admits, Check.admits, contains_opened_relabel claims nodes m,
      declares_congr claims]
  · rfl

end Congr

end Tree

end FrontEnd

import FrontEnd.Proofs.Symbol.Relabelled
import FrontEnd.Scope.Check

/-!
# The scope check of relabelled functions

The scope check reads the names of uses, of variables and of the symbols of the tree. A position is
only passed on, into the diagnostic of a fault. So the check of a relabelled function in a relabelled
tree ends as the check of the function does, up to the position of the fault
(`Tree.checkScopes_relabelled`).
-/

namespace FrontEnd

variable {m : Relabel}

namespace Check

variable (declared : Declared)

theorem follows_expr (value : Expr) :
    Follows m (expr declared value) (expr declared (value.relabel m)) := by
  refine .look fun s => ?_
  have same : (fun use => !admits declared s use) ∘ Use.relabel m =
      fun use => !admits declared s use := rfl
  rw [Expr.uses_relabel, List.find?_map, same]
  cases value.uses.find? fun use => !admits declared s use with
  | none => exact .pure ()
  | some use => exact .halt rfl

theorem follows_control (keyword : String) (position : Position) :
    Follows m (control keyword position) (control keyword (m.position position)) :=
  .look fun _ => .ite (.pure ()) (.halt rfl)

/-- A block is closed whether its check passes or not. -/
theorem follows_within {action moved : Check Unit} (opened : ScopeStack → ScopeStack)
    (inner : Follows m action moved) : Follows m (within opened action) (within opened moved) := by
  intro s
  rw [within, within, inner]
  cases action (opened s) <;> rfl

mutual
/-- **A relabelled statement is checked as the statement is.** -/
theorem follows_stmt : ∀ x : Stmt, Follows m (stmt declared x) (stmt declared (x.relabel m))
  | .declare _ _ _ name initial _ =>
    .bind (follows_expr declared initial) fun _ => follows_modify (ScopeStack.declare · name)
  | .assign target value _ =>
    .bind (follows_expr declared target) fun _ => follows_expr declared value
  | .evaluate value _ => follows_expr declared value
  | .breakLoop span => follows_control "break" span.start
  | .continueLoop span => follows_control "continue" span.start
  | .loop condition body _ =>
    .bind (follows_expr declared condition) fun _ => follows_within loopBody (follows_stmts body)
  | .branch first others otherwise _ =>
    .bind (follows_arm first) fun _ => .bind (follows_arms others) fun _ =>
      follows_within .pushBlock (follows_stmts otherwise)
  | .returnWith none _ => .pure ()
  | .returnWith (some value) _ => follows_expr declared value
  | .select subject cases otherwise _ =>
    .bind (follows_expr declared subject) fun _ => .bind (follows_cases cases) fun _ =>
      follows_lastCase otherwise
theorem follows_stmts : ∀ body : List Stmt,
    Follows m (stmts declared body) (stmts declared (relabelStmts m body))
  | [] => .pure ()
  | first :: rest => .bind (follows_stmt first) fun _ => follows_stmts rest
theorem follows_arm : ∀ x : Arm, Follows m (arm declared x) (arm declared (x.relabel m))
  | .mk condition body =>
    .bind (follows_expr declared condition) fun _ => follows_within .pushBlock (follows_stmts body)
theorem follows_arms : ∀ xs : List Arm,
    Follows m (arms declared xs) (arms declared (relabelArms m xs))
  | [] => .pure ()
  | first :: rest => .bind (follows_arm first) fun _ => follows_arms rest
theorem follows_case : ∀ x : Case, Follows m (caseOf declared x) (caseOf declared (x.relabel m))
  | .mk pattern body =>
    .bind (follows_expr declared pattern) fun _ => follows_caseBody body
theorem follows_cases : ∀ xs : List Case,
    Follows m (casesOf declared xs) (casesOf declared (relabelCases m xs))
  | [] => .pure ()
  | first :: rest => .bind (follows_case first) fun _ => follows_cases rest
theorem follows_caseBody : ∀ x : CaseBody,
    Follows m (caseBody declared x) (caseBody declared (x.relabel m))
  | .block body => follows_within .pushBlock (follows_stmts body)
  | .value value => follows_within .pushBlock (follows_expr declared value)
theorem follows_lastCase : ∀ x : Option CaseBody,
    Follows m (lastCase declared x) (lastCase declared (relabelLast m x))
  | none => .pure ()
  | some body => follows_caseBody body
end

end Check

namespace Tree

variable (m) (t : Tree)

@[simp] theorem isModule_relabel (path : Path) : (t.relabel m).isModule path = t.isModule path := by
  rw [isModule, isModule, claimAt?_relabel, Option.any_map]
  rfl

theorem isGlobal_relabel (node : Node) :
    (t.relabel m).isGlobal (node.relabel m) = t.isGlobal node := by
  simp only [isGlobal, Node.relabel, Claim.kind_relabel, isModule_relabel, Claim.eq_builtin_relabel]

/-- The names that are visible in every function stand in the same order. -/
@[simp] theorem globals_relabel : (t.relabel m).globals = t.globals := by
  have same : (t.relabel m).isGlobal ∘ Node.relabel m = t.isGlobal :=
    funext (isGlobal_relabel m t)
  rw [globals, globals, relabel, List.filter_map, List.map_map]
  change ((t.nodes.filter ((t.relabel m).isGlobal ∘ Node.relabel m)).map Node.segment) = _
  rw [same]

@[simp] theorem declares_relabel (module : Path) :
    (t.relabel m).declares module = t.declares module := by
  funext name
  simp only [declares, claimAt?_relabel, Option.any_map, Claim.isKnown_relabel]

theorem baseFrame_relabel (function : FnDecl) :
    (function.relabel m).baseFrame (t.relabel m) = function.baseFrame t := by
  have inputs : (function.relabel m).inputs.map Parameter.name =
      function.inputs.map Parameter.name := List.map_map
  have isMethod : (function.relabel m).isMethod = function.isMethod := by
    simp [FnDecl.isMethod, FnDecl.relabel]
  rw [FnDecl.baseFrame, FnDecl.baseFrame, globals_relabel, inputs, isMethod]

/-- **A relabelled function is checked as the function is**, in the relabelled tree. -/
theorem checkScopes_relabelled (module : Path) (function : FnDecl) :
    (t.relabel m).checkScopes module (function.relabel m) =
      (t.checkScopes module function).mapError m.diagnostic := by
  let opened := (ScopeStack.empty.push (function.baseFrame t)).push (.blank false)
  have body : Check.stmts (t.declares module) (function.relabel m).body opened =
      m.outcome (Check.stmts (t.declares module) function.body opened) := by
    rw [FnDecl.relabel, ← relabelStmts_eq]
    exact Check.follows_stmts (t.declares module) function.body opened
  rw [checkScopes, checkScopes, baseFrame_relabel, declares_relabel, EStateM.run, EStateM.run, body]
  cases Check.stmts (t.declares module) function.body opened <;> rfl

end Tree

end FrontEnd

import FrontEnd.Proofs.Program.Place
import FrontEnd.Scope.Check

/-!
# Frames behind statements

What the frames around a point are once statements have been passed: each declaration adds its name
to the innermost frame, and nothing else changes. So the names that are visible behind statements
are those visible in front of them and those they declare (`ScopeStack.contains_behindAll`), and
closing the block that held them gives back the frames around it (`ScopeStack.pop_behindAll_push`).
-/

namespace FrontEnd

namespace ScopeStack

/-- The frames behind a statement. -/
def behind (s : ScopeStack) (stmt : Stmt) : ScopeStack :=
  stmt.declared?.elim s s.declare

/-- **The frames behind statements.** -/
def behindAll (s : ScopeStack) (body : List Stmt) : ScopeStack :=
  body.foldl behind s

/-- The frames in a block that is opened, which may be the body of a loop. -/
def opened (s : ScopeStack) (isLoop : Bool) : ScopeStack :=
  if isLoop then Check.loopBody s else s.pushBlock

/-- A declaration with an open block around it goes into its innermost frame. -/
theorem declare_push (s : ScopeStack) (frame : Frame) (name : String) :
    (s.push frame).declare name = s.push (frame.declare name) := rfl

theorem exists_push {s : ScopeStack} (isOpen : s.frames ≠ []) :
    ∃ (outer : ScopeStack) (frame : Frame), s = outer.push frame := by
  obtain ⟨_ | ⟨frame, rest⟩⟩ := s
  · exact absurd rfl isOpen
  · exact ⟨⟨rest⟩, frame, rfl⟩

/-- **Statements add names to the innermost frame and change nothing else.** -/
theorem behindAll_push (s : ScopeStack) (frame : Frame) (body : List Stmt) :
    (s.push frame).behindAll body =
      s.push ⟨(body.filterMap Stmt.declared?).reverse ++ frame.names, frame.inLoop⟩ := by
  induction body generalizing frame with
  | nil => rfl
  | cons first rest ih =>
    rw [behindAll, List.foldl_cons, ← behindAll, behind]
    cases declared : first.declared? with
    | none => rw [Option.elim_none, ih, List.filterMap_cons_none declared]
    | some name =>
      rw [Option.elim_some, declare_push, ih, List.filterMap_cons_some declared]
      simp [Frame.declare]

/-- Closing a block gives back the frames around it. -/
theorem pop_behindAll_push (s : ScopeStack) (frame : Frame) (body : List Stmt) :
    ((s.push frame).behindAll body).pop = s := by
  rw [behindAll_push, pop_push]

/-- A name is visible behind a statement when it was visible or the statement declares it. -/
theorem contains_behind {s : ScopeStack} (isOpen : s.frames ≠ []) (stmt : Stmt) (name : String) :
    (s.behind stmt).contains name = true ↔ stmt.declared? = some name ∨ s.contains name = true := by
  rw [behind]
  cases stmt.declared? with
  | none => simp
  | some declared =>
    rw [Option.elim_some, contains_declare s declared name isOpen, Bool.or_eq_true, beq_iff_eq,
      Option.some.injEq, eq_comm]

theorem frames_behind {s : ScopeStack} (isOpen : s.frames ≠ []) (stmt : Stmt) :
    (s.behind stmt).frames ≠ [] := by
  obtain ⟨outer, frame, rfl⟩ := exists_push isOpen
  rw [behind]
  cases stmt.declared? <;> exact List.cons_ne_nil _ _

theorem inLoop_behind (s : ScopeStack) (stmt : Stmt) : (s.behind stmt).inLoop = s.inLoop := by
  obtain ⟨_ | ⟨frame, rest⟩⟩ := s <;> rw [behind] <;> cases stmt.declared? <;> rfl

/-- A block opens without names. -/
theorem contains_opened (s : ScopeStack) (isLoop : Bool) (name : String) :
    (s.opened isLoop).contains name = s.contains name := by
  cases isLoop with
  | false => exact contains_pushBlock s name
  | true => simp [opened, Check.loopBody, contains_push, Frame.blank, Frame.contains]

/-- A block is in a loop when it is the body of one or stands in one. -/
theorem inLoop_opened (s : ScopeStack) (isLoop : Bool) :
    (s.opened isLoop).inLoop = (s.inLoop || isLoop) := by
  cases isLoop with
  | false => exact (Bool.or_false _).symm
  | true => exact (Bool.or_true _).symm

theorem frames_opened (s : ScopeStack) (isLoop : Bool) : (s.opened isLoop).frames ≠ [] := by
  cases isLoop <;> exact List.cons_ne_nil _ _

theorem pop_behindAll_opened (s : ScopeStack) (isLoop : Bool) (body : List Stmt) :
    ((s.opened isLoop).behindAll body).pop = s := by
  cases isLoop <;> exact pop_behindAll_push ..

end ScopeStack

end FrontEnd

import FrontEnd.Proofs.Scope.Exact

/-!
# Frames behind a check

A check leaves frames whether it succeeds or fails. A fault halts it in the middle of a block, where
the blocks around that one are open too, and each of them has to be closed on the way out.

What a successful check leaves is known (`Check.stmt_passes`), and here the failing half is added.
The check of a statement that fails leaves the frames as it found them (`Check.stmt_stays`). So that
of a block's statements leaves the frames behind those that passed (`Check.stmts_error_behind`), and
to close the block gives back the frames around it, whatever they were.

**The law** (`Check.frames_restored`): the check of a block's statements changes nothing but the
names of the innermost frame, and when it succeeds it adds the variables that these statements
declare, but none of their blocks. The check of a block, or of what a pattern leads to, changes
nothing.
-/

namespace FrontEnd

namespace Check

variable {declared : Declared}

/-- **The frames that a check leaves**, whether it succeeds or fails. -/
def left (action : Check Unit) (s : ScopeStack) : ScopeStack :=
  match action s with
  | .ok _ r | .error _ r => r

/-- A check succeeds from some frames. -/
def Succeeds (action : Check Unit) (s : ScopeStack) : Prop :=
  ∃ r, action s = .ok () r

/-- **A check stays at some frames** if it leaves them as they are when it fails. -/
def Stays (action : Check Unit) (s : ScopeStack) : Prop :=
  ∀ ⦃d r⦄, action s = .error d r → r = s

/-! ## What a failing check leaves -/

section

variable {action first second : Check Unit} {s : ScopeStack} {asked : Prop}

theorem Stays.done (s : ScopeStack) : Stays (pure ()) s := by
  intro d r run
  cases run

/-- Two checks in a row stay when both do and the first passes to where it started. -/
theorem Stays.bind (stays : Stays first s) (passes : Passes first s s asked)
    (next : Stays second s) : Stays (first >>= fun _ => second) s := by
  intro d r run
  rcases bind_eq_error.1 run with failed | ⟨⟨⟩, between, firstRun, failed⟩
  · exact stays failed
  · obtain ⟨rfl, -⟩ := (passes between).1 firstRun
    exact next failed

/-- A check inside a block stays when closing the block gives back the frames around it. -/
theorem Stays.within {opened : ScopeStack → ScopeStack}
    (closes : ∀ ⦃d r⦄, action (opened s) = .error d r → r.pop = s) :
    Stays (Check.within opened action) s := by
  intro d r run
  obtain ⟨left, inner, rfl⟩ := within_eq_error.1 run
  exact closes inner

/-- A check that passes to where it started and stays leaves the frames as they are. -/
theorem left_eq_self (passes : Passes action s s asked) (stays : Stays action s) :
    left action s = s := by
  unfold left
  cases run : action s with
  | ok _ r => exact ((passes r).1 run).1
  | error d r => exact stays run

end

theorem expr_stays (value : Expr) (s : ScopeStack) : Stays (expr declared value) s := by
  intro d r run
  obtain ⟨use, -, -, same⟩ := expr_eq_error.1 run
  exact same.symm

theorem control_stays (keyword : String) (position : Position) (s : ScopeStack) :
    Stays (control keyword position) s := by
  intro d r run
  obtain ⟨-, -, same⟩ := control_eq_error.1 run
  exact same.symm

theorem declare_stays (name : String) (s : ScopeStack) : Stays (modify (·.declare name)) s := by
  intro d r run
  cases run

-- By induction on the syntax. The statements of a block leave more names than they found, so of them
-- it is said which have passed, and closing the block takes these names away.
mutual
/-- **The check of a statement that fails** leaves the frames as it found them. -/
theorem stmt_stays (x : Stmt) (s : ScopeStack) : Stays (stmt declared x) s := by
  cases x with
  | declare isMutable type isArray name initial span =>
    exact (expr_stays initial s).bind (expr_passes s initial) (declare_stays name s)
  | assign target value span =>
    exact (expr_stays target s).bind (expr_passes s target) (expr_stays value s)
  | evaluate value span => exact expr_stays value s
  | breakLoop span => exact control_stays "break" span.start s
  | continueLoop span => exact control_stays "continue" span.start s
  | loop condition body span =>
    exact (expr_stays condition s).bind (expr_passes s condition) (block_stays body s true)
  | branch first others otherwise span =>
    exact (arm_stays first s).bind (arm_passes first s)
      ((arms_stay others s).bind (arms_passes others s) (block_stays otherwise s false))
  | returnWith value span =>
    cases value with
    | none => exact .done s
    | some value => exact expr_stays value s
  | select subject cases otherwise span =>
    exact (expr_stays subject s).bind (expr_passes s subject)
      ((cases_stay cases s).bind (cases_passes cases s) (lastCase_stays otherwise s))
/-- **The check of a block's statements that fails** leaves the frames behind those that passed. -/
theorem stmts_error_behind (body : List Stmt) {s r : ScopeStack} {d : Diagnostic}
    (failed : stmts declared body s = .error d r) :
    ∃ passed, passed <+: body ∧ r = s.behindAll passed := by
  cases body with
  | nil => cases failed
  | cons first rest =>
    rcases bind_eq_error.1 failed with failed | ⟨⟨⟩, between, firstRun, failed⟩
    · exact ⟨[], List.nil_prefix, stmt_stays first s failed⟩
    · obtain ⟨rfl, -⟩ := (stmt_passes first s between).1 firstRun
      obtain ⟨passed, isPrefix, same⟩ := stmts_error_behind rest failed
      exact ⟨first :: passed, List.cons_prefix_cons.2 ⟨rfl, isPrefix⟩, same⟩
/-- The check of a block that fails closes the block. -/
theorem block_stays (body : List Stmt) (s : ScopeStack) (isLoop : Bool) :
    Stays (within (·.opened isLoop) (stmts declared body)) s := by
  refine .within fun d r failed => ?_
  obtain ⟨passed, -, rfl⟩ := stmts_error_behind body failed
  exact ScopeStack.pop_behindAll_opened s isLoop passed
theorem arm_stays (x : Arm) (s : ScopeStack) : Stays (arm declared x) s := by
  cases x with
  | mk condition body =>
    exact (expr_stays condition s).bind (expr_passes s condition) (block_stays body s false)
theorem arms_stay (xs : List Arm) (s : ScopeStack) : Stays (arms declared xs) s := by
  cases xs with
  | nil => exact .done s
  | cons first rest => exact (arm_stays first s).bind (arm_passes first s) (arms_stay rest s)
theorem case_stays (x : Case) (s : ScopeStack) : Stays (caseOf declared x) s := by
  cases x with
  | mk pattern body =>
    exact (expr_stays pattern s).bind (expr_passes s pattern) (caseBody_stays body s)
theorem cases_stay (xs : List Case) (s : ScopeStack) : Stays (casesOf declared xs) s := by
  cases xs with
  | nil => exact .done s
  | cons first rest => exact (case_stays first s).bind (case_passes first s) (cases_stay rest s)
theorem caseBody_stays (x : CaseBody) (s : ScopeStack) : Stays (caseBody declared x) s := by
  cases x with
  | block body => exact block_stays body s false
  | value value =>
    -- An expression declares nothing, so the block that is closed is the one that was opened.
    refine .within fun d r failed => ?_
    rw [expr_stays value _ failed]
    rfl
theorem lastCase_stays (x : Option CaseBody) (s : ScopeStack) :
    Stays (lastCase declared x) s := by
  cases x with
  | none => exact .done s
  | some body => exact caseBody_stays body s
end

/-- **What the check of a block's statements leaves**: the frames behind those that passed, which
are all of them when it succeeds. -/
theorem exists_left_stmts (declared : Declared) (body : List Stmt) {s : ScopeStack}
    (isOpen : s.frames ≠ []) :
    ∃ passed, passed <+: body ∧ left (stmts declared body) s = s.behindAll passed ∧
      (Succeeds (stmts declared body) s → passed = body) := by
  unfold left
  cases run : stmts declared body s with
  | ok _ r =>
    have same : r = s.behindAll body := ((stmts_passes body isOpen r).1 run).1
    exact ⟨body, List.prefix_rfl, same, fun _ => rfl⟩
  | error d r =>
    obtain ⟨passed, isPrefix, same⟩ := stmts_error_behind body run
    refine ⟨passed, isPrefix, same, ?_⟩
    rintro ⟨t, succeeded⟩
    rw [run] at succeeded
    cases succeeded

/-- **The check restores the frames.** From frames of which one is innermost, the check of a block's
statements leaves as many, the same ones below the innermost, and in the innermost the same mark of
a loop, whether it succeeds or fails. When it succeeds, the innermost frame has the names that it
had and those of the variables that the statements themselves declare. From any frames, the check of
a block, or of what a pattern leads to, leaves them all as they are, whether it succeeds or fails.
-/
theorem frames_restored (declared : Declared) (s : ScopeStack) :
    (∀ frame, s.top? = some frame → ∀ body, ∃ top,
      (left (stmts declared body) s).depth = s.depth ∧
      (left (stmts declared body) s).frames.tail = s.frames.tail ∧
      (left (stmts declared body) s).top? = some top ∧ top.inLoop = frame.inLoop ∧
      (Succeeds (stmts declared body) s → ∀ name, name ∈ top.names ↔
        name ∈ frame.names ∨ ∃ stmt ∈ body, stmt.declared? = some name)) ∧
    (∀ body, left (within .pushBlock (stmts declared body)) s = s) ∧
    ∀ body, left (caseBody declared body) s = s := by
  refine ⟨fun frame innermost body => ?_, fun body => ?_, fun body => ?_⟩
  · have isOpen : s.frames ≠ [] := by
      intro none
      simp [ScopeStack.top?, none] at innermost
    obtain ⟨passed, -, same, whole⟩ := exists_left_stmts declared body isOpen
    obtain ⟨outer, _, rfl⟩ := ScopeStack.exists_push isOpen
    cases innermost
    rw [same, ScopeStack.behindAll_push]
    refine ⟨_, rfl, rfl, rfl, rfl, fun succeeds name => ?_⟩
    rw [whole succeeds]
    simp [or_comm]
  · exact left_eq_self (block_passes body s false) (block_stays body s false)
  · exact left_eq_self (caseBody_passes body s) (caseBody_stays body s)

/-- Frames in a loop, with a variable there and another around it. -/
def loopFrames : ScopeStack :=
  (ScopeStack.empty.push ⟨["n"], false⟩).push ⟨["i"], true⟩

/-- A variable, and a block that declares another and ends the loop. -/
def nestedVariable : List Stmt :=
  [.declare false default false "a" (.symbol "i" default) default,
    .branch (.mk (.symbol "a" default)
      [.declare false default false "b" (.symbol "n" default) default, .breakLoop default])
      [] [] default]

/-- The same statements in front of a loop, in which a third variable is declared and the one of the
block is used. -/
def hiddenVariable : List Stmt :=
  nestedVariable ++ [.loop (.symbol "a" default)
    [.declare false default false "c" (.symbol "i" default) default,
      .evaluate (.symbol "b" default) default] default]

/-- The statements that pass leave the first variable beside the one of the loop, and those that
fail inside a block leave as many frames as there were and the same ones below the innermost. -/
theorem frames_restored_nestedVariable :
    loopFrames.top? = some ⟨["i"], true⟩ ∧
      Succeeds (stmts (fun _ => false) nestedVariable) loopFrames ∧
      (∃ top, (left (stmts (fun _ => false) nestedVariable) loopFrames).top? = some top ∧
        ∀ name, name ∈ top.names ↔
          name ∈ ["i"] ∨ ∃ stmt ∈ nestedVariable, stmt.declared? = some name) ∧
      ¬ Succeeds (stmts (fun _ => false) hiddenVariable) loopFrames ∧
      (left (stmts (fun _ => false) hiddenVariable) loopFrames).depth = 2 ∧
      (left (stmts (fun _ => false) hiddenVariable) loopFrames).frames.tail = [⟨["n"], false⟩] := by
  have passes : Succeeds (stmts (fun _ => false) nestedVariable) loopFrames := ⟨_, rfl⟩
  have fails : ¬ Succeeds (stmts (fun _ => false) hiddenVariable) loopFrames := by
    rintro ⟨r, run⟩
    cases run
  obtain ⟨top, -, -, innermost, -, names⟩ :=
    (frames_restored (fun _ => false) loopFrames).1 _ rfl nestedVariable
  obtain ⟨_, depth, below, -⟩ :=
    (frames_restored (fun _ => false) loopFrames).1 _ rfl hiddenVariable
  exact ⟨rfl, passes, ⟨top, innermost, names passes⟩, fails, depth, below⟩

end Check

end FrontEnd

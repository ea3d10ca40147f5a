import FrontEnd.Proofs.Action
import FrontEnd.Proofs.Scope.Frames
import FrontEnd.Proofs.Scope.WellScoped

/-!
# The scope check is exact

A function passes the scope check exactly when it is well scoped
(`checkScopes_eq_ok_iff_wellScoped`).

The step between the frames of the check and the places of a body is `Check.AllowsBody`, which says
of a body and the frames around it that each statement is in order where it stands. The check of a
statement, of a block and of what a pattern leads to succeeds exactly when what it asks holds, and
leaves the frames as they were but for the variable that a statement declares (`Check.stmt_passes`,
`Check.stmts_passes`).
-/

namespace FrontEnd

/-! ## What the check of a statement asks -/

namespace Check

variable {declared : Declared}

/-- Every use that an expression mentions is visible. -/
def AllowsExpr (declared : Declared) (s : ScopeStack) (value : Expr) : Prop :=
  ∀ use, value.Mentions use → admits declared s use = true

/-- **A statement is in order where it stands** in a body, `s` being the frames around the body: a
use in it is visible in these frames or names a variable declared before, and a word that controls
a loop stands in one. -/
structure Allows (declared : Declared) (s : ScopeStack) (before : List Stmt) (inLoop : Bool)
    (stmt : Stmt) : Prop where
  uses : ∀ value ∈ stmt.values, ∀ use, value.Mentions use →
    admits declared s use = true ∨ ∃ earlier ∈ before, earlier.declared? = some use.name
  controls : stmt.isLoopControl = true → (s.inLoop || inLoop) = true

/-- **Every statement of a body is in order where it stands.** -/
def AllowsBody (declared : Declared) (s : ScopeStack) (body : List Stmt) : Prop :=
  ∀ before inLoop stmt, StandsIn body before inLoop stmt → Allows declared s before inLoop stmt

/-- A use is visible behind a statement when it was visible or the statement declares its name. -/
theorem admits_behind {s : ScopeStack} (isOpen : s.frames ≠ []) (stmt : Stmt) (use : Use) :
    admits declared (s.behind stmt) use = true ↔
      stmt.declared? = some use.name ∨ admits declared s use = true := by
  simp only [admits, Bool.or_eq_true, ScopeStack.contains_behind isOpen, or_assoc]

theorem admits_opened (s : ScopeStack) (isLoop : Bool) (use : Use) :
    admits declared (s.opened isLoop) use = admits declared s use := by
  rw [admits, ScopeStack.contains_opened, admits]

/-- Whether a statement is in order depends on what is visible and on the loop alone. -/
theorem allows_congr {s r : ScopeStack} {before earlier : List Stmt} {inLoop inner : Bool}
    {stmt : Stmt}
    (visible : ∀ use : Use,
      (admits declared s use = true ∨ ∃ x ∈ before, x.declared? = some use.name) ↔
        (admits declared r use = true ∨ ∃ x ∈ earlier, x.declared? = some use.name))
    (loops : (s.inLoop || inLoop) = (r.inLoop || inner)) :
    Allows declared s before inLoop stmt ↔ Allows declared r earlier inner stmt := by
  constructor
  · intro allows
    refine ⟨fun value mem use mentions => ?_, fun isControl => ?_⟩
    · exact (visible use).1 (allows.uses value mem use mentions)
    · rw [← loops]
      exact allows.controls isControl
  · intro allows
    refine ⟨fun value mem use mentions => ?_, fun isControl => ?_⟩
    · exact (visible use).2 (allows.uses value mem use mentions)
    · rw [loops]
      exact allows.controls isControl

/-- What is in order in a block is in order in the statement that holds the block. -/
theorem allows_opened_iff {s : ScopeStack} {before : List Stmt} {isLoop inLoop : Bool}
    {stmt : Stmt} :
    Allows declared (s.opened isLoop) before inLoop stmt ↔
      Allows declared s before (isLoop || inLoop) stmt := by
  apply allows_congr
  · intro use
    rw [admits_opened]
  · rw [ScopeStack.inLoop_opened, Bool.or_assoc]

/-- A use is visible behind a statement and further ones when it is behind the ones that the
statement is put in front of. -/
theorem visible_behind_iff {s : ScopeStack} (isOpen : s.frames ≠ []) {first : Stmt}
    {before : List Stmt} (use : Use) :
    (admits declared (s.behind first) use = true ∨
        ∃ earlier ∈ before, earlier.declared? = some use.name) ↔
      (admits declared s use = true ∨
        ∃ earlier ∈ first :: before, earlier.declared? = some use.name) := by
  rw [admits_behind isOpen]
  simp only [List.mem_cons, exists_eq_or_imp]
  constructor
  · rintro ((own | outer) | earlier)
    · exact .inr (.inl own)
    · exact .inl outer
    · exact .inr (.inr earlier)
  · rintro (outer | own | earlier)
    · exact .inl (.inr outer)
    · exact .inl (.inl own)
    · exact .inr earlier

/-- What is in order behind a statement is in order with the statement before it. -/
theorem allows_behind_iff {s : ScopeStack} (isOpen : s.frames ≠ []) {first : Stmt}
    {before : List Stmt} {inLoop : Bool} {stmt : Stmt} :
    Allows declared (s.behind first) before inLoop stmt ↔
      Allows declared s (first :: before) inLoop stmt :=
  allows_congr (visible_behind_iff isOpen) (by rw [ScopeStack.inLoop_behind])

/-- **What the check of a single statement asks**: of its expressions, of the loop around it, and of
its blocks. -/
structure AllowsStmt (declared : Declared) (s : ScopeStack) (stmt : Stmt) : Prop where
  values : ∀ value ∈ stmt.values, AllowsExpr declared s value
  control : stmt.isLoopControl = true → s.inLoop = true
  blocks : ∀ block isLoop, (block, isLoop) ∈ stmt.blocks →
    AllowsBody declared (s.opened isLoop) block

theorem allowsBody_nil (s : ScopeStack) : AllowsBody declared s [] :=
  fun _ _ _ stands => absurd stands not_standsIn_nil

/-- **A body with a first statement is in order** when the statement is and the rest is behind
it. -/
theorem allowsBody_cons_iff {s : ScopeStack} (isOpen : s.frames ≠ []) {first : Stmt}
    {rest : List Stmt} :
    AllowsBody declared s (first :: rest) ↔
      AllowsStmt declared s first ∧ AllowsBody declared (s.behind first) rest := by
  constructor
  · intro allows
    have own : Allows declared s [] false first :=
      allows _ _ _ (standsIn_cons_iff.2 (.inl ⟨rfl, rfl, rfl⟩))
    refine ⟨⟨fun value mem use mentions => ?_, fun isControl => ?_, ?_⟩, ?_⟩
    · simpa using own.uses value mem use mentions
    · simpa using own.controls isControl
    · intro block isLoop mem before inLoop stmt stands
      have inBody : StandsIn (first :: rest) before (isLoop || inLoop) stmt :=
        standsIn_cons_iff.2 (.inr (.inl ⟨block, isLoop, inLoop, mem, stands, rfl⟩))
      exact allows_opened_iff.2 (allows _ _ _ inBody)
    · intro before inLoop stmt stands
      exact (allows_behind_iff isOpen).2 (allows _ _ _ (stands.cons first))
  · rintro ⟨own, behind⟩ before inLoop stmt stands
    rcases standsIn_cons_iff.1 stands with
      ⟨rfl, rfl, rfl⟩ | ⟨block, isLoop, inner, mem, within, rfl⟩ | ⟨earlier, rfl, later⟩
    · refine ⟨fun value mem use mentions => .inl (own.values value mem use mentions), ?_⟩
      intro isControl
      rw [own.control isControl, Bool.true_or]
    · exact allows_opened_iff.1 (own.blocks block isLoop mem _ _ _ within)
    · exact (allows_behind_iff isOpen).1 (behind _ _ _ later)

/-! ## What a successful check asks and leaves -/

/-- **An action passes from some frames to others** on a condition: it succeeds exactly when the
condition holds, and then leaves these frames. -/
def Passes (action : Check Unit) (s r : ScopeStack) (asked : Prop) : Prop :=
  ∀ t, action s = .ok () t ↔ t = r ∧ asked

theorem Passes.congr {action : Check Unit} {s r : ScopeStack} {asked other : Prop}
    (passes : Passes action s r asked) (same : asked ↔ other) : Passes action s r other :=
  fun t => by rw [passes t, same]

theorem Passes.done (s : ScopeStack) : Passes (pure ()) s s True := by
  intro t
  rw [pure_eq_ok]
  simp [eq_comm]

/-- Two checks in a row ask for both conditions. -/
theorem Passes.bind {first second : Check Unit} {s r q : ScopeStack} {asked further : Prop}
    (passes : Passes first s r asked) (next : Passes second r q further) :
    Passes (first >>= fun _ => second) s q (asked ∧ further) := by
  intro t
  rw [bind_eq_ok]
  constructor
  · rintro ⟨⟨⟩, between, firstRun, secondRun⟩
    obtain ⟨rfl, holds⟩ := (passes between).1 firstRun
    obtain ⟨rfl, holdsToo⟩ := (next t).1 secondRun
    exact ⟨rfl, holds, holdsToo⟩
  · rintro ⟨rfl, holds, holdsToo⟩
    exact ⟨(), r, (passes r).2 ⟨rfl, holds⟩, (next t).2 ⟨rfl, holdsToo⟩⟩

/-- A check inside a block succeeds when the check does, and leaves the block closed. -/
theorem within_eq_ok {opened : ScopeStack → ScopeStack} {action : Check Unit} {s t : ScopeStack} :
    within opened action s = .ok () t ↔ ∃ r, action (opened s) = .ok () r ∧ r.pop = t := by
  unfold within
  cases action (opened s) <;> simp

/-- A check inside a block fails when the check does, and leaves the block closed. -/
theorem within_eq_error {opened : ScopeStack → ScopeStack} {action : Check Unit}
    {s t : ScopeStack} {d : Diagnostic} :
    within opened action s = .error d t ↔ ∃ r, action (opened s) = .error d r ∧ r.pop = t := by
  unfold within
  cases action (opened s) <;> simp [and_assoc]

/-- A check inside a block asks what it asks with the block open. -/
theorem Passes.within {action : Check Unit} {s r : ScopeStack} {asked : Prop}
    {opened : ScopeStack → ScopeStack} (passes : Passes action (opened s) r asked) :
    Passes (Check.within opened action) s r.pop asked := by
  intro t
  rw [within_eq_ok]
  constructor
  · rintro ⟨left, run, rfl⟩
    obtain ⟨rfl, holds⟩ := (passes left).1 run
    exact ⟨rfl, holds⟩
  · rintro ⟨rfl, holds⟩
    exact ⟨r, (passes r).2 ⟨rfl, holds⟩, rfl⟩

/-- The check of an expression fails at the first use in it that is not visible. -/
theorem expr_eq_error {value : Expr} {s r : ScopeStack} {d : Diagnostic} :
    expr declared value s = .error d r ↔
      ∃ use, value.uses.find? (fun use => !admits declared s use) = some use ∧
        ⟨.nameNotDeclared use.name, use.position⟩ = d ∧ s = r := by
  rw [expr, get_bind]
  cases value.uses.find? (fun use => !admits declared s use) with
  | none => exact iff_of_false nofun nofun
  | some use =>
    change EStateM.Result.error _ s = .error d r ↔ _
    simp

/-- The check of a word that controls a loop fails outside of loops. -/
theorem control_eq_error {keyword : String} {position : Position} {s r : ScopeStack}
    {d : Diagnostic} :
    control keyword position s = .error d r ↔
      s.inLoop = false ∧ ⟨.controlOutsideLoop keyword, position⟩ = d ∧ s = r := by
  rw [control, get_bind]
  cases s.inLoop with
  | true => exact iff_of_false nofun nofun
  | false =>
    change EStateM.Result.error _ s = .error d r ↔ _
    simp

/-- The check of an expression asks that every use in it is visible. -/
theorem expr_passes (s : ScopeStack) (value : Expr) :
    Passes (expr declared value) s s (AllowsExpr declared s value) := by
  intro t
  rw [expr, get_bind]
  cases found : value.uses.find? (fun use => !admits declared s use) with
  | none =>
    have visible : AllowsExpr declared s value := by
      intro use mentions
      simpa using List.find?_eq_none.1 found use (Expr.mem_uses_iff.2 mentions)
    exact pure_eq_ok.trans (by simp [visible, eq_comm])
  | some use =>
    have hidden : ¬ AllowsExpr declared s value := by
      intro visible
      have refused := List.find?_some found
      rw [visible use (Expr.mem_uses_iff.1 (List.mem_of_find?_eq_some found))] at refused
      cases refused
    exact iff_of_false throw_ne_ok fun h => hidden h.2

/-- The check of a word that controls a loop asks for a loop. -/
theorem control_passes (s : ScopeStack) (keyword : String) (position : Position) :
    Passes (control keyword position) s s (s.inLoop = true) := by
  intro t
  rw [control, get_bind]
  split
  next inLoop => exact pure_eq_ok.trans (by simp [inLoop, eq_comm])
  next outside => exact iff_of_false throw_ne_ok fun h => outside h.2

theorem declare_passes (s : ScopeStack) (name : String) :
    Passes (modify (·.declare name)) s (s.declare name) True := by
  intro t
  change EStateM.Result.ok () (s.declare name) = .ok () t ↔ _
  simp [eq_comm]

/-- The check of an arm asks for its condition and its body. -/
def AllowsArm (declared : Declared) (s : ScopeStack) (x : Arm) : Prop :=
  AllowsExpr declared s x.condition ∧ AllowsBody declared (s.opened false) x.body

/-- The check of what a pattern leads to asks for its statements or its expression. -/
def AllowsCaseBody (declared : Declared) (s : ScopeStack) (x : CaseBody) : Prop :=
  (∀ value ∈ x.value?, AllowsExpr declared s value) ∧
    ∀ block ∈ x.block?, AllowsBody declared (s.opened false) block

/-- The check of a case asks for its pattern and what it leads to. -/
def AllowsCase (declared : Declared) (s : ScopeStack) (x : Case) : Prop :=
  AllowsExpr declared s x.pattern ∧ AllowsCaseBody declared s x.body

theorem allowsStmt_iff {s : ScopeStack} {stmt : Stmt} :
    AllowsStmt declared s stmt ↔
      (∀ value ∈ stmt.values, AllowsExpr declared s value) ∧
      (stmt.isLoopControl = true → s.inLoop = true) ∧
      ∀ block isLoop, (block, isLoop) ∈ stmt.blocks →
        AllowsBody declared (s.opened isLoop) block :=
  ⟨fun ⟨values, control, blocks⟩ => ⟨values, control, blocks⟩,
    fun ⟨values, control, blocks⟩ => ⟨values, control, blocks⟩⟩

/-- A branch is in order when its arms and its last block are. -/
theorem allowsStmt_branch_iff {s : ScopeStack} {first : Arm} {others : List Arm}
    {otherwise : List Stmt} {span : Span} :
    AllowsStmt declared s (.branch first others otherwise span) ↔
      AllowsArm declared s first ∧ (∀ x ∈ others, AllowsArm declared s x) ∧
        AllowsBody declared (s.opened false) otherwise := by
  simp only [allowsStmt_iff, Stmt.values, Stmt.blocks, Stmt.isLoopControl, AllowsArm,
    List.forall_mem_cons, List.forall_mem_map, Bool.false_eq_true, false_implies, true_and]
  constructor
  · rintro ⟨⟨firstVisible, visible⟩, blocks⟩
    have allows (block : List Stmt)
        (mem : block ∈ first.body :: others.map Arm.body ++ [otherwise]) :
        AllowsBody declared (s.opened false) block :=
      blocks block false (List.mem_map_of_mem mem)
    refine ⟨⟨firstVisible, allows _ ?_⟩, fun x mem => ⟨visible x mem, allows _ ?_⟩, allows _ ?_⟩
    · exact List.mem_cons_self
    · exact List.mem_cons_of_mem _ (List.mem_append_left _ (List.mem_map_of_mem mem))
    · exact List.mem_append_right _ (List.mem_singleton_self _)
  · rintro ⟨⟨firstVisible, firstAllowed⟩, arms, last⟩
    refine ⟨⟨firstVisible, fun x mem => (arms x mem).1⟩, ?_⟩
    simp only [List.mem_map, Prod.mk.injEq]
    rintro block isLoop ⟨_, mem, rfl, rfl⟩
    rcases List.mem_append.1 mem with mem | mem
    · rcases List.mem_cons.1 mem with rfl | mem
      · exact firstAllowed
      · obtain ⟨x, isOther, rfl⟩ := List.mem_map.1 mem
        exact (arms x isOther).2
    · rwa [List.mem_singleton.1 mem]

/-- A selection is in order when its subject, its cases and its last case are. -/
theorem allowsStmt_select_iff {s : ScopeStack} {subject : Expr} {cases : List Case}
    {otherwise : Option CaseBody} {span : Span} :
    AllowsStmt declared s (.select subject cases otherwise span) ↔
      AllowsExpr declared s subject ∧ (∀ x ∈ cases, AllowsCase declared s x) ∧
        ∀ body ∈ otherwise, AllowsCaseBody declared s body := by
  have bodies : (∀ body ∈ cases.map Case.body ++ otherwise.toList, AllowsCaseBody declared s body) ↔
      (∀ x ∈ cases, AllowsCaseBody declared s x.body) ∧
        ∀ body ∈ otherwise, AllowsCaseBody declared s body := by
    simp [or_imp, forall_and]
  simp only [AllowsCase, forall_and, and_assoc, ← bodies]
  simp only [allowsStmt_iff, Stmt.values, Stmt.blocks, Stmt.isLoopControl, AllowsCaseBody]
  generalize cases.map Case.body ++ otherwise.toList = led
  simp only [List.cons_append, List.forall_mem_cons, List.forall_mem_append, List.mem_filterMap,
    List.mem_map, Prod.mk.injEq, Option.mem_def, Bool.false_eq_true, false_implies, true_and]
  constructor
  · rintro ⟨⟨visible, patterns, values⟩, blocks⟩
    refine ⟨visible, fun x mem => patterns _ ⟨x, mem, rfl⟩, fun body mem => ⟨?_, ?_⟩⟩
    · exact fun value found => values value ⟨body, mem, found⟩
    · exact fun block found => blocks block false ⟨block, ⟨body, mem, found⟩, rfl, rfl⟩
  · rintro ⟨visible, patterns, bodies⟩
    refine ⟨⟨visible, ?_, ?_⟩, ?_⟩
    · rintro _ ⟨x, mem, rfl⟩
      exact patterns x mem
    · rintro value ⟨body, mem, found⟩
      exact (bodies body mem).1 value found
    · rintro block isLoop ⟨_, ⟨body, mem, found⟩, rfl, rfl⟩
      exact (bodies body mem).2 _ found

mutual
/-- **The check of a statement** asks that the statement is in order, and leaves the frames behind
it. -/
theorem stmt_passes (x : Stmt) (s : ScopeStack) :
    Passes (stmt declared x) s (s.behind x) (AllowsStmt declared s x) := by
  cases x with
  | declare isMutable type isArray name initial span =>
    refine ((expr_passes s initial).bind (declare_passes s name)).congr ?_
    simp [allowsStmt_iff, Stmt.values, Stmt.blocks, Stmt.isLoopControl]
  | assign target value span =>
    refine ((expr_passes s target).bind (expr_passes s value)).congr ?_
    simp [allowsStmt_iff, Stmt.values, Stmt.blocks, Stmt.isLoopControl]
  | evaluate value span =>
    refine (expr_passes s value).congr ?_
    simp [allowsStmt_iff, Stmt.values, Stmt.blocks, Stmt.isLoopControl]
  | breakLoop span =>
    refine (control_passes s "break" span.start).congr ?_
    simp [allowsStmt_iff, Stmt.values, Stmt.blocks, Stmt.isLoopControl]
  | continueLoop span =>
    refine (control_passes s "continue" span.start).congr ?_
    simp [allowsStmt_iff, Stmt.values, Stmt.blocks, Stmt.isLoopControl]
  | loop condition body span =>
    refine ((expr_passes s condition).bind (block_passes body s true)).congr ?_
    simp [allowsStmt_iff, Stmt.values, Stmt.blocks, Stmt.isLoopControl]
  | branch first others otherwise span =>
    exact ((arm_passes first s).bind
      ((arms_passes others s).bind (block_passes otherwise s false))).congr
        allowsStmt_branch_iff.symm
  | returnWith value span =>
    cases value with
    | none =>
      refine (Passes.done s).congr ?_
      simp [allowsStmt_iff, Stmt.values, Stmt.blocks, Stmt.isLoopControl]
    | some value =>
      refine (expr_passes s value).congr ?_
      simp [allowsStmt_iff, Stmt.values, Stmt.blocks, Stmt.isLoopControl]
  | select subject cases otherwise span =>
    exact ((expr_passes s subject).bind
      ((cases_passes cases s).bind (lastCase_passes otherwise s))).congr
        allowsStmt_select_iff.symm
/-- **The check of a block's statements** asks that every statement is in order where it stands, and
leaves the frames behind them. -/
theorem stmts_passes (body : List Stmt) {s : ScopeStack} (isOpen : s.frames ≠ []) :
    Passes (stmts declared body) s (s.behindAll body) (AllowsBody declared s body) := by
  cases body with
  | nil => exact (Passes.done s).congr (iff_of_true trivial (allowsBody_nil s))
  | cons first rest =>
    refine ((stmt_passes first s).bind
      (stmts_passes rest (ScopeStack.frames_behind isOpen first))).congr ?_
    exact (allowsBody_cons_iff isOpen).symm
/-- The check of a block asks for its statements, and leaves the frames around it as they were. -/
theorem block_passes (body : List Stmt) (s : ScopeStack) (isLoop : Bool) :
    Passes (within (·.opened isLoop) (stmts declared body)) s s
      (AllowsBody declared (s.opened isLoop) body) := by
  have passes := (stmts_passes body (ScopeStack.frames_opened s isLoop)).within
  rwa [ScopeStack.pop_behindAll_opened] at passes
theorem arm_passes (x : Arm) (s : ScopeStack) :
    Passes (arm declared x) s s (AllowsArm declared s x) := by
  cases x with
  | mk condition body => exact (expr_passes s condition).bind (block_passes body s false)
theorem arms_passes (xs : List Arm) (s : ScopeStack) :
    Passes (arms declared xs) s s (∀ x ∈ xs, AllowsArm declared s x) := by
  cases xs with
  | nil => exact (Passes.done s).congr (by simp)
  | cons first rest => exact ((arm_passes first s).bind (arms_passes rest s)).congr (by simp)
theorem case_passes (x : Case) (s : ScopeStack) :
    Passes (caseOf declared x) s s (AllowsCase declared s x) := by
  cases x with
  | mk pattern body => exact (expr_passes s pattern).bind (caseBody_passes body s)
theorem cases_passes (xs : List Case) (s : ScopeStack) :
    Passes (casesOf declared xs) s s (∀ x ∈ xs, AllowsCase declared s x) := by
  cases xs with
  | nil => exact (Passes.done s).congr (by simp)
  | cons first rest => exact ((case_passes first s).bind (cases_passes rest s)).congr (by simp)
theorem caseBody_passes (x : CaseBody) (s : ScopeStack) :
    Passes (caseBody declared x) s s (AllowsCaseBody declared s x) := by
  cases x with
  | block body =>
    refine (block_passes body s false).congr ?_
    simp [AllowsCaseBody, CaseBody.value?, CaseBody.block?]
  | value value =>
    refine (expr_passes (s.opened false) value).within.congr ?_
    simp [AllowsCaseBody, CaseBody.value?, CaseBody.block?, AllowsExpr, admits_opened]
theorem lastCase_passes (x : Option CaseBody) (s : ScopeStack) :
    Passes (lastCase declared x) s s (∀ body ∈ x, AllowsCaseBody declared s body) := by
  cases x with
  | none => exact (Passes.done s).congr (by simp)
  | some body => exact (caseBody_passes body s).congr (by simp)
end

end Check

/-! ## The check of a function -/

namespace Tree

/-- The frames that a function starts with. -/
def opened (t : Tree) (function : FnDecl) : ScopeStack :=
  (ScopeStack.empty.push (function.baseFrame t)).push (.blank false)

/-- The names that a function sees everywhere are those of the frames that it starts with. -/
theorem contains_opened_iff {t : Tree} {function : FnDecl} {name : String} :
    (t.opened function).contains name = true ↔ function.SeesAtStart t name := by
  rw [opened, ← FnDecl.contains_baseFrame_iff, ScopeStack.contains_push, ScopeStack.contains_push]
  simp [Frame.blank, Frame.contains, ScopeStack.empty, ScopeStack.contains]

/-- A function passes the check when its body is in order. -/
theorem checkScopes_eq_ok_iff_allows {t : Tree} {module : Path} {function : FnDecl} :
    t.checkScopes module function = .ok () ↔
      Check.AllowsBody (t.declares module) (t.opened function) function.body := by
  let s := (ScopeStack.empty.push (function.baseFrame t)).push (.blank false)
  change _ ↔ Check.AllowsBody (t.declares module) s function.body
  have passes : Check.Passes (Check.stmts (t.declares module) function.body) s _ _ :=
    Check.stmts_passes function.body (List.cons_ne_nil _ _)
  rw [checkScopes, EStateM.run]
  cases run : Check.stmts (t.declares module) function.body s with
  | ok _ left => simpa [run] using ((passes left).1 run).2
  | error diagnostic left => simpa [run] using passes (s.behindAll function.body)

end Tree

/-- What a use sees from the frames that a function starts with. -/
theorem FnDecl.sees_iff {t : Tree} {module : Path} {function : FnDecl} {before : List Stmt}
    {use : Use} :
    function.Sees t module before use ↔
      Check.admits (t.declares module) (t.opened function) use = true ∨
        ∃ earlier ∈ before, earlier.declared? = some use.name := by
  simp only [Check.admits, Bool.or_eq_true, Bool.and_eq_true, Tree.contains_opened_iff]
  constructor
  · intro sees
    cases sees with
    | atStart sees => exact .inl (.inl sees)
    | declared mem declared => exact .inr ⟨_, mem, declared⟩
    | symbol qualified place found known =>
      exact .inl (.inr ⟨qualified, Tree.declares_iff.2 ⟨_, _, place, found, known⟩⟩)
  · rintro ((sees | ⟨qualified, declares⟩) | ⟨earlier, mem, declared⟩)
    · exact .atStart sees
    · obtain ⟨owner, claim, place, found, known⟩ := Tree.declares_iff.1 declares
      exact .symbol qualified place found known
    · exact .declared mem declared

/-- **A function passes the scope check exactly when it is well scoped**: every use in its body is
visible where it stands, and every `break` and `continue` stands in a loop. -/
theorem checkScopes_eq_ok_iff_wellScoped (t : Tree) (module : Path) (function : FnDecl) :
    t.checkScopes module function = .ok () ↔ function.WellScoped t module := by
  rw [Tree.checkScopes_eq_ok_iff_allows]
  constructor
  · intro allows
    refine ⟨fun stands mem mentions => ?_, fun stands isControl => ?_⟩
    · exact FnDecl.sees_iff.2 ((allows _ _ _ stands).uses _ mem _ mentions)
    · exact (allows _ _ _ stands).controls isControl
  · intro wellScoped before inLoop stmt stands
    refine ⟨fun value mem use mentions => ?_, fun isControl => ?_⟩
    · exact FnDecl.sees_iff.1 (wellScoped.uses stands mem mentions)
    · exact wellScoped.controls stands isControl

end FrontEnd

import FrontEnd.Proofs.Scope.Exact

/-!
# The faults of a body

What is wrong in a body is said place by place, as being well scoped is: a use that is not visible
where its statement stands, or a word that controls a loop and stands in none (`Check.WrongBody`).
Each has a fault and the position of the occurrence.

The check visits a body in one order and stops at what it finds. The offsets at which a body can
have faults, in the order of the source, are its marks (`Stmt.marks`); an assignment whose value
repeats its target has those of the target once.

**The law** (`Check.stmts_find`): where the marks of a body ascend, the check stops at the fault
with the smallest offset, and any other fault stands behind it.
-/

namespace FrontEnd

/-! ## Marks -/

/-- The fault of a use that is not visible. -/
def Use.fault (use : Use) : Diagnostic :=
  ⟨.nameNotDeclared use.name, use.position⟩

/-- The offset at which a use stands. -/
def Use.offset (use : Use) : Nat :=
  use.position.offset

/-- **The offsets of the uses in an expression**, in the order of the source. -/
def Expr.marks (value : Expr) : List Nat :=
  value.uses.map Use.offset

/-- The offsets of the uses in a value that are none of its target. -/
def Expr.marksBeside (target value : Expr) : List Nat :=
  (value.uses.filter (· ∉ target.uses)).map Use.offset

mutual
/-- **The offsets at which a statement can have faults**, in the order of the source. -/
def Stmt.marks : Stmt → List Nat
  | .declare _ _ _ _ initial _ => initial.marks
  | .assign target value _ => target.marks ++ target.marksBeside value
  | .evaluate value _ => value.marks
  | .breakLoop span | .continueLoop span => [span.start.offset]
  | .loop condition body _ => condition.marks ++ marksOfBody body
  | .branch first others otherwise _ => first.marks ++ (marksOfArms others ++ marksOfBody otherwise)
  | .returnWith none _ => []
  | .returnWith (some value) _ => value.marks
  | .select subject cases otherwise _ =>
    subject.marks ++ (marksOfCases cases ++ marksOfLast otherwise)
/-- The marks of statements. -/
def marksOfBody : List Stmt → List Nat
  | [] => []
  | first :: rest => first.marks ++ marksOfBody rest
/-- The marks of a condition and of the statements it guards. -/
def Arm.marks : Arm → List Nat
  | .mk condition body => condition.marks ++ marksOfBody body
/-- The marks of arms. -/
def marksOfArms : List Arm → List Nat
  | [] => []
  | first :: rest => first.marks ++ marksOfArms rest
/-- The marks of a pattern and of what it leads to. -/
def Case.marks : Case → List Nat
  | .mk pattern body => pattern.marks ++ body.marks
/-- The marks of cases. -/
def marksOfCases : List Case → List Nat
  | [] => []
  | first :: rest => first.marks ++ marksOfCases rest
/-- The marks of what a pattern leads to. -/
def CaseBody.marks : CaseBody → List Nat
  | .block body => marksOfBody body
  | .value value => value.marks
/-- The marks of the last case. -/
def marksOfLast : Option CaseBody → List Nat
  | none => []
  | some body => body.marks
end

theorem marksOfBody_eq (xs : List Stmt) : marksOfBody xs = xs.flatMap Stmt.marks := by
  induction xs with
  | nil => rfl
  | cons _ _ ih => rw [marksOfBody, ih, List.flatMap_cons]

theorem marksOfArms_eq (xs : List Arm) : marksOfArms xs = xs.flatMap Arm.marks := by
  induction xs with
  | nil => rfl
  | cons _ _ ih => rw [marksOfArms, ih, List.flatMap_cons]

theorem marksOfCases_eq (xs : List Case) : marksOfCases xs = xs.flatMap Case.marks := by
  induction xs with
  | nil => rfl
  | cons _ _ ih => rw [marksOfCases, ih, List.flatMap_cons]

/-- The fault of a word that controls a loop where it stands in none. -/
def Stmt.controlFault? : Stmt → Option Diagnostic
  | .breakLoop span => some ⟨.controlOutsideLoop "break", span.start⟩
  | .continueLoop span => some ⟨.controlOutsideLoop "continue", span.start⟩
  | _ => none

namespace Check

variable {declared : Declared}

/-! ## What is wrong -/

/-- A fault of a use in an expression that is not visible. -/
def WrongExpr (declared : Declared) (s : ScopeStack) (value : Expr) (d : Diagnostic) : Prop :=
  ∃ use, value.Mentions use ∧ admits declared s use = false ∧ d = use.fault

/-- **A fault of a statement where it stands** in a body, `s` being the frames around the body. -/
def Wrong (declared : Declared) (s : ScopeStack) (before : List Stmt) (inLoop : Bool) (stmt : Stmt)
    (d : Diagnostic) : Prop :=
  (∃ value ∈ stmt.values, ∃ use, value.Mentions use ∧
    ¬ (admits declared s use = true ∨ ∃ earlier ∈ before, earlier.declared? = some use.name) ∧
      d = use.fault) ∨
  stmt.controlFault? = some d ∧ (s.inLoop || inLoop) = false

/-- **A fault of a body.** -/
def WrongBody (declared : Declared) (s : ScopeStack) (body : List Stmt) (d : Diagnostic) : Prop :=
  ∃ before inLoop stmt, StandsIn body before inLoop stmt ∧ Wrong declared s before inLoop stmt d

/-- **A fault of a single statement**: of its expressions, of the loop that it is not in, or of its
blocks. -/
def WrongStmt (declared : Declared) (s : ScopeStack) (stmt : Stmt) (d : Diagnostic) : Prop :=
  (∃ value ∈ stmt.values, WrongExpr declared s value d) ∨
  (stmt.controlFault? = some d ∧ s.inLoop = false) ∨
  ∃ block isLoop, (block, isLoop) ∈ stmt.blocks ∧ WrongBody declared (s.opened isLoop) block d

/-- What is wrong depends on what is visible and on the loop alone. -/
theorem wrong_congr {s r : ScopeStack} {before earlier : List Stmt} {inLoop inner : Bool}
    {stmt : Stmt} {d : Diagnostic}
    (visible : ∀ use : Use,
      (admits declared s use = true ∨ ∃ x ∈ before, x.declared? = some use.name) ↔
        (admits declared r use = true ∨ ∃ x ∈ earlier, x.declared? = some use.name))
    (loops : (s.inLoop || inLoop) = (r.inLoop || inner)) :
    Wrong declared s before inLoop stmt d ↔ Wrong declared r earlier inner stmt d := by
  simp only [Wrong, visible, loops]

/-- What is wrong in a block is wrong in the statement that holds the block. -/
theorem wrong_opened_iff {s : ScopeStack} {before : List Stmt} {isLoop inLoop : Bool} {stmt : Stmt}
    {d : Diagnostic} : Wrong declared (s.opened isLoop) before inLoop stmt d ↔
      Wrong declared s before (isLoop || inLoop) stmt d :=
  wrong_congr (fun use => by rw [admits_opened]) (by rw [ScopeStack.inLoop_opened, Bool.or_assoc])

/-- What is wrong behind a statement is wrong with the statement before it. -/
theorem wrong_behind_iff {s : ScopeStack} (isOpen : s.frames ≠ []) {first : Stmt}
    {before : List Stmt} {inLoop : Bool} {stmt : Stmt} {d : Diagnostic} :
    Wrong declared (s.behind first) before inLoop stmt d ↔
      Wrong declared s (first :: before) inLoop stmt d :=
  wrong_congr (visible_behind_iff isOpen) (by rw [ScopeStack.inLoop_behind])

/-- What is wrong with a statement itself, where it is the first of a body. -/
theorem wrong_first_iff {s : ScopeStack} {stmt : Stmt} {d : Diagnostic} :
    Wrong declared s [] false stmt d ↔ (∃ value ∈ stmt.values, WrongExpr declared s value d) ∨
      stmt.controlFault? = some d ∧ s.inLoop = false := by
  simp [Wrong, WrongExpr]

theorem not_wrongBody_nil {s : ScopeStack} {d : Diagnostic} : ¬ WrongBody declared s [] d := by
  rintro ⟨before, inLoop, stmt, stands, -⟩
  exact not_standsIn_nil stands

/-- **What is wrong in a body** is wrong in its first statement or in the rest behind it. -/
theorem wrongBody_cons_iff {s : ScopeStack} (isOpen : s.frames ≠ []) {first : Stmt}
    {rest : List Stmt} {d : Diagnostic} :
    WrongBody declared s (first :: rest) d ↔
      WrongStmt declared s first d ∨ WrongBody declared (s.behind first) rest d := by
  constructor
  · rintro ⟨before, inLoop, stmt, stands, wrong⟩
    rcases standsIn_cons_iff.1 stands with
      ⟨rfl, rfl, rfl⟩ | ⟨block, isLoop, inner, mem, within, rfl⟩ | ⟨earlier, rfl, later⟩
    · rcases wrong_first_iff.1 wrong with own | control
      · exact .inl (.inl own)
      · exact .inl (.inr (.inl control))
    · exact .inl (.inr (.inr ⟨block, isLoop, mem, before, inner, stmt, within,
        wrong_opened_iff.2 wrong⟩))
    · exact .inr ⟨earlier, inLoop, stmt, later, (wrong_behind_iff isOpen).2 wrong⟩
  · have here : StandsIn (first :: rest) [] false first :=
      standsIn_cons_iff.2 (.inl ⟨rfl, rfl, rfl⟩)
    rintro ((own | control | ⟨block, isLoop, mem, before, inner, stmt, within, wrong⟩) |
      ⟨earlier, inLoop, stmt, later, wrong⟩)
    · exact ⟨[], false, first, here, wrong_first_iff.2 (.inl own)⟩
    · exact ⟨[], false, first, here, wrong_first_iff.2 (.inr control)⟩
    · exact ⟨before, isLoop || inner, stmt,
        standsIn_cons_iff.2 (.inr (.inl ⟨block, isLoop, inner, mem, within, rfl⟩)),
        wrong_opened_iff.1 wrong⟩
    · exact ⟨first :: earlier, inLoop, stmt, later.cons first, (wrong_behind_iff isOpen).1 wrong⟩

/-- A fault of a condition or of the statements that it guards. -/
def WrongArm (declared : Declared) (s : ScopeStack) (x : Arm) (d : Diagnostic) : Prop :=
  WrongExpr declared s x.condition d ∨ WrongBody declared (s.opened false) x.body d

/-- A fault of what a pattern leads to. -/
def WrongCaseBody (declared : Declared) (s : ScopeStack) (x : CaseBody) (d : Diagnostic) : Prop :=
  (∃ value ∈ x.value?, WrongExpr declared s value d) ∨
    ∃ block ∈ x.block?, WrongBody declared (s.opened false) block d

/-- A fault of a pattern or of what it leads to. -/
def WrongCase (declared : Declared) (s : ScopeStack) (x : Case) (d : Diagnostic) : Prop :=
  WrongExpr declared s x.pattern d ∨ WrongCaseBody declared s x.body d

/-- What is wrong in a branch is wrong in an arm or in its last block. -/
theorem wrongStmt_branch_iff {s : ScopeStack} {first : Arm} {others : List Arm}
    {otherwise : List Stmt} {span : Span} {d : Diagnostic} :
    WrongStmt declared s (.branch first others otherwise span) d ↔
      WrongArm declared s first d ∨ (∃ x ∈ others, WrongArm declared s x d) ∨
        WrongBody declared (s.opened false) otherwise d := by
  have values : (∃ value ∈ (Stmt.branch first others otherwise span).values,
      WrongExpr declared s value d) ↔ WrongExpr declared s first.condition d ∨
        ∃ x ∈ others, WrongExpr declared s x.condition d := by
    grind [Stmt.values]
  have blocks : (∃ block isLoop,
      (block, isLoop) ∈ (Stmt.branch first others otherwise span).blocks ∧
        WrongBody declared (s.opened isLoop) block d) ↔
          WrongBody declared (s.opened false) first.body d ∨
            (∃ x ∈ others, WrongBody declared (s.opened false) x.body d) ∨
              WrongBody declared (s.opened false) otherwise d := by
    grind [Stmt.blocks]
  simp only [WrongStmt, values, blocks, Stmt.controlFault?, WrongArm, and_or_left, exists_or]
  grind

/-- What is wrong in a selection is wrong in its subject, in a case or in the last case. -/
theorem wrongStmt_select_iff {s : ScopeStack} {subject : Expr} {cases : List Case}
    {otherwise : Option CaseBody} {span : Span} {d : Diagnostic} :
    WrongStmt declared s (.select subject cases otherwise span) d ↔
      WrongExpr declared s subject d ∨ (∃ x ∈ cases, WrongCase declared s x d) ∨
        ∃ body ∈ otherwise, WrongCaseBody declared s body d := by
  have values : (∃ value ∈ (Stmt.select subject cases otherwise span).values,
      WrongExpr declared s value d) ↔ WrongExpr declared s subject d ∨
        (∃ x ∈ cases, WrongExpr declared s x.pattern d) ∨
          (∃ x ∈ cases, ∃ value ∈ x.body.value?, WrongExpr declared s value d) ∨
            ∃ body ∈ otherwise, ∃ value ∈ body.value?, WrongExpr declared s value d := by
    simp only [Stmt.values, List.mem_append, List.mem_cons, List.mem_map, List.mem_filterMap,
      Option.mem_toList, Option.mem_def]
    grind
  have blocks : (∃ block isLoop,
      (block, isLoop) ∈ (Stmt.select subject cases otherwise span).blocks ∧
        WrongBody declared (s.opened isLoop) block d) ↔
          (∃ x ∈ cases, ∃ block ∈ x.body.block?, WrongBody declared (s.opened false) block d) ∨
            ∃ body ∈ otherwise, ∃ block ∈ body.block?,
              WrongBody declared (s.opened false) block d := by
    simp only [Stmt.blocks, List.mem_append, List.mem_map, List.mem_filterMap, Option.mem_toList,
      Option.mem_def]
    grind
  simp only [WrongStmt, values, blocks, Stmt.controlFault?, WrongCase, WrongCaseBody]
  grind

/-! ## What a check finds -/

/-- **A check finds the first fault.** All faults have marks; a check that succeeds leaves none, and
where the marks ascend, one that fails does with a fault that stands in front of all others. -/
structure Finds (action : Check Unit) (s : ScopeStack) (wrong : Diagnostic → Prop)
    (marks : List Nat) : Prop where
  marked : ∀ d, wrong d → d.position.offset ∈ marks
  none : ∀ ⦃t⦄, action s = .ok () t → ∀ d, ¬ wrong d
  first : ∀ ⦃d t⦄, marks.Pairwise (· < ·) → action s = .error d t →
    wrong d ∧ ∀ other, wrong other → other = d ∨ d.position.offset < other.position.offset

namespace Finds

variable {action first second : Check Unit} {s r : ScopeStack} {asked : Prop}
  {wrong other : Diagnostic → Prop} {marks more : List Nat}

theorem congr (finds : Finds action s wrong marks) (same : ∀ d, other d ↔ wrong d) :
    Finds action s other marks := by
  obtain rfl : other = wrong := funext fun d => propext (same d)
  exact finds

theorem done (s : ScopeStack) : Finds (pure ()) s (fun _ => False) [] where
  marked _ := False.elim
  none _ _ _ := id
  first _ _ _ failed := by cases failed

/-- **Two checks in a row.** The second has to find its faults only where the first succeeds. -/
theorem bindIf (passes : Passes first s r asked) (here : Finds first s wrong marks)
    (marked : ∀ d, other d → d.position.offset ∈ more)
    (behind : asked → Finds second r other more) :
    Finds (first >>= fun _ => second) s (fun d => wrong d ∨ other d) (marks ++ more) where
  marked d isWrong := by
    rcases isWrong with isWrong | isOther
    · exact List.mem_append_left _ (here.marked d isWrong)
    · exact List.mem_append_right _ (marked d isOther)
  none t run d isWrong := by
    obtain ⟨⟨⟩, between, firstRun, secondRun⟩ := bind_eq_ok.1 run
    obtain ⟨rfl, holds⟩ := (passes between).1 firstRun
    rcases isWrong with isWrong | isOther
    · exact here.none firstRun d isWrong
    · exact (behind holds).none secondRun d isOther
  first d t ordered run := by
    obtain ⟨orderedHere, orderedBehind, before⟩ := List.pairwise_append.1 ordered
    rcases bind_eq_error.1 run with failed | ⟨⟨⟩, between, firstRun, failed⟩
    · obtain ⟨isWrong, least⟩ := here.first orderedHere failed
      refine ⟨.inl isWrong, fun v isFault => ?_⟩
      rcases isFault with isFault | isOther
      · exact least v isFault
      · exact .inr (before _ (here.marked d isWrong) _ (marked v isOther))
    · obtain ⟨rfl, holds⟩ := (passes between).1 firstRun
      obtain ⟨isOther, least⟩ := (behind holds).first orderedBehind failed
      refine ⟨.inr isOther, fun v isFault => ?_⟩
      rcases isFault with isFault | isFault
      · exact absurd isFault (here.none firstRun v)
      · exact least v isFault

theorem bind (passes : Passes first s r asked) (here : Finds first s wrong marks)
    (behind : Finds second r other more) :
    Finds (first >>= fun _ => second) s (fun d => wrong d ∨ other d) (marks ++ more) :=
  here.bindIf passes behind.marked fun _ => behind

/-- A check inside a block finds what it finds with the block open. -/
theorem within (opened : ScopeStack → ScopeStack) (finds : Finds action (opened s) wrong marks) :
    Finds (Check.within opened action) s wrong marks where
  marked := finds.marked
  none t run := by
    obtain ⟨left, inner, -⟩ := within_eq_ok.1 run
    exact finds.none inner
  first d t ordered run := by
    obtain ⟨left, inner, -⟩ := within_eq_error.1 run
    exact finds.first ordered inner

end Finds

/-- The first of some uses that has a property stands in front of all others with it, where those of
the uses ascend among which they are. -/
theorem first_of_find? {uses : List Use} {holds among : Use → Bool} {use : Use}
    (found : uses.find? holds = some use) (within : ∀ u ∈ uses, holds u = true → among u = true)
    (ordered : ((uses.filter among).map Use.offset).Pairwise (· < ·)) :
    ∀ u ∈ uses, holds u = true → u = use ∨ use.offset < u.offset := by
  obtain ⟨isHeld, front, behind, rfl, before⟩ := List.find?_eq_some_iff_append.1 found
  have isAmong := within use (by simp) isHeld
  rw [List.filter_append, List.filter_cons_of_pos isAmong, List.map_append,
    List.map_cons] at ordered
  obtain ⟨-, ordered, -⟩ := List.pairwise_append.1 ordered
  intro u mem isHeldToo
  rcases List.mem_append.1 mem with mem | mem
  · have refused := before u mem
    rw [isHeldToo] at refused
    cases refused
  · rcases List.mem_cons.1 mem with rfl | mem
    · exact .inl rfl
    · have alsoAmong := within u (by simp [mem]) isHeldToo
      exact .inr (List.rel_of_pairwise_cons ordered
        (List.mem_map_of_mem (List.mem_filter.2 ⟨mem, alsoAmong⟩)))

/-- **The check of an expression** finds the first use that is not visible, among any uses that have
all of these. -/
theorem expr_finds_among {s : ScopeStack} {value : Expr} {among : Use → Bool}
    (within : ∀ use ∈ value.uses, admits declared s use = false → among use = true) :
    Finds (expr declared value) s (WrongExpr declared s value)
      ((value.uses.filter among).map Use.offset) where
  marked := by
    rintro _ ⟨use, mentions, hidden, rfl⟩
    have mem := Expr.mem_uses_iff.2 mentions
    exact List.mem_map_of_mem (f := Use.offset) (List.mem_filter.2 ⟨mem, within use mem hidden⟩)
  none t run d := by
    rintro ⟨use, mentions, hidden, -⟩
    rw [((expr_passes s value t).1 run).2 use mentions] at hidden
    cases hidden
  first d t ordered run := by
    obtain ⟨use, found, rfl, rfl⟩ := expr_eq_error.1 run
    have hidden := List.find?_some found
    have mentions := Expr.mem_uses_iff.1 (List.mem_of_find?_eq_some found)
    refine ⟨⟨use, mentions, by simpa using hidden, rfl⟩, ?_⟩
    rintro _ ⟨other, mentionsToo, hiddenToo, rfl⟩
    rcases first_of_find? found (fun u mem isHidden => within u mem (by simpa using isHidden))
      ordered other (Expr.mem_uses_iff.2 mentionsToo) (by simpa using hiddenToo)
      with rfl | further
    · exact .inl rfl
    · exact .inr further

theorem expr_finds (s : ScopeStack) (value : Expr) :
    Finds (expr declared value) s (WrongExpr declared s value) value.marks := by
  have finds := @expr_finds_among declared s value (fun _ => true) fun _ _ _ => rfl
  rwa [List.filter_eq_self.2 fun _ _ => rfl] at finds

/-- The check of a word that controls a loop finds that it stands in none. -/
theorem control_finds (s : ScopeStack) (keyword : String) (position : Position) :
    Finds (control keyword position) s
      (fun d => some ⟨.controlOutsideLoop keyword, position⟩ = some d ∧ s.inLoop = false)
      [position.offset] where
  marked := by
    rintro _ ⟨⟨⟩, -⟩
    exact List.mem_singleton_self _
  none t run d isWrong := by
    rw [((control_passes s keyword position t).1 run).2] at isWrong
    cases isWrong.2
  first d t ordered run := by
    obtain ⟨outside, rfl, rfl⟩ := control_eq_error.1 run
    refine ⟨⟨rfl, outside⟩, ?_⟩
    rintro _ ⟨⟨⟩, -⟩
    exact .inl rfl

/-- **The checks of two sides of an assignment** find the first fault, where the value repeats uses
of the target too: by the time the value is checked these are visible. -/
theorem sides_find (s : ScopeStack) (target value : Expr) :
    Finds (expr declared target >>= fun _ => expr declared value) s
      (fun d => WrongExpr declared s target d ∨ WrongExpr declared s value d)
      (target.marks ++ target.marksBeside value) := by
  let own (d : Diagnostic) : Prop := ∃ use, value.Mentions use ∧ use ∉ target.uses ∧
    admits declared s use = false ∧ d = use.fault
  have either (d : Diagnostic) : WrongExpr declared s target d ∨ WrongExpr declared s value d ↔
      WrongExpr declared s target d ∨ own d := by
    refine ⟨?_, Or.imp_right fun ⟨use, mentions, _, hidden⟩ => ⟨use, mentions, hidden⟩⟩
    rintro (isWrong | ⟨use, mentions, hidden⟩)
    · exact .inl isWrong
    · by_cases shared : use ∈ target.uses
      · exact .inl ⟨use, Expr.mem_uses_iff.1 shared, hidden⟩
      · exact .inr ⟨use, mentions, shared, hidden⟩
  refine ((expr_finds s target).bindIf (expr_passes s target) ?_ fun allows => ?_).congr either
  · rintro _ ⟨use, mentions, apart, -, rfl⟩
    exact List.mem_map_of_mem (f := Use.offset)
      (List.mem_filter.2 ⟨Expr.mem_uses_iff.2 mentions, by simpa using apart⟩)
  · have apart (use : Use) (hidden : admits declared s use = false) : use ∉ target.uses := by
      intro shared
      rw [allows use (Expr.mem_uses_iff.1 shared)] at hidden
      cases hidden
    refine (expr_finds_among fun use _ hidden => by simpa using apart use hidden).congr fun d => ?_
    exact ⟨fun ⟨use, mentions, _, hidden⟩ => ⟨use, mentions, hidden⟩,
      fun ⟨use, mentions, hidden⟩ => ⟨use, mentions, apart use hidden.1, hidden⟩⟩

mutual
/-- **The check of a statement** finds its first fault. -/
theorem stmt_finds (x : Stmt) (s : ScopeStack) :
    Finds (stmt declared x) s (WrongStmt declared s x) x.marks := by
  cases x with
  | declare isMutable type isArray name initial span =>
    have declares : Finds (modify (·.declare name)) s (fun _ => False) [] :=
      ⟨fun _ => False.elim, fun _ _ _ => id, fun _ _ _ failed => by cases failed⟩
    have finds : Finds (stmt declared (.declare isMutable type isArray name initial span)) s _ _ :=
      (expr_finds s initial).bind (expr_passes s initial) declares
    rw [List.append_nil] at finds
    refine finds.congr fun d => ?_
    simp [WrongStmt, Stmt.values, Stmt.blocks, Stmt.controlFault?]
  | assign target value span =>
    refine (sides_find s target value).congr fun d => ?_
    simp [WrongStmt, Stmt.values, Stmt.blocks, Stmt.controlFault?]
  | evaluate value span =>
    refine (expr_finds s value).congr fun d => ?_
    simp [WrongStmt, Stmt.values, Stmt.blocks, Stmt.controlFault?]
  | breakLoop span =>
    refine (control_finds s "break" span.start).congr fun d => ?_
    simp [WrongStmt, Stmt.values, Stmt.blocks, Stmt.controlFault?]
  | continueLoop span =>
    refine (control_finds s "continue" span.start).congr fun d => ?_
    simp [WrongStmt, Stmt.values, Stmt.blocks, Stmt.controlFault?]
  | loop condition body span =>
    refine ((expr_finds s condition).bind (expr_passes s condition)
      (block_finds body s true)).congr fun d => ?_
    simp [WrongStmt, Stmt.values, Stmt.blocks, Stmt.controlFault?]
  | branch first others otherwise span =>
    exact ((arm_finds first s).bind (arm_passes first s)
      ((arms_find others s).bind (arms_passes others s) (block_finds otherwise s false))).congr
        fun d => wrongStmt_branch_iff
  | returnWith value span =>
    cases value with
    | none =>
      refine (Finds.done s).congr fun d => ?_
      simp [WrongStmt, Stmt.values, Stmt.blocks, Stmt.controlFault?]
    | some value =>
      refine (expr_finds s value).congr fun d => ?_
      simp [WrongStmt, Stmt.values, Stmt.blocks, Stmt.controlFault?]
  | select subject cases otherwise span =>
    exact ((expr_finds s subject).bind (expr_passes s subject)
      ((cases_find cases s).bind (cases_passes cases s) (lastCase_finds otherwise s))).congr
        fun d => wrongStmt_select_iff
/-- **The check of a block's statements** finds the first fault of the block. -/
theorem stmts_find (body : List Stmt) {s : ScopeStack} (isOpen : s.frames ≠ []) :
    Finds (stmts declared body) s (WrongBody declared s body) (marksOfBody body) := by
  cases body with
  | nil => exact (Finds.done s).congr fun d => iff_of_false not_wrongBody_nil id
  | cons first rest =>
    exact ((stmt_finds first s).bind (stmt_passes first s)
      (stmts_find rest (ScopeStack.frames_behind isOpen first))).congr
        fun d => wrongBody_cons_iff isOpen
theorem block_finds (body : List Stmt) (s : ScopeStack) (isLoop : Bool) :
    Finds (within (·.opened isLoop) (stmts declared body)) s
      (WrongBody declared (s.opened isLoop) body) (marksOfBody body) :=
  .within (·.opened isLoop) (stmts_find body (ScopeStack.frames_opened s isLoop))
theorem arm_finds (x : Arm) (s : ScopeStack) :
    Finds (arm declared x) s (WrongArm declared s x) x.marks := by
  cases x with
  | mk condition body =>
    exact (expr_finds s condition).bind (expr_passes s condition) (block_finds body s false)
theorem arms_find (xs : List Arm) (s : ScopeStack) :
    Finds (arms declared xs) s (fun d => ∃ x ∈ xs, WrongArm declared s x d) (marksOfArms xs) := by
  cases xs with
  | nil => exact (Finds.done s).congr (by simp)
  | cons first rest =>
    exact ((arm_finds first s).bind (arm_passes first s) (arms_find rest s)).congr (by simp)
theorem case_finds (x : Case) (s : ScopeStack) :
    Finds (caseOf declared x) s (WrongCase declared s x) x.marks := by
  cases x with
  | mk pattern body =>
    exact (expr_finds s pattern).bind (expr_passes s pattern) (caseBody_finds body s)
theorem cases_find (xs : List Case) (s : ScopeStack) :
    Finds (casesOf declared xs) s (fun d => ∃ x ∈ xs, WrongCase declared s x d)
      (marksOfCases xs) := by
  cases xs with
  | nil => exact (Finds.done s).congr (by simp)
  | cons first rest =>
    exact ((case_finds first s).bind (case_passes first s) (cases_find rest s)).congr (by simp)
theorem caseBody_finds (x : CaseBody) (s : ScopeStack) :
    Finds (caseBody declared x) s (WrongCaseBody declared s x) x.marks := by
  cases x with
  | block body =>
    refine (block_finds body s false).congr fun d => ?_
    simp [WrongCaseBody, CaseBody.value?, CaseBody.block?]
  | value value =>
    have finds : Finds (caseBody declared (.value value)) s _ value.marks :=
      .within (·.opened false) (expr_finds (s.opened false) value)
    refine finds.congr fun d => ?_
    simp [WrongCaseBody, CaseBody.value?, CaseBody.block?, WrongExpr, admits_opened]
theorem lastCase_finds (x : Option CaseBody) (s : ScopeStack) :
    Finds (lastCase declared x) s (fun d => ∃ body ∈ x, WrongCaseBody declared s body d)
      (marksOfLast x) := by
  cases x with
  | none => exact (Finds.done s).congr (by simp)
  | some body => exact (caseBody_finds body s).congr (by simp)
end

end Check

end FrontEnd

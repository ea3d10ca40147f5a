import FrontEnd.Proofs.Grammar.Judging
import FrontEnd.Proofs.Grammar.NumberedFile

/-!
# What every statement of a file is given with

Some properties of a statement are decided where it is parsed, whatever stands around it. An action
gives only what is good (`Parse.Gives`) when every run of it does. The rules follow the actions; a
statement is good everywhere (`Stmt.Everywhere`) when it is good and those in its blocks are, at
every depth.

**The laws** (`Parse.gives_statements`, `File.copiesTarget_ofTokens`): what holds of the statements that
begin with an expression, and of all that are no assignments, holds of every statement of a parsed
file; and so a statement repeats numbers only where it assigns an operation on its target.
-/

namespace FrontEnd

/-- What a statement assigns to. -/
def Stmt.target? : Stmt → Option Expr
  | .assign target _ _ => some target
  | _ => none

/-- The form of a statement that is told by its first word, if it is such a statement. -/
def Stmt.form? : Stmt → Option StmtForm
  | .declare true .. => some .declareMutable
  | .breakLoop .. => some .breakLoop
  | .continueLoop .. => some .continueLoop
  | .loop .. => some .loop
  | .branch .. => some .branch
  | .returnWith .. => some .returnWith
  | .select .. => some .select
  | .declare false .. | .assign .. | .evaluate .. => none

/-! ## Properties at every depth -/

/-- **A property of a statement and of those in its blocks**, at every depth. -/
def Stmt.Everywhere (good : Stmt → Prop) (stmt : Stmt) : Prop :=
  ∀ inner ∈ statements [stmt], good inner

/-- A property of all statements of a body is one of each, everywhere. -/
theorem forall_statements_iff {good : Stmt → Prop} {body : List Stmt} :
    (∀ stmt ∈ statements body, good stmt) ↔ ∀ stmt ∈ body, stmt.Everywhere good := by
  induction body with
  | nil => simp [statements]
  | cons first rest ih =>
    rw [List.forall_mem_cons, ← ih, statements_cons, List.forall_mem_append, Stmt.Everywhere,
      statements_cons, statements, List.append_nil]

theorem Stmt.everywhere_iff {good : Stmt → Prop} {stmt : Stmt} :
    stmt.Everywhere good ↔
      good stmt ∧ ∀ block ∈ stmt.blocks, ∀ inner ∈ block.1, inner.Everywhere good := by
  rw [Everywhere, statements_cons, statements, List.append_nil, List.forall_mem_cons,
    List.forall_mem_flatMap]
  simp only [forall_statements_iff]

namespace Parse

open Token

/-! ## Actions that give what is good -/

/-- **An action gives only what is good**, wherever it starts. -/
def Gives {α : Type} (action : Parse α) (good : α → Prop) : Prop :=
  ∀ c, Meets (.keeping fun _ => True) action (fun value _ => good value) c

namespace Gives

variable {α β : Type} {action : Parse α} {good : α → Prop} {final : β → Prop}

theorem of_runs (runs : ∀ ⦃c value c'⦄, action c = .ok value c' → good value) :
    Gives action good :=
  fun _ => .of_runs fun _ _ _ run => ⟨trivial, trivial, runs run⟩

/-- What a run gives that ends well is good. -/
theorem of_eq_ok (gives : Gives action good) {c c' : Cursor} {value : α}
    (run : action c = .ok value c') : good value :=
  ((gives c).of_eq_ok trivial run).2.2

/-- Any action gives something. -/
theorem any : Gives action fun _ => True :=
  of_runs fun _ _ _ _ => trivial

theorem pure {value : α} (isGood : good value) : Gives (Pure.pure value) good :=
  fun _ => .pure isGood

theorem halt {halt : Halt} : Gives (throw halt : Parse α) good :=
  fun _ => .halt

/-- **An action behind another** may use what the first gives. -/
theorem bind {next : α → Parse β} (here : Gives action good)
    (behind : ∀ value, good value → Gives (next value) final) : Gives (action >>= next) final :=
  fun c => (here c).bind fun value c' isGood => behind value isGood c'

theorem skip {next : α → Parse β} (behind : ∀ value, Gives (next value) final) :
    Gives (action >>= next) final :=
  bind any fun value _ => behind value

theorem map {f : α → β} (here : Gives action good) (keeps : ∀ value, good value → final (f value)) :
    Gives (f <$> action) final :=
  fun c => (here c).map fun value _ => keeps value

end Gives

variable {α : Type} {good : α → Prop}

/-- A repeated action gives only good elements. -/
theorem gives_repeatWhile {item : Parse α} (each : Gives item good) (holds : Cursor → Bool) :
    Gives (repeatWhile holds item) (∀ value ∈ ·, good value) :=
  fun _ => .forall_repeatWhile (fun _ _ => trivial) fun c _ => each c

/-- An action that grows a value keeps it good when each step does. -/
theorem gives_growWhile {step : α → Parse α} (each : ∀ value, good value → Gives (step value) good)
    (holds : Cursor → Bool) {value : α} (isGood : good value) :
    Gives (growWhile holds step value) good :=
  fun _ => .growWhile (fun _ _ => trivial) (fun value c _ isGood => each value isGood c) isGood

/-! ## Statements -/

/-- **A form begins a statement of this form.** -/
theorem gives_formStmt_form {g : Grammar} {block : Parse (List Stmt)} (form : StmtForm) :
    Gives (formStmt g block form) fun stmt => stmt.form? = some form := by
  cases form with
  | loop => exact .skip fun _ => .skip fun _ => .skip fun _ => .skip fun _ => .pure rfl
  | branch =>
    refine .skip fun _ => .skip fun _ => .skip fun _ => .skip fun hasLast => ?_
    dsimp only
    split
    · exact .skip fun _ => .skip fun _ => .pure rfl
    · exact .skip fun _ => .skip fun _ => .pure rfl
  | returnWith =>
    refine .skip fun _ => .skip fun kind => ?_
    dsimp only
    split
    · exact .skip fun _ => .skip fun _ => .skip fun _ => .pure rfl
    · exact .skip fun _ => .skip fun _ => .skip fun _ => .pure rfl
  | select =>
    refine .skip fun _ => .skip fun _ => .skip fun _ => .skip fun _ => .skip fun _ => ?_
    exact .skip fun _ => .skip fun _ => .pure rfl
  | breakLoop | continueLoop => exact .skip fun _ => .skip fun _ => .skip fun _ => .pure rfl
  | declareMutable =>
    refine .skip fun _ => .skip fun _ => .skip fun _ => .skip fun _ => .skip fun _ => ?_
    exact .skip fun _ => .skip fun _ => .skip fun _ => .pure rfl

section Statements

variable {g : Grammar} {good : Stmt → Prop} {body : Parse (List Stmt)}

/-- A block gives statements that are good everywhere. -/
abbrev GivesBody (good : Stmt → Prop) (body : Parse (List Stmt)) : Prop :=
  Gives body fun stmts => ∀ stmt ∈ stmts, stmt.Everywhere good

/-- What a pattern leads to is good everywhere. -/
def GoodCase (good : Stmt → Prop) (body : CaseBody) : Prop :=
  ∀ block ∈ body.block?, ∀ stmt ∈ block, stmt.Everywhere good

theorem gives_arm (inner : GivesBody good body) :
    Gives (arm g body) fun arm => ∀ stmt ∈ arm.body, stmt.Everywhere good :=
  .skip fun _ => .bind inner fun _ areGood => .pure areGood

theorem gives_caseBody (inner : GivesBody good body) :
    Gives (caseBody g body) (GoodCase good) := by
  refine .skip fun kind => ?_
  split
  · refine .map inner fun body areGood => ?_
    rintro _ ⟨⟩
    exact areGood
  · exact .map .any fun _ _ => nofun

theorem gives_case (inner : GivesBody good body) :
    Gives (case g body) fun c => GoodCase good c.body :=
  .skip fun _ => .skip fun _ => .bind (gives_caseBody inner) fun _ isGood => .skip fun _ =>
    .pure isGood

theorem gives_lastCase (inner : GivesBody good body) :
    Gives (lastCase g body) fun last => ∀ body ∈ last, GoodCase good body := by
  refine .skip fun hasLast => ?_
  split
  · refine .skip fun _ => .bind (gives_caseBody inner) fun body isGood => .skip fun _ => .pure ?_
    rintro _ ⟨⟩
    exact isGood
  · exact .pure nofun

variable (other : ∀ stmt : Stmt, stmt.target? = none → good stmt)

include other

/-- A statement without a target is good everywhere when those in its blocks are. -/
theorem everywhere_of_blocks {stmt : Stmt}
    (noTarget : stmt.target? = none)
    (blocks : ∀ block ∈ stmt.blocks, ∀ inner ∈ block.1, inner.Everywhere good) :
    stmt.Everywhere good :=
  Stmt.everywhere_iff.2 ⟨other stmt noTarget, blocks⟩

theorem everywhere_plain {stmt : Stmt}
    (noTarget : stmt.target? = none) (noBlocks : stmt.blocks = []) :
    stmt.Everywhere good :=
  everywhere_of_blocks other noTarget (by rw [noBlocks]; exact nofun)

theorem gives_loop (inner : GivesBody good body) :
    Gives (loop g body) (Stmt.Everywhere good) := by
  refine .skip fun _ => .skip fun _ => .bind inner fun body areGood => .skip fun _ => .pure ?_
  apply everywhere_of_blocks other rfl
  intro block mem
  obtain rfl := List.mem_singleton.1 mem
  exact areGood

theorem gives_branch (inner : GivesBody good body) :
    Gives (branch g body) (Stmt.Everywhere good) := by
  refine .skip fun _ => .bind (gives_arm inner) fun first firstGood => ?_
  refine .bind (gives_repeatWhile (.skip fun _ => .skip fun _ => gives_arm inner) _)
    fun others othersGood => .skip fun hasLast => ?_
  have whole {otherwise : List Stmt} (lastGood : ∀ stmt ∈ otherwise, stmt.Everywhere good)
      (span : Span) : (Stmt.branch first others otherwise span).Everywhere good := by
    apply everywhere_of_blocks other rfl
    simp only [Stmt.blocks, List.forall_mem_map, List.forall_mem_append, List.forall_mem_cons]
    exact ⟨⟨firstGood, othersGood⟩, lastGood, nofun⟩
  dsimp only
  split
  · exact .bind inner fun otherwise lastGood => .skip fun span => .pure (whole lastGood span)
  · rw [pure_bind]
    exact .skip fun span => .pure (@whole [] nofun span)

theorem gives_select (inner : GivesBody good body) :
    Gives (select g body) (Stmt.Everywhere good) := by
  refine .skip fun _ => .skip fun _ => .skip fun _ => ?_
  refine .bind (gives_repeatWhile (gives_case inner) _) fun cases casesGood => ?_
  refine .bind (gives_lastCase inner) fun otherwise lastGood => .skip fun _ => ?_
  refine .skip fun _ => .pure (everywhere_of_blocks other rfl ?_)
  simp only [Stmt.blocks, List.forall_mem_map, List.forall_mem_filterMap, List.forall_mem_append]
  exact ⟨casesGood, fun body mem => lastGood body (Option.mem_toList.1 mem)⟩

theorem gives_returnWith : Gives (returnWith g) (Stmt.Everywhere good) := by
  have whole (value : Option Expr) (start : Position) :
      Gives (do
        let _ ← expect .semicolon
        return .returnWith value (← spanFrom start)) (Stmt.Everywhere good) :=
    .skip fun _ => .skip fun _ => .pure (everywhere_plain other rfl rfl)
  refine .skip fun _ => .skip fun kind => ?_
  dsimp only
  split
  · exact .skip fun value => whole value _
  · exact .skip fun value => whole value _

theorem gives_declaration (isMutable : Bool) (type : Name) (start : Position) :
    Gives (declaration g isMutable type start) (Stmt.Everywhere good) :=
  .skip fun _ => .skip fun _ => .skip fun _ => .skip fun _ => .skip fun _ => .skip fun _ =>
    .pure (everywhere_plain other rfl rfl)

theorem gives_control {build : Span → Stmt}
    (noTarget : ∀ span, (build span).target? = none)
    (noBlocks : ∀ span, (build span).blocks = []) :
    Gives (control build) (Stmt.Everywhere good) :=
  .skip fun _ => .skip fun _ => .skip fun span =>
    .pure (everywhere_plain other (noTarget span) (noBlocks span))

theorem gives_formStmt (inner : GivesBody good body) (form : StmtForm) :
    Gives (formStmt g body form) (Stmt.Everywhere good) := by
  cases form with
  | loop => exact gives_loop other inner
  | branch => exact gives_branch other inner
  | returnWith => exact gives_returnWith other
  | select => exact gives_select other inner
  | breakLoop => exact gives_control other (fun _ => rfl) fun _ => rfl
  | continueLoop => exact gives_control other (fun _ => rfl) fun _ => rfl
  | declareMutable => exact .skip fun _ => .skip fun type => gives_declaration other true type _

variable (simple : Gives (simple g) (Stmt.Everywhere good))

include simple

theorem gives_stmtUpTo (n : Nat) : Gives (stmtUpTo g n) (Stmt.Everywhere good) := by
  induction n with
  | zero => exact .halt
  | succ n ih =>
    have block : GivesBody good (blockOf (stmtUpTo g n)) :=
      .skip fun _ => .bind (gives_repeatWhile ih _) fun _ areGood => .skip fun _ => .pure areGood
    refine .skip fun kind => ?_
    split
    · exact gives_formStmt other block _
    · exact simple

/-- **What holds of statements that begin with an expression**, and of all others that have no
target, holds of every statement of a block. -/
theorem gives_block : Gives (block g) fun body => ∀ stmt ∈ statements body, good stmt := by
  have each : Gives (stmt g) (Stmt.Everywhere good) :=
    .skip fun _ => gives_stmtUpTo other simple _
  refine .skip fun _ => .bind (gives_repeatWhile each _) fun body areGood => .skip fun _ => ?_
  exact .pure (forall_statements_iff.2 areGood)

theorem gives_decl : Gives (decl g) fun d => ∀ stmt ∈ d.statements, good stmt := by
  refine .skip fun kind => ?_
  split
  · exact .map .any fun _ _ => nofun
  · have function : Gives (function g) fun d => ∀ stmt ∈ statements d.body, good stmt :=
      .skip fun _ => .skip fun _ => .skip fun _ => .skip fun _ => .skip fun _ => .skip fun _ =>
        .skip fun _ => .bind (gives_block other simple) fun _ areGood => .skip fun _ => .pure areGood
    exact .map function fun _ areGood => areGood
  · exact .map .any fun _ _ => nofun
  · exact .map .any fun _ _ => nofun
  · exact .map .any fun _ _ => nofun
  · exact .skip fun _ => .halt

theorem gives_item {sofar : Contents}
    (areGood : ∀ d ∈ sofar.declarations, ∀ stmt ∈ d.statements, good stmt) :
    Gives (item g sofar) fun contents =>
      ∀ d ∈ contents.declarations, ∀ stmt ∈ d.statements, good stmt := by
  refine .skip fun kind => ?_
  split
  · exact .skip fun _ => .pure areGood
  · split
    · exact .skip fun _ => .halt
    · exact .skip fun _ => .pure areGood
  · refine .bind (gives_decl other simple) fun d isGood => .pure ?_
    rw [List.forall_mem_append, List.forall_mem_singleton]
    exact ⟨areGood, isGood⟩

/-- **What holds of statements that begin with an expression**, and of all others that have no
target, holds of every statement of a file. -/
theorem gives_statements :
    Gives (file g) fun file => ∀ d ∈ file.declarations, ∀ stmt ∈ d.statements, good stmt :=
  .bind (gives_growWhile (fun _ areGood => gives_item other simple areGood) _ nofun)
    fun _ areGood => .skip fun _ => .pure areGood

end Statements

end Parse

/-! ## What a statement repeats -/

/-- **A compound assignment**: the value is an operation on the target itself. -/
def Stmt.IsCompound (target : Expr) (stmt : Stmt) : Prop :=
  ∃ operator right span, stmt = .assign target (.operation operator target right) span

/-- A statement repeats numbers only where it is a compound assignment. -/
def Stmt.CopiesTarget (stmt : Stmt) : Prop :=
  stmt.copiedIds ≠ [] → ∃ target, stmt.IsCompound target

theorem Stmt.copiesTarget_of_target?_eq_none {stmt : Stmt} (noTarget : stmt.target? = none) :
    stmt.CopiesTarget := by
  cases stmt with
  | assign target value span => cases noTarget
  | _ => exact absurd rfl

/-- A compound assignment repeats the numbers of its target. -/
theorem Stmt.IsCompound.copiedIds_eq {target : Expr} {stmt : Stmt} (h : stmt.IsCompound target) :
    stmt.copiedIds = target.ids := by
  obtain ⟨operator, right, span, rfl⟩ := h
  exact if_pos rfl

namespace Parse

variable {g : Grammar}

/-- The two sides of a plain assignment have no number in common, for the right side is numbered from
where the left one ended. -/
theorem copiesTarget_assignment {target : Expr} {start : Position} {c c' : Cursor} {stmt : Stmt}
    (below : ∀ id ∈ target.ids, id < c.nextId) (run : assignment g target start c = .ok stmt c') :
    stmt.Everywhere Stmt.CopiesTarget := by
  unfold assignment at run
  obtain ⟨k, here, looked, run⟩ := bind_eq_ok.1 run
  cases looked
  cases assigns : assignedValue? c.kind with
  | none =>
    rw [assigns] at run
    obtain ⟨_, _, -, run⟩ := bind_eq_ok.1 run
    obtain ⟨_, _, -, run⟩ := bind_eq_ok.1 run
    obtain ⟨rfl, -⟩ := pure_eq_ok.1 run
    exact Stmt.everywhere_iff.2 ⟨absurd rfl, nofun⟩
  | some assigned =>
    rw [assigns] at run
    dsimp only at run
    split at run
    · obtain ⟨token, behind, advanced, run⟩ := bind_eq_ok.1 run
      cases advanced
      obtain ⟨value, _, valueRun, run⟩ := bind_eq_ok.1 run
      obtain ⟨_, _, -, run⟩ := bind_eq_ok.1 run
      obtain ⟨span, _, -, run⟩ := bind_eq_ok.1 run
      obtain ⟨rfl, -⟩ := pure_eq_ok.1 run
      refine Stmt.everywhere_iff.2 ⟨?_, nofun⟩
      rcases assignedValue?_cases assigns with ⟨-, rfl⟩ | ⟨-, operator, rfl⟩
      · refine fun copies => absurd (Expr.copied_eq_nil fun id inTarget inValue => ?_) copies
        have above := ((numbers_expr .loosest valueRun (.none _)).mem_iff.1 inValue).1
        rw [nextId_next] at above
        exact absurd (below id inTarget) (Nat.not_lt.2 above)
      · exact fun _ => ⟨target, operator, value, span, rfl⟩
    · exact absurd run throw_ne_ok

theorem gives_simple : Gives (simple g) (Stmt.Everywhere Stmt.CopiesTarget) := by
  have plain (stmt : Stmt) : stmt.target? = none → stmt.CopiesTarget :=
    Stmt.copiesTarget_of_target?_eq_none
  refine .of_runs fun c stmt c' run => ?_
  obtain ⟨start, _, looked, run⟩ := bind_eq_ok.1 run
  cases looked
  obtain ⟨first, between, firstRun, run⟩ := bind_eq_ok.1 run
  have below : ∀ id ∈ first.ids, id < between.nextId := fun id mem =>
    ((numbers_expr .loosest firstRun (.none _)).mem_iff.1 mem).2
  rw [get_bind] at run
  split at run
  · split at run
    next text span =>
      obtain ⟨id, _, -, run⟩ := bind_eq_ok.1 run
      exact (gives_declaration plain _ _ _).of_eq_ok run
    next type => exact (gives_declaration plain _ _ _).of_eq_ok run
    next => exact copiesTarget_assignment below run
  · exact copiesTarget_assignment below run

end Parse

/-- **Every statement of a parsed file** repeats numbers only where it is a compound assignment. -/
theorem File.copiesTarget_ofTokens {tokens : List Token} {firstId nextId : Nat} {file : File}
    (parsed : File.ofTokens tokens firstId = .ok (file, nextId)) :
    ∀ d ∈ file.declarations, ∀ stmt ∈ d.statements, stmt.CopiesTarget := by
  obtain ⟨c, run, -⟩ := File.ofTokens_eq_ok_iff.1 parsed
  exact (Parse.gives_statements (fun _ => Stmt.copiesTarget_of_target?_eq_none)
    Parse.gives_simple).of_eq_ok run

end FrontEnd

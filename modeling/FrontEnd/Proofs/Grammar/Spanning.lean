import FrontEnd.Proofs.Grammar.Confining
import FrontEnd.Proofs.Grammar.Judging
import FrontEnd.Proofs.Grammar.Placing
import FrontEnd.Proofs.Program.Place

/-!
# Declarations and statements span what they are read from

The end of a span is where the cursor has arrived, so it is the end of the token that was taken
last. Every declaration and every statement is closed just then: by a semicolon, by a brace, or by a
block, which ends with a brace itself (`Cursor.Shut`). Its span reaches from the token that it
begins with to that one.

What stands in it was read on the way: the statements of a block one behind the other (`Row`), a
structure inside another somewhere in between. That is said of the cursors, with the runs that read
them, so that all that is known of such runs applies at every depth.

The rules are those of postconditions (`Parse.Delivers`): an action may use what the one before it
left, and an action of which nothing but its moving on matters is passed.
-/

namespace FrontEnd

open Token

namespace Cursor

variable {c : Cursor}

/-- **The token that was taken last** may be the last one of a declaration. -/
def Shut (c : Cursor) : Prop :=
  ∃ last others, c.behind = last :: others ∧ last.kind.isFinal = true

theorem Shut.behind_ne_nil (shut : c.Shut) : c.behind ≠ [] := by
  obtain ⟨last, others, isBehind, -⟩ := shut
  rw [isBehind]
  exact List.cons_ne_nil _ _

theorem shut_next (more : c.ahead ≠ []) (final : c.kind.isFinal = true) : c.next.Shut := by
  obtain ⟨behind, current, ahead, nextId, file⟩ := c
  cases ahead with
  | nil => exact absurd rfl more
  | cons token rest => exact ⟨current, behind, rfl, final⟩

end Cursor

/-! ## Things read on the way -/

section Ways

variable {α : Type}

/-- **Things read one behind the other** on the way from a cursor to another. -/
inductive Row (run : Cursor → α → Cursor → Prop) : Cursor → List α → Cursor → Prop
  | none {c c' : Cursor} : c.Walks c' → Row run c [] c'
  | more {c first behind c' : Cursor} {value : α} {rest : List α} : c.Walks first →
    run first value behind → first.Walks behind → Row run behind rest c' →
    Row run c (value :: rest) c'

/-- **Something read on the way** from a cursor to another. -/
def Between (run : Cursor → α → Cursor → Prop) (c : Cursor) (value : α) (c' : Cursor) : Prop :=
  ∃ first behind, c.Walks first ∧ run first value behind ∧ first.Walks behind ∧ behind.Walks c'

variable {run : Cursor → α → Cursor → Prop} {c s c' last : Cursor} {value : α} {values : List α}

theorem Between.before (walks : s.Walks c) (between : Between run c value c') :
    Between run s value c' := by
  obtain ⟨first, behind, walksFirst, isRun, taken, walksOn⟩ := between
  exact ⟨first, behind, walks.trans walksFirst, isRun, taken, walksOn⟩

theorem Between.behind (between : Between run c value c') (walks : c'.Walks last) :
    Between run c value last := by
  obtain ⟨first, behind, walksFirst, isRun, taken, walksOn⟩ := between
  exact ⟨first, behind, walksFirst, isRun, taken, walksOn.trans walks⟩

theorem Row.before (walks : s.Walks c) (row : Row run c values c') : Row run s values c' := by
  cases row with
  | none walksOn => exact .none (walks.trans walksOn)
  | more walksFirst isRun taken rest => exact .more (walks.trans walksFirst) isRun taken rest

theorem Row.behind (row : Row run c values c') (walks : c'.Walks last) :
    Row run c values last := by
  induction row with
  | none walksOn => exact .none (walksOn.trans walks)
  | more walksFirst isRun taken rest ih => exact .more walksFirst isRun taken (ih walks)

theorem Row.walks (row : Row run c values c') : c.Walks c' := by
  induction row with
  | none walks => exact walks
  | more walksFirst isRun taken rest ih => exact (walksFirst.trans taken).trans ih

/-- **Rows read on the way** from a cursor to another, in whatever order. -/
def Rows (run : Cursor → α → Cursor → Prop) (c : Cursor) (rows : List (List α)) (c' : Cursor) :
    Prop :=
  ∀ values ∈ rows, Row run c values c'

theorem Rows.behind {rows : List (List α)} (areRows : Rows run c rows c') (walks : c'.Walks last) :
    Rows run c rows last :=
  fun values mem => (areRows values mem).behind walks

theorem Rows.append {rows further : List (List α)} (areRows : Rows run c rows c')
    (areFurther : Rows run c further c') : Rows run c (rows ++ further) c' :=
  List.forall_mem_append.2 ⟨areRows, areFurther⟩

theorem Rows.single (row : Row run c values c') : Rows run c [values] c' :=
  List.forall_mem_singleton.2 row

theorem Row.between (row : Row run c values c') : ∀ value ∈ values, Between run c value c' := by
  induction row with
  | none walks => exact nofun
  | @more c first behind c' value rest walksFirst isRun taken row ih =>
    refine List.forall_mem_cons.2 ⟨⟨first, behind, walksFirst, isRun, taken, row.walks⟩, ?_⟩
    exact fun other mem => (ih other mem).before (walksFirst.trans taken)

/-- The rows of things that were read one behind the other. -/
theorem Row.rows {β : Type} {rowsOf : β → List (List α)} {things : List β}
    (row : Row (fun c thing c' => Rows run c (rowsOf thing) c') c things c') :
    Rows run c (things.flatMap rowsOf) c' := by
  intro values mem
  obtain ⟨thing, isThing, mem⟩ := List.mem_flatMap.1 mem
  obtain ⟨first, behind, walks, areRows, -, walksOn⟩ := row.between thing isThing
  exact ((areRows values mem).before walks).behind walksOn

end Ways

/-- **The ground on the way** from a cursor over tokens that end, where runs move on. -/
def Ground.onTheWay (s : Cursor) : Ground where
  holds c := s.Ends ∧ s.Walks c
  leads := Cursor.Walks
  stops _ _ := True
  refl _ := .refl
  trans := .trans

instance (s : Cursor) : (Ground.onTheWay s).Lenient where
  stops _ _ := trivial

namespace Parse

/-- **What an action delivers is good**: where it ends well, on the way from a cursor over tokens
that end, it has moved on, and what is asked of its value and the place that it has arrived at is
so. -/
def Delivers {α : Type} (s : Cursor) (action : Parse α) (good : α → Cursor → Prop) (c : Cursor) :
    Prop :=
  Meets (.onTheWay s) action good c

namespace Delivers

variable {α β : Type} {s c c' : Cursor} {action : Parse α} {good : α → Cursor → Prop}
  {final : β → Cursor → Prop}

theorem of_runs (runs : s.Ends → s.Walks c → ∀ value c', action c = .ok value c' →
    c.Walks c' ∧ good value c') : Delivers s action good c := by
  refine Meets.of_runs fun ⟨ends, walks⟩ value c' run => ?_
  obtain ⟨walksOn, isGood⟩ := runs ends walks value c' run
  exact ⟨⟨ends, walks.trans walksOn⟩, walksOn, isGood⟩

/-- **A run that ends well** has moved on and gives what is good. -/
theorem of_eq_ok {value : α} (delivers : Delivers s action good c) (ends : s.Ends)
    (walks : s.Walks c) (run : action c = .ok value c') : c.Walks c' ∧ good value c' :=
  (Meets.of_eq_ok delivers ⟨ends, walks⟩ run).2

/-- An action that moves on. -/
theorem moved (moves : Moves action 0 c) : Delivers s action (fun _ _ => True) c :=
  of_runs fun ends walks _ _ run => ⟨(moves.of_eq_ok (walks.ends ends) run).1, trivial⟩

/-- An action whose value does not matter is passed. -/
theorem passing {next : α → Parse β} (passed : Moves action 0 c)
    (behind : ∀ value c', c.Walks c' → Delivers s (next value) final c') :
    Delivers s (action >>= next) final c :=
  .onward (moved passed) fun value c' walks _ => behind value c' walks

/-- A token is passed, whatever it is. -/
theorem step {next : Token → Parse β} (notEnd : c.kind ≠ .eof)
    (behind : c.ahead ≠ [] → Delivers s (next c.current) final c.next) :
    Delivers s (Parse.advance >>= next) final c := by
  have stepped : c.Walks c.next := .single (.token notEnd)
  refine .token (fun ⟨ends, walks⟩ => ⟨ends, walks.trans stepped⟩) stepped fun ⟨ends, walks⟩ => ?_
  exact behind ((walks.ends ends).ahead_ne_nil notEnd)

/-- The way to the cursor may be used. -/
theorem known (here : s.Walks c → Delivers s action good c) : Delivers s action good c :=
  Meets.known fun holds => here holds.2

/-- What is read on the way from the own start is read on the way from any place before it. -/
theorem along (here : Delivers c action good c) : Delivers s action good c :=
  of_runs fun ends walks _ _ run => here.of_eq_ok (walks.ends ends) .refl run

end Delivers

open Delivers (moved passing step)

variable {α : Type} {s c : Cursor} {good : α → Cursor → Prop}

/-! ## Single tokens and repetition -/

/-- A token that may be the last one of a declaration is taken. -/
theorem delivers_expect {k : Kind} (final : k.isFinal = true) :
    Delivers s (expect k) (fun _ c' => c'.Shut) c := by
  have notEnd : k ≠ .eof := by
    rintro rfl
    cases final
  refine .look (.ite (fun here => ?_) fun _ => .look .halt)
  rw [← bind_pure advance]
  exact step (here ▸ notEnd) fun more => .pure (Cursor.shut_next more (here ▸ final))

/-- A token that does not follow leaves the cursor in its place. -/
theorem delivers_consume {k : Kind} (notEnd : k ≠ .eof) :
    Delivers s (consume k) (fun taken c' => taken = false → c' = c) c := by
  refine .look (.ite (fun here => ?_) fun _ => .pure fun _ => rfl)
  exact step (here ▸ notEnd) fun _ => .pure nofun

/-- **What ends with a token spans all up to it.** -/
theorem delivers_closing (k : Kind) (final : k.isFinal = true) {build : Span → α} {start : Position}
    (isGood : ∀ c', c.Walks c' → c'.Shut → good (build ⟨start, c'.reached⟩) c') :
    Delivers s (do let _ ← expect k; return build (← spanFrom start)) good c :=
  .onward (delivers_expect final) fun _ c' walks shut => .close (.pure (isGood c' walks shut))

/-- **A repeated action reads a row**, and keeps what each turn keeps of the place of the cursor. -/
theorem delivers_repeatWhile_keeping {item : Parse α} {holds : Cursor → Bool}
    {run : Cursor → α → Cursor → Prop} {keeps : Cursor → Prop}
    (each : ∀ c, holds c = true → keeps c → Delivers c item (fun x c' => run c x c' ∧ keeps c') c)
    (isKept : keeps c) :
    Delivers s (repeatWhile holds item) (fun values c' => Row run s values c' ∧ keeps c') c := by
  have rows : Delivers s (repeatWhile holds item)
      (fun values c' => Row run c values c' ∧ keeps c') c := by
    refine .look (.repeatUpTo keeps (fun c values c' => Row run c values c' ∧ keeps c')
      (fun _ _ => trivial) (fun c kept => ⟨.none .refl, kept⟩) (fun c kept goesOn => ?_) _ isKept)
    refine (each c goesOn kept).along.led.weaken fun x c' ⟨taken, isRun, keptThen⟩ => ?_
    exact ⟨keptThen, fun rest last ⟨row, keptLast⟩ => ⟨.more .refl isRun taken row, keptLast⟩⟩
  exact .known fun walks => rows.weaken fun _ _ ⟨row, kept⟩ => ⟨row.before walks, kept⟩

theorem delivers_repeatWhile {item : Parse α} {holds : Cursor → Bool}
    {run : Cursor → α → Cursor → Prop}
    (each : ∀ c, holds c = true → Delivers c item (run c) c) :
    Delivers s (repeatWhile holds item) (Row run s) c :=
  .weaken (delivers_repeatWhile_keeping
    (fun c goesOn (_ : True) => (each c goesOn).weaken fun _ _ isRun => ⟨isRun, trivial⟩) trivial)
    fun _ _ isRow => isRow.1

/-- An action that grows a value keeps it good when each step does. -/
theorem delivers_growWhile {step : α → Parse α} {holds : Cursor → Bool} {value : α}
    (each : ∀ value c, s.Walks c → good value c → Delivers s (step value) good c)
    (isGood : good value c) : Delivers s (growWhile holds step value) good c :=
  .growWhile (fun _ _ => trivial)
    (fun value c _ isGood => Delivers.known fun walks => each value c walks isGood) isGood

end Parse

/-! ## Statements -/

/-- **A run that reads a statement**, however deep its blocks may nest. -/
def StmtRun (g : Grammar) (c : Cursor) (stmt : Stmt) (c' : Cursor) : Prop :=
  ∃ n, Parse.stmtUpTo g n c = .ok stmt c'

/-- **What a statement is that was read** from a cursor to another: it spans all in between, and the
statements of its blocks were read on the way. -/
structure Stmt.ReadFrom (g : Grammar) (c : Cursor) (stmt : Stmt) (c' : Cursor) : Prop where
  span : stmt.span = ⟨c.here, c'.reached⟩
  shut : c'.Shut
  blocks : Rows (StmtRun g) c (stmt.blocks.map Prod.fst) c'

namespace Parse

open Delivers (moved passing step)

variable {g : Grammar} {s c : Cursor}

theorem delivers_declaration (ends : g.LeavesEnd) (isMutable : Bool) (type : Name) :
    Delivers s (declaration g isMutable type s.here) (Stmt.ReadFrom g s) c := by
  refine passing moves_arrayMark fun _ _ _ => passing (moves_further nofun) fun _ _ _ => ?_
  refine passing (moves_further nofun) fun _ _ _ => passing (moves_expr ends _).weaken fun _ _ _ => ?_
  exact delivers_closing .semicolon rfl fun _ _ shut => ⟨rfl, shut, nofun⟩

theorem delivers_assignment (ends : g.LeavesEnd) (target : Expr) :
    Delivers s (assignment g target s.here) (Stmt.ReadFrom g s) c := by
  refine .onKind ?_
  split
  · exact delivers_closing .semicolon rfl fun _ _ shut => ⟨rfl, shut, nofun⟩
  next assigned assigns =>
    split
    · refine step (ne_eof_of_some rfl assigns) fun _ => ?_
      refine passing (moves_expr ends _).weaken fun _ _ _ => ?_
      exact delivers_closing .semicolon rfl fun _ _ shut => ⟨rfl, shut, nofun⟩
    · exact .halt

theorem delivers_simple (ends : g.LeavesEnd) : Delivers c (simple g) (Stmt.ReadFrom g c) c := by
  refine .start (passing (moves_expr ends _).weaken fun first _ _ => .look ?_)
  split
  · split
    · exact passing moves_freshId fun id _ _ => delivers_declaration ends _ _
    · exact delivers_declaration ends _ _
    · exact delivers_assignment ends _
  · exact delivers_assignment ends _

theorem delivers_returnWith (ends : g.LeavesEnd) (notEnd : c.kind ≠ .eof) :
    Delivers c (returnWith g) (Stmt.ReadFrom g c) c := by
  refine step notEnd fun _ => .onKind ?_
  dsimp only
  split
  · rw [pure_bind]
    exact delivers_closing .semicolon rfl fun _ _ shut => ⟨rfl, shut, nofun⟩
  · refine passing ((moves_expr ends _).map _).weaken fun _ _ _ => ?_
    exact delivers_closing .semicolon rfl fun _ _ shut => ⟨rfl, shut, nofun⟩

theorem delivers_control (notEnd : c.kind ≠ .eof) {build : Span → Stmt}
    (spans : ∀ span, (build span).span = span) (noBlocks : ∀ span, (build span).blocks = []) :
    Delivers c (control build) (Stmt.ReadFrom g c) c := by
  refine step notEnd fun _ => delivers_closing .semicolon rfl fun _ _ shut => ⟨spans _, shut, ?_⟩
  rw [noBlocks]
  exact nofun

theorem delivers_declareMutable (ends : g.LeavesEnd) (notEnd : c.kind ≠ .eof) :
    Delivers c (declareMutable g) (Stmt.ReadFrom g c) c :=
  step notEnd fun _ => passing moves_name.weaken fun _ _ _ => delivers_declaration ends _ _

section Blocks

variable {block : Parse (List Stmt)}
  (inner : ∀ s c, Delivers s block (fun body c' => Row (StmtRun g) s body c' ∧ c'.Shut) c)

include inner

theorem delivers_loop (ends : g.LeavesEnd) (notEnd : c.kind ≠ .eof) :
    Delivers c (loop g block) (Stmt.ReadFrom g c) c :=
  step notEnd fun _ => passing (moves_condition ends).weaken fun _ _ _ =>
    .onward (inner c _) fun _ _ _ isBody => .close (.pure ⟨rfl, isBody.2, .single isBody.1⟩)

theorem delivers_arm (ends : g.LeavesEnd) : Delivers s (arm g block)
    (fun arm c' => Row (StmtRun g) s arm.body c' ∧ c'.Shut) c :=
  passing (moves_condition ends).weaken fun _ _ _ =>
    .onward (inner s _) fun _ _ _ isBody => .pure isBody

/-- The arms behind the first end with their blocks. -/
theorem delivers_furtherArms (ends : g.LeavesEnd) (shut : c.Shut) : Delivers s
    (repeatWhile (fun c => c.kind = .elseWord && c.peek 1 = .ifWord) do
      let _ ← advance
      let _ ← advance
      arm g block)
    (fun arms c' => Rows (StmtRun g) s (arms.map Arm.body) c' ∧ c'.Shut) c := by
  have each (c : Cursor)
      (elseIf : (decide (c.kind = .elseWord) && decide (c.peek 1 = .ifWord)) = true) :
      Delivers c (do let _ ← advance; let _ ← advance; arm g block)
        (fun arm c' => Rows (StmtRun g) c [arm.body] c' ∧ c'.Shut) c := by
    obtain ⟨isElse, isIf⟩ : c.kind = .elseWord ∧ c.peek 1 = .ifWord := by simpa using elseIf
    refine step (by rw [isElse]; nofun) fun more => ?_
    refine step (by rw [Cursor.kind_next more, isIf]; nofun) fun _ => ?_
    exact (delivers_arm inner ends).weaken fun _ _ isArm => ⟨.single isArm.1, isArm.2⟩
  refine .weaken (delivers_repeatWhile_keeping (fun c elseIf _ => each c elseIf) shut)
    fun arms c' isRow => ⟨?_, isRow.2⟩
  rw [List.map_eq_flatMap]
  exact isRow.1.rows

theorem delivers_branch (ends : g.LeavesEnd) (notEnd : c.kind ≠ .eof) :
    Delivers c (branch g block) (Stmt.ReadFrom g c) c := by
  refine step notEnd fun _ => .onward (delivers_arm inner ends) fun first c₁ _ isFirst => ?_
  refine .onward (delivers_furtherArms inner ends isFirst.2)
    fun others c₂ walksOthers areOthers => ?_
  have arms : Rows (StmtRun g) c (first.body :: others.map Arm.body) c₂ :=
    List.forall_mem_cons.2 ⟨isFirst.1.behind walksOthers, areOthers.1⟩
  have whole {otherwise : List Stmt} {c₃ : Cursor} (walks : c₂.Walks c₃)
      (isLast : Row (StmtRun g) c otherwise c₃) (shut : c₃.Shut) :
      Delivers c (do return .branch first others otherwise (← spanFrom c.here))
        (Stmt.ReadFrom g c) c₃ := by
    refine .close (.pure ⟨rfl, shut, ?_⟩)
    have rows := (arms.behind walks).append (.single isLast)
    simpa [Stmt.blocks, Function.comp_def] using rows
  refine .onward (delivers_consume nofun) fun follows c₃ walks stays => ?_
  dsimp only
  split
  · exact .onward (inner c _) fun otherwise _ walksOn isLast =>
      whole (walks.trans walksOn) isLast.1 isLast.2
  next none =>
    obtain rfl := stays (Bool.eq_false_iff.2 none)
    rw [pure_bind]
    exact whole .refl (.none (arms _ (List.mem_cons_self ..)).walks) areOthers.2

theorem delivers_caseBody (ends : g.LeavesEnd) : Delivers s (caseBody g block)
    (fun body c' => Rows (StmtRun g) s body.block?.toList c') c := by
  refine .onKind ?_
  split
  · exact .map (inner s c) fun _ _ isBody => .single isBody.1
  · exact .map (moved (moves_expr ends _).weaken) fun _ _ _ => nofun

theorem delivers_case (ends : g.LeavesEnd) : Delivers s (case g block)
    (fun case c' => Rows (StmtRun g) s case.body.block?.toList c') c := by
  refine passing (moves_expr ends _).weaken fun _ _ _ => passing (moves_further nofun) fun _ _ _ => ?_
  refine .onward (delivers_caseBody inner ends) fun body c' _ areRows => ?_
  exact passing (moves_separator _) fun _ _ walks => .pure (areRows.behind walks)

theorem delivers_lastCase (ends : g.LeavesEnd) : Delivers s (lastCase g block)
    (fun last c' => Rows (StmtRun g) s (last.toList.filterMap CaseBody.block?) c') c := by
  refine passing (moves_consume nofun) fun follows _ _ => ?_
  split
  · refine passing (moves_further nofun) fun _ _ _ => ?_
    refine .onward (delivers_caseBody inner ends) fun body c' _ areRows => ?_
    refine passing (moves_separator _) fun _ _ walks => .pure ?_
    have rows := areRows.behind walks
    rwa [List.filterMap_eq_flatMap_toList, Option.toList_some, List.flatMap_singleton]
  · exact .pure nofun

theorem delivers_select (ends : g.LeavesEnd) (notEnd : c.kind ≠ .eof) :
    Delivers c (select g block) (Stmt.ReadFrom g c) c := by
  refine step notEnd fun _ => passing (moves_condition ends).weaken fun subject _ _ => ?_
  refine passing (moves_further nofun) fun _ _ _ => ?_
  refine .onward (delivers_repeatWhile fun c _ => delivers_case inner ends)
    fun cases c₁ _ isRow => ?_
  refine .onward (delivers_lastCase inner ends) fun otherwise c₂ walks isLast => ?_
  refine delivers_closing .closeCurly rfl fun c₃ walksOn shut => ⟨rfl, shut, ?_⟩
  have rows := ((isRow.rows.behind walks).append isLast).behind walksOn
  simpa [Stmt.blocks, Function.comp_def, List.filterMap_eq_flatMap_toList, List.flatMap_map]
    using rows

theorem delivers_formStmt (ends : g.LeavesEnd) (notEnd : c.kind ≠ .eof) (form : StmtForm) :
    Delivers c (formStmt g block form) (Stmt.ReadFrom g c) c := by
  cases form with
  | loop => exact delivers_loop inner ends notEnd
  | branch => exact delivers_branch inner ends notEnd
  | returnWith => exact delivers_returnWith ends notEnd
  | select => exact delivers_select inner ends notEnd
  | breakLoop => exact delivers_control notEnd (fun _ => rfl) fun _ => rfl
  | continueLoop => exact delivers_control notEnd (fun _ => rfl) fun _ => rfl
  | declareMutable => exact delivers_declareMutable ends notEnd

end Blocks

theorem delivers_blockOf {stmt : Parse Stmt} (each : ∀ c, Delivers c stmt (StmtRun g c) c)
    (s c : Cursor) :
    Delivers s (blockOf stmt) (fun body c' => Row (StmtRun g) s body c' ∧ c'.Shut) c := by
  refine passing (moves_further nofun) fun _ _ _ => ?_
  refine .onward (delivers_repeatWhile fun c _ => each c) fun body _ _ row => ?_
  exact .onward (delivers_expect rfl) fun _ _ walks shut => .pure ⟨row.behind walks, shut⟩

/-- What a run gives that is known to move on. -/
theorem delivers_self {action : Parse α} (delivers : Delivers c action good c) :
    Delivers c action (fun value c' => action c = .ok value c') c :=
  .of_runs fun ends walks _ _ run => ⟨(delivers.of_eq_ok ends walks run).1, run⟩

/-- **A statement spans what it is read from**, and its blocks were read on the way. -/
theorem delivers_stmtUpTo (ends : g.LeavesEnd) (n : Nat) (c : Cursor) :
    Delivers c (stmtUpTo g n) (Stmt.ReadFrom g c) c := by
  induction n generalizing c with
  | zero => exact .halt
  | succ n ih =>
    refine .onKind ?_
    split
    next form found =>
      have inner := delivers_blockOf fun c => (delivers_self (ih c)).weaken fun _ _ run => ⟨n, run⟩
      exact delivers_formStmt inner ends (ne_eof_of_some ends.stmt found) form
    next => exact delivers_simple ends

theorem delivers_block (ends : g.LeavesEnd) (s c : Cursor) :
    Delivers s (block g) (fun body c' => Row (StmtRun g) s body c' ∧ c'.Shut) c :=
  delivers_blockOf (fun c => .look ((delivers_self (delivers_stmtUpTo ends _ c)).weaken
    fun _ _ run => ⟨_, run⟩)) s c

end Parse

/-- **A statement that was read is one that spans what it is read from.** -/
theorem StmtRun.readFrom {g : Grammar} {c c' : Cursor} {stmt : Stmt} (leaves : g.LeavesEnd)
    (run : StmtRun g c stmt c') (ends : c.Ends) : c.Walks c' ∧ stmt.ReadFrom g c c' := by
  obtain ⟨n, run⟩ := run
  exact (Parse.delivers_stmtUpTo leaves n c).of_eq_ok ends .refl run

/-! ## Declarations -/

/-- **A run that reads a structure**, however deep it may nest, from a word that begins one. -/
def StructRun (g : Grammar) (c : Cursor) (d : StructDecl) (c' : Cursor) : Prop :=
  (c.kind = .structWord ∨ c.kind = .closedWord) ∧ ∃ n, Parse.structUpTo g n c = .ok d c'

/-- **What a structure is that was read** from a cursor to another: it spans all in between, and the
structures inside it were read on the way. -/
structure StructDecl.ReadFrom (g : Grammar) (c : Cursor) (d : StructDecl) (c' : Cursor) : Prop where
  span : d.span = ⟨c.here, c'.reached⟩
  shut : c'.Shut
  inner : ∀ e ∈ d.inner, Between (StructRun g) c e c'

/-- **What a declaration is that was read** from a cursor to another: it spans all in between, and
the body of a function and the structures inside a structure were read on the way. -/
structure Decl.ReadFrom (g : Grammar) (c : Cursor) (d : Decl) (c' : Cursor) : Prop where
  span : d.span = ⟨c.here, c'.reached⟩
  shut : c'.Shut
  body : ∀ function, d = .function function → Row (StmtRun g) c function.body c'
  inner : ∀ struct, d = .struct struct → ∀ e ∈ struct.inner, Between (StructRun g) c e c'

namespace Parse

open Delivers (moved passing step)

variable {α : Type} {g : Grammar} {s c : Cursor}

theorem delivers_structMember (ends : g.LeavesEnd) {inner : Parse StructDecl}
    (each : Delivers c inner (fun d c' => ∃ n, structUpTo g n c = .ok d c') c) :
    Delivers c (structMember g inner)
      (fun member c' => ∀ d ∈ member.getRight?, StructRun g c d c') c := by
  refine .onKind ?_
  split
  next here =>
    refine .map each fun d c' run => ?_
    rintro _ ⟨⟩
    exact ⟨.inl here, run⟩
  next here =>
    refine .map each fun d c' run => ?_
    rintro _ ⟨⟩
    exact ⟨.inr here, run⟩
  next => exact .map (moved (moves_field ends).weaken) fun _ _ _ => nofun

/-- **A structure spans what it is read from**, and those inside it were read on the way. -/
theorem delivers_structUpTo (ends : g.LeavesEnd) (n : Nat) (c : Cursor) :
    Delivers c (structUpTo g n) (StructDecl.ReadFrom g c) c := by
  induction n generalizing c with
  | zero => exact .halt
  | succ n ih =>
    refine .start (passing (moves_consume nofun) fun isClosed _ _ => ?_)
    refine passing (moves_further nofun) fun _ _ _ => passing (moves_further nofun) fun token _ _ => ?_
    refine passing moves_typeParameters fun parameters _ _ => passing moves_bases fun bases _ _ => ?_
    refine passing (moves_further nofun) fun _ _ _ => ?_
    refine .onward (delivers_repeatWhile fun c _ => delivers_structMember ends
      ((delivers_self (ih c)).weaken fun _ _ run => ⟨n, run⟩)) fun members _ _ row => ?_
    refine delivers_closing .closeCurly rfl fun _ walks shut => ⟨rfl, shut, ?_⟩
    intro e mem
    obtain ⟨member, isMember, isInner⟩ := List.mem_filterMap.1 mem
    obtain ⟨first, behind, walksFirst, run, taken, walksOn⟩ := row.between member isMember
    exact ⟨first, behind, walksFirst, run e isInner, taken, walksOn.trans walks⟩

end Parse

theorem StructRun.readFrom {g : Grammar} {c c' : Cursor} {d : StructDecl} (leaves : g.LeavesEnd)
    (run : StructRun g c d c') (ends : c.Ends) : c.Walks c' ∧ d.ReadFrom g c c' := by
  obtain ⟨-, n, run⟩ := run
  exact (Parse.delivers_structUpTo leaves n c).of_eq_ok ends .refl run

namespace Parse

open Delivers (moved passing step)

variable {α : Type} {g : Grammar} {s c : Cursor}

theorem delivers_function (ends : g.LeavesEnd) : Delivers c (function g)
    (fun d c' => d.span = ⟨c.here, c'.reached⟩ ∧ c'.Shut ∧ Row (StmtRun g) c d.body c') c := by
  refine .start (passing (moves_consume nofun) fun _ _ _ => ?_)
  refine passing (moves_further nofun) fun _ _ _ => ?_
  refine passing moves_typeParameters fun _ _ _ => passing moves_name.weaken fun _ _ _ => ?_
  refine passing moves_inputs fun _ _ _ => passing moves_output fun _ _ _ => ?_
  exact .onward (delivers_block ends c _) fun _ _ _ isBody =>
    .close (.pure ⟨rfl, isBody.2, isBody.1⟩)

theorem delivers_interface (notEnd : c.kind ≠ .eof) : Delivers c interface
    (fun d c' => d.span = ⟨c.here, c'.reached⟩ ∧ c'.Shut) c := by
  refine step notEnd fun _ => passing (moves_further nofun) fun _ _ _ => ?_
  refine passing moves_typeParameters fun _ _ _ => passing (moves_further nofun) fun _ _ _ => ?_
  refine passing (moves_repeatUntil fun _ _ => moves_method) fun _ _ _ => ?_
  exact delivers_closing .closeCurly rfl fun _ _ shut => ⟨rfl, shut⟩

theorem delivers_synonym (notEnd : c.kind ≠ .eof) : Delivers c synonym
    (fun d c' => d.span = ⟨c.here, c'.reached⟩ ∧ c'.Shut) c := by
  refine step notEnd fun _ => passing (moves_further nofun) fun _ _ _ => ?_
  refine passing (moves_further nofun) fun _ _ _ => passing moves_name.weaken fun _ _ _ => ?_
  exact delivers_closing .semicolon rfl fun _ _ shut => ⟨rfl, shut⟩

theorem delivers_enum (notEnd : c.kind ≠ .eof) : Delivers c enum
    (fun d c' => d.span = ⟨c.here, c'.reached⟩ ∧ c'.Shut) c := by
  refine step notEnd fun _ => passing (moves_further nofun) fun _ _ _ => ?_
  refine passing (moves_further nofun) fun _ _ _ => ?_
  refine passing (moves_separated fun _ _ => .first (moves_expect nofun) fun _ _ _ => .pure _)
    fun _ _ _ => ?_
  exact delivers_closing .closeCurly rfl fun _ _ shut => ⟨rfl, shut⟩

/-- **A declaration spans what it is read from**, and what stands in it was read on the way. -/
theorem delivers_decl (ends : g.LeavesEnd) : Delivers c (decl g) (Decl.ReadFrom g c) c := by
  refine .onKind ?_
  split
  next =>
    refine .map (.look (delivers_structUpTo ends _ c)) fun d c' isRead => ?_
    refine ⟨isRead.span, isRead.shut, nofun, ?_⟩
    rintro _ ⟨⟩
    exact isRead.inner
  next =>
    refine .map (delivers_function ends) fun d c' isRead => ⟨isRead.1, isRead.2.1, ?_, nofun⟩
    rintro _ ⟨⟩
    exact isRead.2.2
  next known =>
    exact .map (delivers_interface (ne_eof_of_some ends.decl known)) fun _ _ isRead =>
      ⟨isRead.1, isRead.2, nofun, nofun⟩
  next known =>
    exact .map (delivers_synonym (ne_eof_of_some ends.decl known)) fun _ _ isRead =>
      ⟨isRead.1, isRead.2, nofun, nofun⟩
  next known =>
    exact .map (delivers_enum (ne_eof_of_some ends.decl known)) fun _ _ isRead =>
      ⟨isRead.1, isRead.2, nofun, nofun⟩
  next => exact .look .halt

/-! ## Files -/

/-- The declarations that were read so far. -/
def HasDecls (g : Grammar) (s : Cursor) (declarations : List Decl) (c : Cursor) : Prop :=
  ∀ d ∈ declarations, Between (fun c d c' => decl g c = .ok d c') s d c

theorem delivers_item (ends : g.LeavesEnd) {sofar : Contents} (walks : s.Walks c)
    (haveRead : HasDecls g s sofar.declarations c) :
    Delivers s (item g sofar) (fun contents c' => HasDecls g s contents.declarations c') c := by
  refine .onKind ?_
  split
  next here =>
    exact passing (moves_importPath (by rw [here]; nofun)).weaken fun _ _ walksOn =>
      .pure fun d mem => (haveRead d mem).behind walksOn
  next here =>
    split
    · exact .look .halt
    · exact passing (moves_exports (by rw [here]; nofun)).weaken fun _ _ walksOn =>
        .pure fun d mem => (haveRead d mem).behind walksOn
  next =>
    refine .onward (delivers_self (delivers_decl ends)).along fun d c' walksOn run => .pure ?_
    refine List.forall_mem_append.2 ⟨fun d mem => (haveRead d mem).behind walksOn, ?_⟩
    exact List.forall_mem_singleton.2 ⟨c, c', walks, run, walksOn, .refl⟩

/-- **The declarations of a file were read on the way** through its tokens. -/
theorem delivers_file (ends : g.LeavesEnd) :
    Delivers c (file g) (fun file c' => HasDecls g c file.declarations c') c := by
  refine .onward (delivers_growWhile ?_ nofun) fun contents c' _ haveRead => .look (.pure haveRead)
  exact fun sofar _ walks haveRead => delivers_item ends walks haveRead

end Parse

end FrontEnd

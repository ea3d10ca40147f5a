import FrontEnd.Proofs.Grammar.Alone
import FrontEnd.Proofs.Program.Place
import FrontEnd.Proofs.References

/-!
# Spans are faithful

The span of a declaration or a statement says where it stands in the source, and everything of it
stands there. So the stretch of the source that a span cuts out can be taken alone: it has tokens,
and the parser reads the same declaration or statement from it, up to the numbers of its segments
and the shift of its positions, and takes all of it. The statements of a block have spans that
follow one another, within the span of what holds the block.

What is known of one run (`Parse.reparses_of_run`) is brought to the places in a file at which there
are such runs: those at which the declarations and the statements in them were read, at every depth.

**The law** (`File.spans_faithful`): in a file that was read from a text, every span is faithful.
-/

namespace FrontEnd

/-! ## Cursors over the tokens of a text -/

/-- No token of a text ends before it starts. -/
theorem Token.Covers.start_le_stop {name : String} {text : List Char} {tokens : List Token}
    (covers : Covers name text tokens) :
    ∀ token ∈ tokens, token.span.start.offset ≤ token.span.stop.offset := by
  obtain ⟨front, rfl, extents⟩ := covers.ended
  refine List.forall_mem_append.2 ⟨fun token mem => Nat.le_of_lt (extents token mem).2.2, ?_⟩
  exact List.forall_mem_singleton.2 (Nat.le_refl _)

/-- **A cursor runs over the tokens of a text.** -/
structure Cursor.Over (name text : String) (tokens : List Token) (c : Cursor) : Prop where
  scanned : Token.ofText name text = .ok tokens
  kept : c.tokens = tokens.filter (·.kind ≠ .comment)
  ends : c.Ends

namespace Cursor

variable {name text : String} {tokens : List Token} {c c' : Cursor}

theorem over_ofTokens (scanned : Token.ofText name text = .ok tokens) (firstId : Nat) :
    (ofTokens tokens firstId).Over name text tokens :=
  ⟨scanned, tokens_ofTokens (Token.laid_of_scan scanned).covers firstId,
    ends_ofTokens tokens firstId⟩

theorem Over.after (isOver : c.Over name text tokens) (walks : c.Walks c') :
    c'.Over name text tokens :=
  ⟨isOver.scanned, walks.tokens_eq.trans isOver.kept, walks.ends isOver.ends⟩

theorem Over.ascends (isOver : c.Over name text tokens) : c.Ascends := by
  rw [Ascends, isOver.kept]
  exact (Token.laid_of_scan isOver.scanned).covers.ascends.filter _

/-- The token behind a cursor ends where the cursor stands, or before. -/
theorem Over.reached_le_here (isOver : c.Over name text tokens) (some : c.behind ≠ []) :
    c.reached.offset ≤ c.here.offset := by
  have ordered : c.tokens.Pairwise fun a b => a.span.stop.offset ≤ b.span.start.offset := by
    rw [isOver.kept]
    exact (Token.laid_of_scan isOver.scanned).covers.ordered.filter _
  obtain ⟨last, others, isBehind⟩ := List.exists_cons_of_ne_nil some
  have reached : c.reached = last.span.stop := by
    rw [Cursor.reached, isBehind]
    rfl
  rw [reached]
  refine (List.pairwise_append.1 ordered).2.2 last ?_ c.current List.mem_cons_self
  rw [isBehind]
  exact List.mem_reverse.2 List.mem_cons_self

/-- A token ends behind its start. -/
theorem Over.current_le (isOver : c.Over name text tokens) :
    c.here.offset ≤ c.current.span.stop.offset := by
  have mem : c.current ∈ c.tokens := List.mem_append_right _ List.mem_cons_self
  rw [isOver.kept] at mem
  exact (Token.laid_of_scan isOver.scanned).covers.start_le_stop _ (List.mem_of_mem_filter mem)

/-- **A walk behind a token that was taken goes on** in what it has reached. -/
theorem Walks.reached_le (walks : c.Walks c') (isOver : c.Over name text tokens)
    (some : c.behind ≠ []) : c.reached.offset ≤ c'.reached.offset ∧ c'.behind ≠ [] := by
  induction walks with
  | refl => exact ⟨Nat.le_refl _, some⟩
  | @tail between last walks step ih =>
    obtain ⟨reached, taken⟩ := ih
    cases step with
    | number => exact ⟨reached, taken⟩
    | token notEnd =>
      have overBetween := isOver.after walks
      have further := overBetween.reached_le_here taken
      have extent := overBetween.current_le
      have stepped : between.next.reached = between.current.span.stop ∧
          between.next.behind ≠ [] := by
        have more := overBetween.ends.ahead_ne_nil notEnd
        obtain ⟨behind, current, ahead, nextId, file⟩ := between
        cases ahead with
        | nil => exact absurd rfl more
        | cons token rest => exact ⟨rfl, List.cons_ne_nil _ _⟩
      rw [stepped.1]
      exact ⟨Nat.le_trans reached (Nat.le_trans further extent), stepped.2⟩

end Cursor

/-! ## Spans in order -/

/-- **The statements of a block are in order in a span**: their spans follow one another, within the
span. -/
structure InOrder (span : Span) (body : List Stmt) : Prop where
  apart : body.Pairwise fun a b => a.span.stop.offset ≤ b.span.start.offset
  inside : ∀ stmt ∈ body,
    span.start.offset ≤ stmt.span.start.offset ∧ stmt.span.stop.offset ≤ span.stop.offset

section Runs

variable {g : Grammar} {name text : String} {tokens : List Token} {c c' : Cursor}

/-- **Statements that were read one behind the other are in order.** -/
theorem Row.inOrder {body : List Stmt} (leaves : g.LeavesEnd) (isOver : c.Over name text tokens)
    (row : Row (StmtRun g) c body c') : InOrder ⟨c.here, c'.reached⟩ body := by
  induction row with
  | none => exact ⟨.nil, nofun⟩
  | @more c first behind c' stmt rest walks run taken row ih =>
    have overFirst := isOver.after walks
    have overBehind := overFirst.after taken
    have isRead := (run.readFrom leaves overFirst.ends).2
    have some := isRead.shut.behind_ne_nil
    have later := ih overBehind
    have begins := walks.here_le isOver.ascends
    have passes : first.here.offset ≤ behind.here.offset := taken.here_le overFirst.ascends
    refine ⟨List.pairwise_cons.2 ⟨fun other mem => ?_, later.apart⟩,
      List.forall_mem_cons.2 ⟨?_, fun other mem => ?_⟩⟩
    · rw [isRead.span]
      exact Nat.le_trans (overBehind.reached_le_here some) (later.inside other mem).1
    · rw [isRead.span]
      exact ⟨begins, (row.walks.reached_le overBehind some).1⟩
    · have within := later.inside other mem
      exact ⟨Nat.le_trans (Nat.le_trans begins passes) within.1, within.2⟩

/-- **Every statement of a body was read on the way** through it, at whatever depth. -/
theorem Row.statements {body : List Stmt} (leaves : g.LeavesEnd) (ends : c.Ends)
    (row : Row (StmtRun g) c body c') :
    ∀ stmt ∈ statements body, Between (StmtRun g) c stmt c' := by
  induction body using bodyInduction generalizing c c' with
  | nil =>
    intro stmt mem
    rw [FrontEnd.statements] at mem
    cases mem
  | cons first rest blocks ih =>
    cases row with
    | @more _ start behind _ _ _ walks run taken row =>
      have endsFirst := walks.ends ends
      have isRead := (run.readFrom leaves endsFirst).2
      intro stmt mem
      rw [statements_cons, List.cons_append, List.mem_cons, List.mem_append,
        List.mem_flatMap] at mem
      rcases mem with rfl | ⟨⟨block, isLoop⟩, isBlock, inner⟩ | later
      · exact ⟨start, behind, walks, run, taken, row.walks⟩
      · have inBlock := isRead.blocks block (List.mem_map_of_mem (f := Prod.fst) isBlock)
        exact ((blocks block isLoop isBlock endsFirst inBlock stmt inner).before walks).behind
          row.walks
      · exact (ih (taken.ends endsFirst) row stmt later).before (walks.trans taken)

/-- **Every structure in another was read on the way** through it, at whatever depth. -/
theorem StructRun.within {d e : StructDecl} {owner : Path} (leaves : g.LeavesEnd) (ends : c.Ends)
    (run : StructRun g c d c') (within : d.Within owner e) : Between (StructRun g) c e c' := by
  induction within generalizing c c' with
  | itself d => exact ⟨c, c', .refl, run, (run.readFrom leaves ends).1, .refl⟩
  | inside mem within ih =>
    obtain ⟨first, behind, walks, runInner, taken, walksOn⟩ :=
      (run.readFrom leaves ends).2.inner _ mem
    exact ((ih (walks.ends ends) runInner).before walks).behind walksOn

end Runs

/-! ## Runs repeated -/

section Standard

variable {name text : String} {tokens : List Token} {c c' : Cursor}

open Parse

theorem reparses_decl {d : Decl} (isOver : c.Over name text tokens)
    (run : decl .standard c = .ok d c') :
    Reparses name text (decl .standard) Decl.relabel d d.span := by
  obtain ⟨walks, isRead⟩ := (delivers_decl Grammar.leavesEnd_standard).of_eq_ok isOver.ends .refl run
  rw [isRead.span]
  exact reparses_of_run isOver.scanned isOver.kept isOver.ends walks isRead.shut run
    (fun _ => confined_decl) (fun _ => moves_decl Grammar.leavesEnd_standard)
    fun _ counts => commutes_decl counts

theorem reparses_stmt {s : Stmt} (isOver : c.Over name text tokens)
    (run : StmtRun .standard c s c') :
    Reparses name text (stmt .standard) Stmt.relabel s s.span := by
  obtain ⟨walks, isRead⟩ := run.readFrom Grammar.leavesEnd_standard isOver.ends
  obtain ⟨n, run⟩ := run
  rw [isRead.span]
  refine reparses_of_run isOver.scanned isOver.kept isOver.ends walks isRead.shut run
    (fun _ => .fitting fun m => confined_stmtUpTo n m _)
    (fun _ => moves_stmt Grammar.leavesEnd_standard) fun m counts => ?_
  refine .bind commutes_get fun c => ?_
  rw [m.length_left_cursor]
  exact commutes_stmtUpTo counts _

theorem reparses_struct {d : StructDecl} (isOver : c.Over name text tokens)
    (run : StructRun .standard c d c') :
    Reparses name text (decl .standard) Decl.relabel (.struct d) d.span := by
  obtain ⟨walks, isRead⟩ := run.readFrom Grammar.leavesEnd_standard isOver.ends
  obtain ⟨here, n, run⟩ := run
  rw [isRead.span]
  -- The run as one of a declaration, which looks at the word that it begins with.
  let action : Parse Decl := do
    let k ← kind
    if k = .structWord ∨ k = .closedWord then .struct <$> structUpTo .standard n else exhausted
  have runs : action c = .ok (.struct d) c' := by
    change (if c.kind = .structWord ∨ c.kind = .closedWord then _ else _ : Parse Decl) c = _
    rw [if_pos here, map_eq_pure_bind]
    exact bind_eq_ok.2 ⟨d, c', run, rfl⟩
  have confined (x : Excerpt) : Confined x 0 1 0 action (decl .standard) := by
    refine .onKind (fun k => ?_) (Nat.le_refl _)
    split
    next isWord =>
      rcases isWord with rfl | rfl
      · exact Confined.map (.fitting fun m => confined_structUpTo n m _)
      · exact Confined.map (.fitting fun m => confined_structUpTo n m _)
    next => exact .halt
  exact reparses_of_run isOver.scanned isOver.kept isOver.ends walks isRead.shut runs confined
    (fun _ => moves_decl Grammar.leavesEnd_standard) fun _ counts => commutes_decl counts

/-- **A structure in a declaration is read again from its own stretch**, at whatever depth. -/
theorem reparses_within {d e : StructDecl} {owner : Path} (isOver : c.Over name text tokens)
    (run : decl .standard c = .ok (.struct d) c') (within : d.Within owner e) :
    Reparses name text (decl .standard) Decl.relabel (.struct e) e.span := by
  cases within with
  | itself => exact reparses_decl isOver run
  | inside isInner within =>
    have isRead := ((delivers_decl Grammar.leavesEnd_standard).of_eq_ok isOver.ends .refl run).2
    obtain ⟨first, behind, walks, runInner, -, -⟩ := isRead.inner _ rfl _ isInner
    have overFirst := isOver.after walks
    obtain ⟨inner, behindInner, walksOn, runLast, -, -⟩ :=
      runInner.within Grammar.leavesEnd_standard overFirst.ends within
    exact reparses_struct (overFirst.after walksOn) runLast

end Standard

/-! ## The spans of a file -/

/-- **The spans of a file are faithful**: those of its declarations, of the structures in them, and
of all statements; and the statements of every block are in order in the span of what holds the
block. -/
structure File.SpansFaithful (name text : String) (file : File) : Prop where
  declarations : ∀ d ∈ file.declarations,
    Reparses name text (Parse.decl .standard) Decl.relabel d d.span
  structs : ∀ d, Decl.struct d ∈ file.declarations → ∀ owner e, d.Within owner e →
    Reparses name text (Parse.decl .standard) Decl.relabel (.struct e) e.span
  statements : ∀ f ∈ file.functions, ∀ s ∈ FrontEnd.statements f.body,
    Reparses name text (Parse.stmt .standard) Stmt.relabel s s.span
  bodies : ∀ f ∈ file.functions, InOrder f.span f.body
  blocks : ∀ f ∈ file.functions, ∀ s ∈ FrontEnd.statements f.body, ∀ block ∈ s.blocks,
    InOrder s.span block.1

section Parsed

variable {name text : String} {tokens : List Token} {firstId nextId : Nat} {file : File}
  (scanned : Token.ofText name text = .ok tokens)
  (parsed : File.ofTokens tokens firstId = .ok (file, nextId))

include scanned parsed

/-- Every declaration of a file was read from a place among its tokens. -/
theorem File.exists_run {d : Decl} (mem : d ∈ file.declarations) :
    ∃ c c' : Cursor, c.Over name text tokens ∧ Parse.decl .standard c = .ok d c' := by
  obtain ⟨last, run, -⟩ := File.ofTokens_eq_ok_iff.1 parsed
  have start := Cursor.over_ofTokens scanned firstId
  obtain ⟨-, haveRead⟩ := (Parse.delivers_file Grammar.leavesEnd_standard).of_eq_ok start.ends .refl run
  obtain ⟨c, c', walks, run, -, -⟩ := haveRead d mem
  exact ⟨c, c', start.after walks, run⟩

/-- The body of a function was read on the way through what the function spans. -/
theorem File.exists_row {f : FnDecl} (mem : f ∈ file.functions) :
    ∃ c c' : Cursor, c.Over name text tokens ∧ f.span = ⟨c.here, c'.reached⟩ ∧
      Row (StmtRun .standard) c f.body c' := by
  obtain ⟨d, isDecl, isFunction⟩ := List.mem_filterMap.1 mem
  obtain ⟨c, c', isOver, run⟩ := File.exists_run scanned parsed isDecl
  have isRead := ((Parse.delivers_decl Grammar.leavesEnd_standard).of_eq_ok isOver.ends .refl run).2
  cases d with
  | function d =>
    cases isFunction
    exact ⟨c, c', isOver, isRead.span, isRead.body _ rfl⟩
  | _ => cases isFunction

/-- Every statement of a function was read from a place among the tokens. -/
theorem File.exists_stmtRun {f : FnDecl} (mem : f ∈ file.functions) {s : Stmt}
    (inBody : s ∈ FrontEnd.statements f.body) :
    ∃ c c' : Cursor, c.Over name text tokens ∧ StmtRun .standard c s c' := by
  obtain ⟨c, c', isOver, -, row⟩ := File.exists_row scanned parsed mem
  obtain ⟨first, behind, walks, run, -, -⟩ :=
    row.statements Grammar.leavesEnd_standard isOver.ends s inBody
  exact ⟨first, behind, isOver.after walks, run⟩

/-- **Spans are faithful** in every file that was read from a text. -/
theorem File.spans_faithful : file.SpansFaithful name text where
  declarations := by
    intro d mem
    obtain ⟨c, c', isOver, run⟩ := File.exists_run scanned parsed mem
    exact reparses_decl isOver run
  structs := by
    intro d mem owner e within
    obtain ⟨c, c', isOver, run⟩ := File.exists_run scanned parsed mem
    exact reparses_within isOver run within
  statements := by
    intro f mem s inBody
    obtain ⟨c, c', isOver, run⟩ := File.exists_stmtRun scanned parsed mem inBody
    exact reparses_stmt isOver run
  bodies := by
    intro f mem
    obtain ⟨c, c', isOver, span, row⟩ := File.exists_row scanned parsed mem
    rw [span]
    exact row.inOrder Grammar.leavesEnd_standard isOver
  blocks := by
    intro f mem s inBody block isBlock
    obtain ⟨c, c', isOver, run⟩ := File.exists_stmtRun scanned parsed mem inBody
    have isRead := (run.readFrom Grammar.leavesEnd_standard isOver.ends).2
    rw [isRead.span]
    exact (isRead.blocks _ (List.mem_map_of_mem isBlock)).inOrder Grammar.leavesEnd_standard isOver

end Parsed

/-- A structure inside another, and a function with a comment in its head. -/
def enclosed : String :=
  "struct A<T> { closed struct B { A<int>[] rest; } }\n" ++
    "fn f(int n): // é\n int { if (n < 2) { n += 1; return n; } else { } return f(n - 1); }"

/-- The text has two declarations, one of which is a function with two statements in its body; all
spans in it are faithful. -/
theorem File.spansFaithful_enclosed : ∃ tokens file nextId, Token.ofText "m" enclosed = .ok tokens ∧
    File.ofTokens tokens 5 = .ok (file, nextId) ∧ file.declarations.length = 2 ∧
    file.functions.map (·.body.length) = [2] ∧ file.SpansFaithful "m" enclosed := by
  have reads : ((Token.ofText "m" enclosed).toOption.any fun tokens =>
      (File.ofTokens tokens 5).toOption.any fun result =>
        result.1.declarations.length = 2 ∧ result.1.functions.map (·.body.length) = [2]) =
          true := by
    decide +kernel
  obtain ⟨tokens, scanned, reads⟩ := exists_ok_of_any reads
  obtain ⟨⟨file, nextId⟩, parsed, reads⟩ := exists_ok_of_any reads
  obtain ⟨two, bodies⟩ := of_decide_eq_true reads
  exact ⟨tokens, file, nextId, scanned, parsed, two, bodies, File.spans_faithful scanned parsed⟩

end FrontEnd

import FrontEnd.Grammar.Stmt
import FrontEnd.Proofs.Grammar.YieldingExpr

/-!
# What parsing yields from the lexemes of statements

A written statement begins with a word of its own, with a type, or with the parenthesis of an
expression. A type is parsed as an expression first; it is told from one by the identifier behind it,
perhaps behind the mark of an array type.

**The law** (`Parse.readableStmt_of_printable`): from the lexemes of a statement that can be written
the statement is yielded, up to numbers and positions, unless an `else` stands behind it.
-/

namespace FrontEnd

open Token Lexeme

/-- Two statements are alike when they are equal up to numbers and positions. -/
def Stmt.Alike (s found : Stmt) : Prop :=
  found.relabel .erase = s.relabel .erase

/-- Two bodies are alike when their statements are, one by one. -/
def BodyAlike (body found : List Stmt) : Prop :=
  found.map (Stmt.relabel .erase) = body.map (Stmt.relabel .erase)

namespace Parse

variable {rest : List Lexeme} {e : Expr} {n : Nat}

theorem yields_condition (written : e.Printable) :
    Yields (condition .standard) e.conditionLexemes rest e.Alike := by
  refine .token yields_mark fun _ _ => ?_
  refine .bind (yields_expr written stops_closeParen _) fun found alike => ?_
  exact .token yields_mark fun _ _ => .pure alike

/-! ## Statements that begin with an expression -/

/-- What stands behind the type of a declaration. -/
def declarationLexemes (isArray : Bool) (name : String) (initial : Expr) : List Lexeme :=
  arraySuffix isArray ++
    named name :: Kind.assignment.lexeme :: (initial.lexemes ++ [Kind.semicolon.lexeme])

theorem yields_declaration {isMutable isArray : Bool} {type found : Name} {name : String}
    {initial : Expr} (typeAlike : found.relabel .erase = type.relabel .erase)
    (written : initial.Printable) (start : Position) (span : Span) :
    Yields (declaration .standard isMutable found start) (declarationLexemes isArray name initial)
      rest (Stmt.declare isMutable type isArray name initial span).Alike := by
  refine .bind (yields_arrayMark isArray nofun) fun _ marked => ?_
  refine .token yields_expect fun token text => .token yields_mark fun _ _ => ?_
  refine .bind (yields_expr written (stops_of_follow rfl rfl) _) fun value alike => ?_
  refine .token yields_mark fun _ _ => .still (yields_spanFrom _) fun _ _ => .pure ?_
  unfold Expr.Alike at alike
  simp only [Stmt.Alike, Stmt.relabel, typeAlike, marked, text, alike, Relabel.span_erase]

/-- Behind a type, a declaration is recognised. -/
theorem declares_of_lexemes {c : Cursor} {isArray : Bool} {name : String} {initial : Expr}
    (lexemes : c.left.map Token.lexeme = declarationLexemes isArray name initial ++ rest) :
    declares c = true := by
  cases isArray with
  | true =>
    have isOpen : c.kind = .openBracket := Cursor.kind_of_lexemes lexemes rfl
    have isClosed : c.peek 1 = .closeBracket := Cursor.peek_of_lexemes lexemes 1
    have isName : c.peek 2 = .identifier := Cursor.peek_of_lexemes lexemes 2
    rw [declares, isOpen, isClosed, isName]
    rfl
  | false =>
    have isName : c.kind = .identifier := Cursor.kind_of_lexemes lexemes rfl
    rw [declares, isName]
    rfl

theorem stops_declaration (isArray : Bool) (name : String) (initial : Expr) :
    Stops (declarationLexemes isArray name initial ++ rest) := by
  cases isArray with
  | true => exact stops_arraySuffix _
  | false => exact stops_of_follow rfl rfl

theorem first_declaration (isArray : Bool) (name : String) (initial : Expr) (rest : List Lexeme) :
    first (declarationLexemes isArray name initial ++ rest) = some .openBracket ∨
      first (declarationLexemes isArray name initial ++ rest) = some .identifier := by
  cases isArray with
  | true => exact .inl rfl
  | false => exact .inr rfl

/-- **A type in front of an identifier declares a variable.** -/
theorem yields_simple_declare {isArray : Bool} {type : Name} {name : String}
    (typeWritten : type.Printable) (written : e.Printable) (span : Span) :
    Yields (simple .standard) (type.lexemes ++ declarationLexemes isArray name e) rest
      (Stmt.declare false type isArray name e span).Alike := by
  have noList : first (declarationLexemes isArray name e ++ rest) ≠ some .less :=
    ne_of_either (first_declaration isArray name e rest) (by decide)
  have asExpr : Yields (expr .standard .loosest) type.lexemes
      (declarationLexemes isArray name e ++ rest) (StandsFor type.segments) :=
    .look fun c _ => yields_exprUpTo_name (n := c.ahead.length) typeWritten noList
      (stops_declaration isArray name e)
  refine .still yields_here fun start _ => .bind asExpr fun found stands => ?_
  refine .look fun c lexemes => ?_
  rw [if_pos (declares_of_lexemes lexemes)]
  cases stands with
  | @symbol segment symbolSpan single plain =>
    refine .still yields_freshId fun id _ => yields_declaration (Name.erase_eq_iff.2 ?_) written _ _
    have alike : Segment.relabel .erase ⟨id, segment.text, [], symbolSpan⟩ =
        segment.relabel .erase := Segment.erase_eq_iff.2 ⟨rfl, by rw [plain]⟩
    rw [single, Name.single, List.map_singleton, List.map_singleton, alike]
  | name same => exact yields_declaration (Name.erase_eq_iff.2 same) written _ _

/-- Where no declaration follows, an expression is assigned to or stands on its own. -/
theorem yields_simple {word : List Lexeme} {good : Stmt → Prop} {k : Kind} (written : e.Printable)
    (here : first (word ++ rest) = some k) (noName : k ≠ .identifier) (noArray : k ≠ .openBracket)
    (none : Grammar.standard.follow k = none)
    (behind : ∀ found start, e.Alike found → Yields (assignment .standard found start) word rest good) :
    Yields (simple .standard) (e.lexemes ++ word) rest good := by
  refine .still yields_here fun start _ => ?_
  refine .bind (yields_expr written (stops_of_follow here none) _) fun found alike => ?_
  refine .look fun c lexemes => ?_
  have noDeclaration : declares c = false := by
    rw [declares, Cursor.kind_of_lexemes lexemes here]
    simp [noName, noArray]
  rw [if_neg (by simp [noDeclaration])]
  exact behind found start alike

theorem yields_simple_evaluate (written : e.Printable) (span : Span) :
    Yields (simple .standard) (e.lexemes ++ [Kind.semicolon.lexeme]) rest
      (Stmt.evaluate e span).Alike := by
  refine yields_simple written rfl nofun nofun rfl fun found start alike => ?_
  refine .onKind rfl (.token yields_mark fun _ _ => .still (yields_spanFrom _) fun _ _ => .pure ?_)
  unfold Expr.Alike at alike
  simp only [Stmt.Alike, Stmt.relabel, alike, Relabel.span_erase]

theorem yields_simple_assign {target value : Expr} (targetWritten : target.Printable)
    (assignable : target.isAssignable = true) (written : value.Printable) (span : Span) :
    Yields (simple .standard)
      (target.lexemes ++ Kind.assignment.lexeme :: (value.lexemes ++ [Kind.semicolon.lexeme])) rest
      (Stmt.assign target value span).Alike := by
  refine yields_simple targetWritten rfl nofun nofun rfl fun found start alike => .onKind rfl ?_
  have assignableToo : found.isAssignable = true := by
    rw [← Expr.isAssignable_relabel .erase, alike, Expr.isAssignable_relabel]
    exact assignable
  change Yields (if found.isAssignable then _ else _) _ _ _
  rw [if_pos assignableToo]
  refine .token yields_advance fun _ _ => ?_
  refine .bind (yields_expr written (stops_of_follow rfl rfl) _) fun foundValue valueAlike => ?_
  refine .token yields_mark fun _ _ => .still (yields_spanFrom _) fun _ _ => .pure ?_
  unfold Expr.Alike at alike valueAlike
  simp only [Stmt.Alike, Stmt.relabel, alike, valueAlike, Relabel.span_erase]

/-! ## Blocks -/

/-- **A statement is readable** when its lexemes yield it at every depth that is at least their
number, unless an `else` follows. It begins with no token that ends a block or continues a
branch. -/
structure ReadableStmt (s : Stmt) : Prop where
  starts : ∃ k, first s.lexemes = some k ∧ k ≠ .closeCurly ∧ k ≠ .eof ∧ k ≠ .elseWord
  yields : ∀ n rest, s.lexemes.length ≤ n → first rest ≠ some .elseWord →
    Yields (stmtUpTo .standard n) s.lexemes rest s.Alike

theorem length_le_bodyLexemes {body : List Stmt} {s : Stmt} (mem : s ∈ body) :
    s.lexemes.length ≤ (bodyLexemes body).length := by
  obtain ⟨front, back, rfl⟩ := List.append_of_mem mem
  rw [bodyLexemes_eq, List.flatMap_append, List.flatMap_cons]
  simp only [List.length_append]
  omega

/-- **Readable statements in braces are yielded** by an action that yields each of them. -/
theorem yields_blockOf {stmt : Parse Stmt} {body : List Stmt}
    (readable : ∀ s ∈ body, ReadableStmt s)
    (each : ∀ s ∈ body, ∀ behind, first behind ≠ some .elseWord →
      Yields stmt s.lexemes behind s.Alike) :
    Yields (blockOf stmt) (blockLexemes body) rest (BodyAlike body) := by
  have stmts : Yields (repeatWhile (fun c => c.kind ≠ .closeCurly && c.kind ≠ .eof) stmt)
      (bodyLexemes body) ([Kind.closeCurly.lexeme] ++ rest) (BodyAlike body) := by
    rw [bodyLexemes_eq]
    refine yields_repeatWhile (fun s mem behind follows => each s mem behind ?_)
      (fun s mem c behind lexemes => ?_) (fun s mem => ?_) fun c lexemes => ?_
    · rcases follows with follows | ⟨t, isStmt, u, rfl⟩
      · rw [follows]
        nofun
      · obtain ⟨k, here, -, -, notElse⟩ := (readable t isStmt).starts
        rw [first_append here]
        exact fun same => notElse (Option.some.inj same)
    · obtain ⟨k, here, notClosing, notEnd, -⟩ := (readable s mem).starts
      simp [Cursor.kind_of_lexemes lexemes (first_append here), notClosing, notEnd]
    · obtain ⟨k, here, -⟩ := (readable s mem).starts
      exact ne_nil_of_first here
    · have isClosing : c.kind = .closeCurly := Cursor.kind_of_lexemes lexemes rfl
      simp [isClosing]
  refine .token yields_mark fun _ _ => .bind stmts fun found alike => ?_
  exact .token yields_mark fun _ _ => .pure alike

/-- Readable statements in braces are yielded at every depth that is at least their length. -/
theorem yields_block {body : List Stmt} (each : ∀ s ∈ body, ReadableStmt s)
    (enough : (bodyLexemes body).length ≤ n) :
    Yields (blockOf (stmtUpTo .standard n)) (blockLexemes body) rest (BodyAlike body) := by
  refine yields_blockOf each fun s mem behind noElse => (each s mem).yields n behind ?_ noElse
  have short := length_le_bodyLexemes mem
  omega

section Forms

variable {body otherwise : List Stmt}

/-- A statement that a word begins is yielded where the word stands. -/
theorem yields_stmtUpTo_form {word : List Lexeme} {good : Stmt → Prop} {k : Kind} {form : StmtForm}
    (here : first (word ++ rest) = some k) (found : Grammar.standard.stmt k = some form)
    (h : Yields (formStmt .standard (blockOf (stmtUpTo .standard n)) form) word rest good) :
    Yields (stmtUpTo .standard (n + 1)) word rest good := by
  refine .onKind here ?_
  rw [found]
  exact h

/-- A statement that no word begins is yielded as one that begins with an expression. -/
theorem yields_stmtUpTo_simple {word : List Lexeme} {good : Stmt → Prop} {k : Kind}
    (here : first (word ++ rest) = some k) (none : Grammar.standard.stmt k = none)
    (h : Yields (simple .standard) word rest good) :
    Yields (stmtUpTo .standard (n + 1)) word rest good := by
  refine .onKind here ?_
  rw [none]
  exact h

/-- A statement is readable when it is yielded at every depth but none. -/
theorem readableStmt_of_succ {s : Stmt} {word : List Lexeme} {k : Kind} (lexemes : s.lexemes = word)
    (here : first word = some k) (starts : k ≠ .closeCurly ∧ k ≠ .eof ∧ k ≠ .elseWord)
    (h : ∀ n rest, word.length ≤ n + 1 → first rest ≠ some .elseWord →
      Yields (stmtUpTo .standard (n + 1)) word rest s.Alike) : ReadableStmt s := by
  subst lexemes
  refine ⟨⟨k, here, starts⟩, fun n rest enough noElse => ?_⟩
  cases n with
  | zero =>
    have one := List.length_pos_iff.2 (ne_nil_of_first here)
    omega
  | succ n => exact h n rest enough noElse

theorem readableStmt_declare {isMutable isArray : Bool} {type : Name} {name : String}
    (typeWritten : type.Printable) (written : e.Printable) (span : Span) :
    ReadableStmt (.declare isMutable type isArray name e span) := by
  cases isMutable with
  | true =>
    have lexemes : (Stmt.declare true type isArray name e span).lexemes =
        Kind.mutWord.lexeme :: (type.lexemes ++ declarationLexemes isArray name e) := rfl
    refine readableStmt_of_succ lexemes rfl ⟨nofun, nofun, nofun⟩ fun n rest _ _ => ?_
    have follows := first_declaration isArray name e rest
    have noList : first (declarationLexemes isArray name e ++ rest) ≠ some .less :=
      ne_of_either follows (by decide)
    have noPoint : first (declarationLexemes isArray name e ++ rest) ≠ some .dot :=
      ne_of_either follows (by decide)
    refine yields_stmtUpTo_form rfl rfl (.token yields_advance fun _ _ => ?_)
    exact .bind (yields_name typeWritten noList noPoint) fun found alike =>
      yields_declaration alike written _ _
  | false =>
    have lexemes : (Stmt.declare false type isArray name e span).lexemes =
        type.lexemes ++ declarationLexemes isArray name e := rfl
    have here : first (type.lexemes ++ declarationLexemes isArray name e) = some .identifier :=
      first_append typeWritten.first_lexemes
    refine readableStmt_of_succ lexemes here ⟨nofun, nofun, nofun⟩ fun n rest _ _ => ?_
    exact yields_stmtUpTo_simple (first_append here) rfl (yields_simple_declare typeWritten written _)

theorem readableStmt_assign {target value : Expr} (targetWritten : target.Printable)
    (assignable : target.isAssignable = true) (written : value.Printable) (span : Span) :
    ReadableStmt (.assign target value span) :=
  readableStmt_of_succ rfl rfl ⟨nofun, nofun, nofun⟩ fun _ _ _ _ =>
    yields_stmtUpTo_simple rfl rfl (yields_simple_assign targetWritten assignable written _)

theorem readableStmt_evaluate (written : e.Printable) (span : Span) :
    ReadableStmt (.evaluate e span) :=
  readableStmt_of_succ rfl rfl ⟨nofun, nofun, nofun⟩ fun _ _ _ _ =>
    yields_stmtUpTo_simple rfl rfl (yields_simple_evaluate written _)

theorem readableStmt_breakLoop (span : Span) : ReadableStmt (.breakLoop span) :=
  readableStmt_of_succ rfl rfl ⟨nofun, nofun, nofun⟩ fun _ _ _ _ =>
    yields_stmtUpTo_form rfl rfl (.token yields_advance fun _ _ => .token yields_mark fun _ _ =>
      .still (yields_spanFrom _) fun _ _ => .pure rfl)

theorem readableStmt_continueLoop (span : Span) : ReadableStmt (.continueLoop span) :=
  readableStmt_of_succ rfl rfl ⟨nofun, nofun, nofun⟩ fun _ _ _ _ =>
    yields_stmtUpTo_form rfl rfl (.token yields_advance fun _ _ => .token yields_mark fun _ _ =>
      .still (yields_spanFrom _) fun _ _ => .pure rfl)

theorem readableStmt_returnWith {value : Option Expr} (written : ∀ e ∈ value, e.Printable)
    (span : Span) : ReadableStmt (.returnWith value span) := by
  cases value with
  | none =>
    refine readableStmt_of_succ rfl rfl ⟨nofun, nofun, nofun⟩ fun n rest _ _ => ?_
    have value (rest : List Lexeme) : Yields (pure none) [] rest fun found : Option Expr =>
        found = none := .pure rfl
    refine yields_stmtUpTo_form rfl rfl (.token yields_advance fun _ _ => .onKind rfl ?_)
    refine .still (value _) fun found isNone => .token yields_mark fun _ _ => ?_
    refine .still (yields_spanFrom _) fun _ _ => .pure ?_
    rw [isNone]
    rfl
  | some e =>
    refine readableStmt_of_succ rfl rfl ⟨nofun, nofun, nofun⟩ fun n rest _ _ => ?_
    have value : Yields (some <$> expr .standard .loosest) e.lexemes
        ([Kind.semicolon.lexeme] ++ rest) fun found =>
          found.map (Expr.relabel .erase) = (some e).map (Expr.relabel .erase) :=
      (yields_expr (written e rfl) (stops_of_follow rfl rfl) _).map fun _ alike =>
        congrArg some alike
    refine yields_stmtUpTo_form rfl rfl (.token yields_advance fun _ _ => .onKind rfl ?_)
    refine .bind value fun found alike => .token yields_mark fun _ _ => ?_
    refine .still (yields_spanFrom _) fun _ _ => .pure ?_
    simp only [Stmt.Alike, Stmt.relabel_returnWith, alike, Relabel.span_erase]

theorem readableStmt_loop (written : e.Printable) (each : ∀ s ∈ body, ReadableStmt s)
    (span : Span) : ReadableStmt (.loop e body span) := by
  have lexemes : (Stmt.loop e body span).lexemes =
      Kind.loopWord.lexeme :: (e.conditionLexemes ++ blockLexemes body) := by
    rw [Stmt.lexemes]
    rfl
  refine readableStmt_of_succ lexemes rfl (by decide) fun n rest enough _ => ?_
  have short : (bodyLexemes body).length ≤ n := by
    simp only [List.length_cons, List.length_append, blockLexemes, between] at enough
    omega
  refine yields_stmtUpTo_form rfl rfl (.token yields_advance fun _ _ => ?_)
  refine .bind (yields_condition written) fun condition alike => ?_
  refine .whole (yields_block each short) fun found same => ?_
  refine .still (yields_spanFrom _) fun _ _ => .pure ?_
  unfold Expr.Alike at alike
  unfold BodyAlike at same
  simp only [Stmt.Alike, Stmt.relabel, relabelStmts_eq, alike, same, Relabel.span_erase]

/-! ## Branches -/

/-- An arm is readable when its condition can be written and its statements are readable. -/
structure ReadableArm (arm : Arm) : Prop where
  condition : arm.condition.Printable
  body : ∀ s ∈ arm.body, ReadableStmt s

theorem arm_lexemes (a : Arm) :
    a.lexemes = a.condition.conditionLexemes ++ blockLexemes a.body := by
  obtain ⟨condition, body⟩ := a
  rw [Arm.lexemes]
  rfl

theorem yields_arm {a : Arm} (h : ReadableArm a) (enough : a.lexemes.length ≤ n) :
    Yields (arm .standard (blockOf (stmtUpTo .standard n))) a.lexemes rest fun found =>
      found.relabel .erase = a.relabel .erase := by
  have short : (bodyLexemes a.body).length ≤ n := by
    simp only [arm_lexemes, List.length_cons, List.length_append, blockLexemes, between] at enough
    omega
  rw [arm_lexemes]
  refine .bind (yields_condition h.condition) fun condition alike => ?_
  refine .whole (yields_block h.body short) fun body same => .pure ?_
  obtain ⟨condition', body'⟩ := a
  unfold Expr.Alike at alike
  unfold BodyAlike at same
  simp only [Arm.relabel, relabelStmts_eq, Arm.condition, Arm.body] at alike same ⊢
  rw [alike, same]

/-- The last block of a branch, if it is not empty. -/
def elseLexemes (otherwise : List Stmt) : List Lexeme :=
  if otherwise.isEmpty then [] else Kind.elseWord.lexeme :: blockLexemes otherwise

theorem branch_lexemes (first : Arm) (others : List Arm) (otherwise : List Stmt) (span : Span) :
    (Stmt.branch first others otherwise span).lexemes = Kind.ifWord.lexeme ::
      (first.lexemes ++ (others.flatMap furtherArmLexemes ++ elseLexemes otherwise)) := by
  rw [Stmt.lexemes, armLexemes_eq]
  rfl

/-- **Further arms are yielded** where no further arm follows. -/
theorem yields_furtherArms {arms : List Arm} (each : ∀ a ∈ arms, ReadableArm a)
    (enough : ∀ a ∈ arms, a.lexemes.length ≤ n)
    (stops : ∀ c : Cursor, c.left.map Token.lexeme = rest →
      ¬ (c.kind = .elseWord ∧ c.peek 1 = .ifWord)) :
    Yields (repeatWhile (fun c => c.kind = .elseWord && c.peek 1 = .ifWord) do
        let _ ← advance
        let _ ← advance
        arm .standard (blockOf (stmtUpTo .standard n)))
      (arms.flatMap furtherArmLexemes) rest fun found =>
        found.map (Arm.relabel .erase) = arms.map (Arm.relabel .erase) := by
  refine yields_repeatWhile (fun a mem behind _ => ?_) (fun a mem c behind lexemes => ?_)
    (fun a _ => List.cons_ne_nil _ _) fun c lexemes => ?_
  · refine .token yields_advance fun _ _ => .token yields_advance fun _ _ => ?_
    exact yields_arm (each a mem) (enough a mem)
  · have isElse : c.kind = .elseWord := Cursor.kind_of_lexemes lexemes rfl
    have isIf : c.peek 1 = .ifWord := Cursor.peek_of_lexemes lexemes 1
    simp [isElse, isIf]
  · simpa using stops c lexemes

theorem readableStmt_branch {first : Arm} {others : List Arm} (firstReadable : ReadableArm first)
    (each : ∀ a ∈ others, ReadableArm a) (last : ∀ s ∈ otherwise, ReadableStmt s) (span : Span) :
    ReadableStmt (.branch first others otherwise span) := by
  refine readableStmt_of_succ (branch_lexemes first others otherwise span) rfl
    ⟨nofun, nofun, nofun⟩ fun n rest enough noElse => ?_
  simp only [List.length_cons, List.length_append] at enough
  have further : ∀ a ∈ others, a.lexemes.length ≤ n := by
    intro a mem
    obtain ⟨front, back, rfl⟩ := List.append_of_mem mem
    simp only [List.flatMap_append, List.flatMap_cons, List.length_append, furtherArmLexemes,
      List.length_cons] at enough
    omega
  refine yields_stmtUpTo_form rfl rfl (.token yields_advance fun _ _ => ?_)
  refine .bind (yields_arm firstReadable (by omega)) fun found alike => ?_
  refine .bind (yields_furtherArms each further fun c lexemes => ?_) fun arms same => ?_
  · rintro ⟨isElse, isIf⟩
    unfold elseLexemes at lexemes
    split at lexemes
    · exact Cursor.ne_of_lexemes lexemes noElse isElse
    · have isBlock : c.peek 1 = .openCurly := Cursor.peek_of_lexemes lexemes 1
      rw [isBlock] at isIf
      cases isIf
  · unfold elseLexemes at enough ⊢
    by_cases none : otherwise = []
    · subst none
      refine .still (yields_consume_false noElse) fun taken notTaken => ?_
      rw [if_neg (by simp [notTaken])]
      simp only [pure_bind]
      refine .still (yields_spanFrom _) fun _ _ => .pure ?_
      simp only [Stmt.Alike, Stmt.relabel, relabelArms_eq, alike, same, Relabel.span_erase]
    · have some : otherwise.isEmpty = false := by simpa using none
      rw [some] at enough ⊢
      simp only [Bool.false_eq_true, if_false, List.length_cons, blockLexemes, between,
        List.length_append] at enough
      refine .token yields_consume_true fun taken isTaken => ?_
      rw [if_pos isTaken]
      refine .whole (yields_block last (by omega)) fun body bodyAlike => ?_
      refine .still (yields_spanFrom _) fun _ _ => .pure ?_
      unfold BodyAlike at bodyAlike
      simp only [Stmt.Alike, Stmt.relabel, relabelArms_eq, relabelStmts_eq, alike, same, bodyAlike,
        Relabel.span_erase]

/-! ## Selections -/

/-- What a pattern leads to is readable: an expression that can be written, or readable
statements. -/
structure ReadableBody (body : CaseBody) : Prop where
  value : ∀ value ∈ body.value?, value.Printable
  block : ∀ block ∈ body.block?, ∀ s ∈ block, ReadableStmt s

/-- A case is readable when its pattern can be written and what it leads to is readable. -/
structure ReadableCase (case : Case) : Prop where
  pattern : case.pattern.Printable
  body : ReadableBody case.body

theorem yields_caseBody {body : CaseBody} (h : ReadableBody body) (enough : body.lexemes.length ≤ n)
    (stops : Stops rest) :
    Yields (caseBody .standard (blockOf (stmtUpTo .standard n))) body.lexemes rest fun found =>
      found.relabel .erase = body.relabel .erase := by
  cases body with
  | block stmts =>
    have lexemes : (CaseBody.block stmts).lexemes = blockLexemes stmts := by
      rw [CaseBody.lexemes]
      rfl
    have short : (bodyLexemes stmts).length ≤ n := by
      simp only [lexemes, List.length_cons, List.length_append, blockLexemes, between] at enough
      omega
    rw [lexemes]
    refine .onKind rfl ((yields_block (h.block stmts rfl) short).map fun found same => ?_)
    unfold BodyAlike at same
    simp only [CaseBody.relabel, relabelStmts_eq, same]
  | value e =>
    have lexemes : (CaseBody.value e).lexemes = e.lexemes := by rw [CaseBody.lexemes]
    rw [lexemes]
    refine .onKind rfl ((yields_expr (h.value e rfl) stops _).map fun found alike => ?_)
    unfold Expr.Alike at alike
    simp only [CaseBody.relabel, alike]

theorem case_lexemes (c : Case) :
    c.lexemes = c.pattern.lexemes ++ Kind.colonColon.lexeme :: c.body.lexemes := by
  obtain ⟨pattern, body⟩ := c
  rw [Case.lexemes]
  rfl

/-- A case is yielded by the action for it, with the comma behind it or without. -/
theorem yields_case {a : Case} (h : ReadableCase a) (enough : a.lexemes.length ≤ n)
    {mark : List Lexeme} (stops : Stops (mark ++ rest))
    (separated : Yields (separator .closeCurly) mark rest fun _ => True) :
    Yields (case .standard (blockOf (stmtUpTo .standard n))) (a.lexemes ++ mark) rest fun found =>
      found.relabel .erase = a.relabel .erase := by
  have short : a.body.lexemes.length ≤ n := by
    simp only [case_lexemes, List.length_append, List.length_cons] at enough
    omega
  rw [case_lexemes, List.append_assoc, List.cons_append]
  refine .bind (yields_expr h.pattern (stops_of_follow rfl rfl) _) fun pattern alike => ?_
  refine .token yields_mark fun _ _ => .bind (yields_caseBody h.body short stops) fun body same => ?_
  refine .whole separated fun _ _ => .pure ?_
  obtain ⟨pattern', body'⟩ := a
  unfold Expr.Alike at alike
  simp only [Case.relabel, Case.pattern, Case.body] at alike same ⊢
  rw [alike, same]

theorem select_lexemes (subject : Expr) (cases : List Case) (otherwise : Option CaseBody)
    (span : Span) :
    (Stmt.select subject cases otherwise span).lexemes =
      Kind.whenWord.lexeme :: (subject.conditionLexemes ++
        list .openCurly .closeCurly (cases.map Case.lexemes ++ lastLexemes otherwise)) := by
  rw [Stmt.lexemes, caseLexemes_eq]

/-- Whether a case stands in front of a cursor in a selection. -/
def atCase (c : Cursor) : Bool :=
  c.kind ≠ .closeCurly && c.kind ≠ .elseWord

theorem atCase_of_lexemes {a : Case} {c : Cursor} {behind : List Lexeme}
    (lexemes : c.left.map Token.lexeme = a.lexemes ++ behind) : atCase c = true := by
  rw [case_lexemes] at lexemes
  have isGroup : c.kind = .openParen := Cursor.kind_of_lexemes lexemes rfl
  simp [atCase, isGroup]

theorem case_lexemes_ne_nil (a : Case) : a.lexemes ≠ [] := by
  rw [case_lexemes]
  nofun

section Cases

variable {cases : List Case}

/-- The cases of a selection without a last one: there is no comma behind the last of them. -/
theorem yields_cases (each : ∀ a ∈ cases, ReadableCase a)
    (enough : ∀ a ∈ cases, a.lexemes.length ≤ n) (closes : first rest = some .closeCurly) :
    Yields (repeatWhile atCase (case .standard (blockOf (stmtUpTo .standard n))))
      (joined .comma (cases.map Case.lexemes)) rest fun found =>
        found.map (Case.relabel .erase) = cases.map (Case.relabel .erase) := by
  refine yields_repeatWhile_joined (fun a mem behind => ?_) (fun a mem => ?_)
    (fun a mem c behind lexemes => atCase_of_lexemes lexemes) (fun a _ => case_lexemes_ne_nil a)
    fun c lexemes => ?_
  · exact yields_case (each a mem) (enough a mem) (stops_of_follow rfl rfl) yields_separator_comma
  · rw [← List.append_nil a.lexemes]
    exact yields_case (each a mem) (enough a mem) (stops_of_follow closes rfl)
      (yields_separator_closing nofun closes)
  · simp [atCase, Cursor.kind_of_lexemes lexemes closes]

/-- The cases of a selection with a last one: each has a comma behind it. -/
theorem yields_casesBeforeLast (each : ∀ a ∈ cases, ReadableCase a)
    (enough : ∀ a ∈ cases, a.lexemes.length ≤ n) (isLast : first rest = some .elseWord) :
    Yields (repeatWhile atCase (case .standard (blockOf (stmtUpTo .standard n))))
      (cases.flatMap fun a => a.lexemes ++ [Kind.comma.lexeme]) rest fun found =>
        found.map (Case.relabel .erase) = cases.map (Case.relabel .erase) := by
  refine yields_repeatWhile (fun a mem behind _ => ?_) (fun a mem c behind lexemes => ?_)
    (fun a _ => List.append_ne_nil_of_left_ne_nil (case_lexemes_ne_nil a) _) fun c lexemes => ?_
  · exact yields_case (each a mem) (enough a mem) (stops_of_follow rfl rfl) yields_separator_comma
  · rw [List.append_assoc] at lexemes
    exact atCase_of_lexemes lexemes
  · simp [atCase, Cursor.kind_of_lexemes lexemes isLast]

/-- The last case is yielded with its word, or none is where none stands. -/
theorem yields_lastCase_some {body : CaseBody} (h : ReadableBody body)
    (enough : body.lexemes.length ≤ n) (closes : first rest = some .closeCurly) :
    Yields (lastCase .standard (blockOf (stmtUpTo .standard n)))
      (Kind.elseWord.lexeme :: Kind.colonColon.lexeme :: body.lexemes) rest fun found =>
        found.map (CaseBody.relabel .erase) = some (body.relabel .erase) := by
  refine .token yields_consume_true fun taken isTaken => ?_
  rw [if_pos isTaken]
  refine .token yields_mark fun _ _ => ?_
  refine .whole (yields_caseBody h enough (stops_of_follow closes rfl)) fun found same => ?_
  refine .still (yields_separator_closing nofun closes) fun _ _ => .pure ?_
  rw [Option.map_some, same]

theorem yields_lastCase_none {block : Parse (List Stmt)} (noElse : first rest ≠ some .elseWord) :
    Yields (lastCase .standard block) [] rest fun found => found = none := by
  refine .still (yields_consume_false noElse) fun taken notTaken => ?_
  rw [if_neg (by simp [notTaken])]
  exact .pure rfl

/-- An element of a list is shorter than the list. -/
theorem length_le_list {words : List (List Lexeme)} {word : List Lexeme} (opening closing : Kind)
    (mem : word ∈ words) : word.length + 2 ≤ (list opening closing words).length := by
  have within : word.length ≤ (joined .comma words).length := length_le_joined mem
  rw [list, between, List.length_cons, List.length_append, List.length_singleton]
  omega

theorem readableStmt_select {last : Option CaseBody} (written : e.Printable)
    (each : ∀ a ∈ cases, ReadableCase a) (lastReadable : ∀ body ∈ last, ReadableBody body)
    (span : Span) : ReadableStmt (.select e cases last span) := by
  refine readableStmt_of_succ (select_lexemes e cases last span) rfl ⟨nofun, nofun, nofun⟩
    fun n rest enough _ => ?_
  rw [List.length_cons, List.length_append] at enough
  have casesShort : ∀ a ∈ cases, a.lexemes.length ≤ n := by
    intro a mem
    have inList : a.lexemes ∈ cases.map Case.lexemes ++ lastLexemes last :=
      List.mem_append_left _ (List.mem_map_of_mem mem)
    have within := length_le_list .openCurly .closeCurly inList
    omega
  refine yields_stmtUpTo_form rfl rfl (.token yields_advance fun _ _ => ?_)
  refine .bind (yields_condition written) fun subject alike => .token yields_mark fun _ _ => ?_
  unfold Expr.Alike at alike
  cases last with
  | none =>
    rw [lastLexemes, List.append_nil]
    refine .bind (yields_cases each casesShort rfl) fun found same => ?_
    refine .still (yields_lastCase_none nofun) fun _ isNone => .token yields_mark fun _ _ => ?_
    refine .still (yields_spanFrom _) fun _ _ => .pure ?_
    simp only [Stmt.Alike, Stmt.relabel, relabelCases_eq, alike, same, isNone, Relabel.span_erase]
  | some body =>
    have bodyShort : body.lexemes.length ≤ n := by
      have inList : Kind.elseWord.lexeme :: Kind.colonColon.lexeme :: body.lexemes ∈
          cases.map Case.lexemes ++ lastLexemes (some body) :=
        List.mem_append_right _ (List.mem_singleton_self _)
      have within := length_le_list .openCurly .closeCurly inList
      rw [List.length_cons, List.length_cons] at within
      omega
    rw [lastLexemes, joined_concat, List.flatMap_map, List.append_assoc]
    refine .bind (yields_casesBeforeLast each casesShort rfl) fun found same => ?_
    refine .bind (yields_lastCase_some (lastReadable body rfl) bodyShort rfl) fun _ isLast => ?_
    refine .token yields_mark fun _ _ => .still (yields_spanFrom _) fun _ _ => .pure ?_
    simp only [Stmt.Alike, Stmt.relabel, relabelCases_eq, relabelLast_eq, alike, same, isLast,
      Option.map_some, Relabel.span_erase]

end Cases

end Forms

/-! ## Statements -/

/-- **Every statement that can be written is readable**, one form after the other. -/
theorem readableStmt_of_printable {s : Stmt} (written : s.Printable) : ReadableStmt s := by
  induction written with
  | @mk s heads values _ ih =>
    cases s with
    | declare isMutable type isArray name initial span =>
      exact readableStmt_declare heads (values initial (by simp [Stmt.values])) span
    | assign target value span =>
      exact readableStmt_assign (values target (by simp [Stmt.values])) heads
        (values value (by simp [Stmt.values])) span
    | evaluate value span => exact readableStmt_evaluate (values value (by simp [Stmt.values])) span
    | breakLoop span => exact readableStmt_breakLoop span
    | continueLoop span => exact readableStmt_continueLoop span
    | loop condition body span =>
      exact readableStmt_loop (values condition (by simp [Stmt.values]))
        (ih (body, true) (by simp [Stmt.blocks])) span
    | branch first others otherwise span =>
      have firstReadable : ReadableArm first :=
        ⟨values _ (by simp [Stmt.values]), ih (first.body, false) (by simp [Stmt.blocks])⟩
      have othersReadable : ∀ a ∈ others, ReadableArm a := by
        intro a mem
        refine ⟨values _ ?_, ih (a.body, false) ?_⟩
        · exact List.mem_cons_of_mem _ (List.mem_map_of_mem mem)
        · simp only [Stmt.blocks, List.map_append, List.map_cons, List.map_map]
          exact List.mem_append_left _ (List.mem_cons_of_mem _ (List.mem_map_of_mem mem))
      exact readableStmt_branch firstReadable othersReadable
        (ih (otherwise, false) (by simp [Stmt.blocks])) span
    | returnWith value span =>
      exact readableStmt_returnWith (fun e mem => values e (Option.mem_toList.2 mem)) span
    | select subject cases last span =>
      have readable : ∀ body ∈ cases.map Case.body ++ last.toList, ReadableBody body := by
        intro body mem
        refine ⟨fun value found => values value ?_, fun block found => ih (block, false) ?_⟩
        · exact List.mem_append_right _ (List.mem_filterMap.2 ⟨body, mem, found⟩)
        · exact List.mem_map_of_mem (List.mem_filterMap.2 ⟨body, mem, found⟩)
      refine readableStmt_select (values subject (by simp [Stmt.values])) (fun a mem => ?_)
        (fun body found => readable body ?_) span
      · refine ⟨values _ ?_, readable _ (List.mem_append_left _ (List.mem_map_of_mem mem))⟩
        exact List.mem_append_left _ (List.mem_cons_of_mem _ (List.mem_map_of_mem mem))
      · exact List.mem_append_right _ (Option.mem_toList.2 found)

/-- **A block of statements that can be written is yielded.** -/
theorem yields_body {body : List Stmt} (written : ∀ s ∈ body, s.Printable) :
    Yields (Parse.block .standard) (blockLexemes body) rest (BodyAlike body) := by
  have readable : ∀ s ∈ body, ReadableStmt s := fun s mem => readableStmt_of_printable (written s mem)
  refine yields_blockOf readable fun s mem behind noElse => .look fun c lexemes => ?_
  exact (readable s mem).yields _ behind (Cursor.length_le_of_lexemes lexemes) noElse

end Parse

end FrontEnd

import FrontEnd.Grammar.Expr
import FrontEnd.Proofs.Grammar.Ensuring
import FrontEnd.Proofs.Grammar.KeepingExpr

/-!
# Where parsing stops, and what it has read till then

An action over tokens that do not change either gives a value or stops at one of them. What it gives
is traced to the tokens: an expression starts where one of them does, and an integer is what the token
with its span stands for, which is a numeral or a sign. Where it stops, the diagnostic is of one of a
few forms (`Refusal`), each told by a token; and no numeral that was passed is without a value. One
judgement has both (`Parse.Traces`), since the position of a diagnostic may be the start of an
expression that was given before.

The rules follow the actions. A grammar may send a token to an action that can do nothing with it, and
then the action stops with a diagnostic of its own. The laws are for grammars that do not
(`Grammar.Fitting`), as the standard grammar is.

This module has the rules, and what the actions for names and expressions do.
-/

namespace FrontEnd

open Token

/-! ## What a token stands for -/

/-- **A token stands for an integer** when it writes it in digits, or is a sign that is read as an
operation with it. -/
inductive Token.StandsFor (token : Token) : Int → Prop
  | digits {value : Int} : token.kind = .int → integer? token.text = some value →
    StandsFor token value
  | minus : token.kind = .dash → StandsFor token (-1)
  | increment : token.kind = .plusPlus → StandsFor token 1
  | decrement : token.kind = .minusMinus → StandsFor token 1

/-- **A number without a value**: an integer or a double of which the text is not read as one. -/
inductive Token.Valueless (token : Token) : Prop
  | int : token.kind = .int → integer? token.text = none → Valueless token
  | double : token.kind = .double → Binary64.ofText? token.text = none → Valueless token

/-- A position where a token starts. -/
def StartsIn (tokens : List Token) (position : Position) : Prop :=
  ∃ token ∈ tokens, token.span.start = position

/-! ## Traced expressions -/

/-- **An expression is traced to tokens**: whatever stands in it starts where one of them does, and
an integer in it is what the token with its span stands for. -/
structure Expr.Traced (tokens : List Token) (value : Expr) : Prop where
  starts : ∀ inner : Expr, inner.Within value → StartsIn tokens inner.span.start
  ints : ∀ n span, (Expr.int n span).Within value → ∃ token ∈ tokens, token.span = span ∧
    token.StandsFor n

namespace Expr

variable {tokens : List Token} {value left right : Expr}

/-- An expression that is no integer is traced when it starts at a token and its parts are traced. -/
theorem traced_of_parts (starts : StartsIn tokens value.span.start)
    (notInt : ∀ n span, value ≠ .int n span) (parts : ∀ part ∈ value.parts, part.Traced tokens) :
    value.Traced tokens where
  starts inner within := by
    cases within with
    | self => exact starts
    | part isPart within => exact (parts _ isPart).starts inner within
  ints n span within := by
    cases within with
    | self => exact absurd rfl (notInt n span)
    | part isPart within => exact (parts _ isPart).ints n span within

theorem traced_int {token : Token} {n : Int} (mem : token ∈ tokens) (stands : token.StandsFor n) :
    (int n token.span).Traced tokens where
  starts inner within := by
    cases within with
    | self => exact ⟨token, mem, rfl⟩
    | part isPart => cases isPart
  ints m span within := by
    cases within with
    | self => exact ⟨token, mem, rfl, stands⟩
    | part isPart => cases isPart

theorem Traced.startsIn (traced : value.Traced tokens) : StartsIn tokens value.span.start :=
  traced.starts value .self

/-- An operation starts where its left operand does. -/
theorem traced_operation (operator : Operator) (isLeft : left.Traced tokens)
    (isRight : right.Traced tokens) : (operation operator left right).Traced tokens :=
  traced_of_parts isLeft.startsIn nofun
    (List.forall_mem_cons.2 ⟨isLeft, List.forall_mem_singleton.2 isRight⟩)

end Expr

/-! ## Diagnostics of the grammar -/

/-- **What the grammar asks for** where a token is not what was expected. -/
inductive Demanded : String → Prop
  | kind (k : Kind) : Demanded k.name
  | separator (closing : Kind) : Demanded (Kind.comma.name ++ " or " ++ closing.name)
  | declaration : Demanded "declaration"

/-- **How an action stops**, with the cursor where it does. -/
inductive Refusal : Halt → Cursor → Prop
  | exhausted {c : Cursor} : Refusal .exhausted c
  /-- The current token is not what was expected. -/
  | unexpected {c : Cursor} {expected : String} : Demanded expected →
    Refusal (.fault (c.unexpected expected)) c
  /-- The current token begins no expression. -/
  | noExpression {c : Cursor} :
    Refusal (.fault ⟨.expectedExpression c.kind.name c.current.text, c.here⟩) c
  /-- A number has no value. -/
  | number {c : Cursor} {token : Token} : token ∈ c.tokens → token.Valueless →
    Refusal (.fault ⟨.numberParseError token.text, token.span.start⟩) c
  /-- The current token begins a second block of exports. -/
  | furtherExports {c : Cursor} : Refusal (.fault ⟨.duplicateExport, c.here⟩) c
  /-- An expression that starts at a token cannot be assigned to. -/
  | target {c : Cursor} {form : String} {position : Position} : StartsIn c.tokens position →
    Refusal (.fault ⟨.invalidAssignmentTarget form, position⟩) c

/-! ## The judgement -/

/-- **A cursor over tokens** of which the integers that it has passed have a value. -/
structure Cursor.Sound (tokens : List Token) (c : Cursor) : Prop where
  tokens : c.tokens = tokens
  valued : ∀ token ∈ c.behind, token.kind = .int → ∃ value, integer? token.text = some value

theorem Cursor.Sound.mem {tokens : List Token} {c : Cursor} (sound : c.Sound tokens) :
    c.current ∈ tokens :=
  sound.tokens ▸ c.current_mem

theorem Cursor.Sound.next {tokens : List Token} {c : Cursor} (sound : c.Sound tokens)
    (valued : c.kind = .int → ∃ value, integer? c.current.text = some value) :
    c.next.Sound tokens := by
  refine ⟨c.tokens_next.trans sound.tokens, ?_⟩
  unfold Cursor.next
  split
  · exact sound.valued
  · exact List.forall_mem_cons.2 ⟨valued, sound.valued⟩

/-- **The ground over tokens**: sound cursors over them, from which a run halts with a diagnostic of
the grammar. -/
def Ground.tracing (tokens : List Token) : Ground :=
  .stopping (Cursor.Sound tokens) fun halt c => c.tokens = tokens ∧ Refusal halt c

/-- **An action traces what it gives**, or stops with a diagnostic of the grammar. -/
def Parse.Traces {α : Type} (tokens : List Token) (action : Parse α) (good : α → Prop)
    (c : Cursor) : Prop :=
  Meets (.tracing tokens) action (fun value _ => good value) c

namespace Parse

namespace Traces

variable {α β : Type} {tokens : List Token} {good : α → Prop} {final : β → Prop} {c : Cursor}

theorem refuse {halt : Halt} (refusal : Refusal halt c) :
    Traces tokens (throw halt : Parse α) good c :=
  .stop fun sound => ⟨sound.tokens, refusal⟩

/-- Tokens can only be exhausted where a diagnostic says so. -/
theorem spent (c : Cursor) (sound : (Ground.tracing tokens).holds c) :
    (Ground.tracing tokens).stops .exhausted c :=
  ⟨sound.tokens, .exhausted⟩

/-- An action that looks at the place of the current token, which is that of a token. -/
theorem start {next : Position → Parse β}
    (behind : StartsIn tokens c.here → Traces tokens (next c.here) final c) :
    Traces tokens (here >>= next) final c :=
  .known fun sound => behind ⟨c.current, Cursor.Sound.mem sound, rfl⟩

/-- **An action behind a token that is taken**, which is no integer. -/
theorem take {next : Token → Parse β} (notInt : c.kind ≠ .int)
    (behind : c.current ∈ tokens → Traces tokens (next c.current) final c.next) :
    Traces tokens (advance >>= next) final c :=
  .token (fun sound => sound.next fun isInt => absurd isInt notInt) trivial fun sound =>
    behind sound.mem

/-- An action behind a mark. -/
theorem mark {next : Token → Parse β} (isMark : c.kind.isMark = true)
    (behind : c.current ∈ tokens → Traces tokens (next c.current) final c.next) :
    Traces tokens (advance >>= next) final c :=
  take (fun isInt => by rw [isInt] at isMark; cases isMark) behind

end Traces

variable {α : Type} {tokens : List Token} {good : α → Prop} {c : Cursor}

/-! ## Single tokens -/

theorem traces_spanFrom (position : Position) :
    Traces tokens (spanFrom position) (fun span => span.start = position) c :=
  .look (.pure rfl)

theorem traces_freshId : Traces tokens freshId (fun _ => True) c := by
  rw [← bind_pure freshId]
  exact .drawn (fun sound => ⟨sound.tokens, sound.valued⟩) trivial (.pure trivial)

theorem traces_unexpected {expected : String} (demanded : Demanded expected) :
    Traces tokens (unexpected expected) good c :=
  .look (Traces.refuse (.unexpected demanded))

theorem traces_expect {k : Kind} (notInt : k ≠ .int) :
    Traces tokens (expect k) (fun token => token ∈ tokens ∧ token.kind = k) c := by
  refine .look (.ite (fun here => ?_) fun _ => traces_unexpected (.kind k))
  rw [← bind_pure advance]
  exact Traces.take (here ▸ notInt) fun mem => .pure ⟨mem, here⟩

/-- A token that matters to nothing. -/
theorem traces_token {k : Kind} (notInt : k ≠ .int) :
    Traces tokens (expect k) (fun _ => True) c :=
  (traces_expect notInt).weaken fun _ _ _ => trivial

theorem traces_consume {k : Kind} (notInt : k ≠ .int) :
    Traces tokens (consume k) (fun _ => True) c :=
  .look (.ite (fun here => Traces.take (here ▸ notInt) fun _ => .pure trivial) fun _ => .pure trivial)

theorem traces_separator (closing : Kind) : Traces tokens (separator closing) (fun _ => True) c := by
  refine .look (.ite (fun here => ?_) fun _ => .ite (fun _ => .pure trivial) fun _ =>
    traces_unexpected (.separator closing))
  exact Traces.take (by rw [here]; decide) fun _ => .pure trivial

theorem traces_arrayMark : Traces tokens arrayMark (fun _ => True) c :=
  .skip (traces_consume (by decide)) fun _ _ => .ite
    (fun _ => .skip (traces_token (by decide)) fun _ _ => .pure trivial) fun _ => .pure trivial

/-! ## Repetition -/

section Repetition

variable {holds : Cursor → Bool} {item : Parse α} {step : α → Parse α}

/-- **A repetition traces every value** that the action does where it is repeated. -/
theorem traces_repeatWhile (each : ∀ c, holds c = true → Traces tokens item good c) :
    Traces tokens (repeatWhile holds item) (fun values => ∀ value ∈ values, good value) c :=
  .forall_repeatWhile Traces.spent each

theorem traces_repeatUntil {closing : Kind} (each : ∀ c, Traces tokens item good c) :
    Traces tokens (repeatUntil closing item) (fun values => ∀ value ∈ values, good value) c :=
  traces_repeatWhile fun c _ => each c

theorem traces_separated {closing : Kind} (each : ∀ c, Traces tokens item good c) :
    Traces tokens (separated closing item) (fun values => ∀ value ∈ values, good value) c :=
  traces_repeatUntil fun c => .bind (each c) fun _ _ isGood =>
    .skip (traces_separator closing) fun _ _ => .pure isGood

/-- **What each step keeps holds of what is grown.** -/
theorem traces_growWhile {value : α} (isGood : good value)
    (each : ∀ value c, holds c = true → good value → Traces tokens (step value) good c) :
    Traces tokens (growWhile holds step value) good c :=
  .growWhile Traces.spent each isGood

end Repetition

/-! ## Names -/

/-- An identifier starts at a token, plain or with arguments. -/
def StartsIdentifier (tokens : List Token) : Identifier → Prop
  | .plain _ span => StartsIn tokens span.start
  | .applied segment => StartsIn tokens segment.span.start

section Names

variable {name : Parse Name} (each : ∀ c, Traces tokens name (fun _ => True) c)

include each

theorem traces_typeArguments : Traces tokens (typeArguments name) (fun _ => True) c :=
  .skip (traces_token (by decide)) fun _ _ =>
    .skip ((traces_separated each).weaken fun _ _ _ => trivial) fun _ _ =>
      .skip (traces_token (by decide)) fun _ _ => .pure trivial

theorem traces_identifierOf : Traces tokens (identifierOf name) (StartsIdentifier tokens) c := by
  refine .bind (traces_expect (by decide)) fun token _ ⟨mem, _⟩ => .look (.ite (fun _ => ?_) fun _ =>
    .pure ⟨token, mem, rfl⟩)
  refine .skip traces_freshId fun _ _ => .skip (traces_typeArguments each) fun _ _ => ?_
  exact .bind (traces_spanFrom _) fun span _ start => .pure ⟨token, mem, start.symm⟩

theorem traces_segmentOf : Traces tokens (segmentOf name) (fun _ => True) c := by
  refine .bind (traces_identifierOf each) fun found _ _ => ?_
  cases found with
  | plain text span => exact .skip traces_freshId fun _ _ => .pure trivial
  | applied segment => exact .pure trivial

end Names

theorem traces_nameUpTo (n : Nat) : Traces tokens (nameUpTo n) (fun _ => True) c := by
  induction n generalizing c with
  | zero => exact Traces.refuse .exhausted
  | succ n ih =>
    have segment (c : Cursor) : Traces tokens (segmentOf (nameUpTo n)) (fun _ => True) c :=
      traces_segmentOf fun _ => ih
    have further (c : Cursor) (isPoint : decide (c.kind = .dot) = true) :
        Traces tokens (do let _ ← advance; segmentOf (nameUpTo n)) (fun _ => True) c :=
      Traces.mark (of_decide_eq_true isPoint ▸ rfl) fun _ => segment _
    refine Traces.start fun _ => .skip (segment _) fun _ _ => .bind (traces_repeatWhile further) ?_
    exact fun _ _ _ => .bind (traces_spanFrom _) fun _ _ _ => .pure trivial

theorem traces_name : Traces tokens name (fun _ => True) c :=
  .look (traces_nameUpTo _)

theorem traces_segment : Traces tokens segment (fun _ => True) c :=
  traces_segmentOf fun _ => traces_name

theorem traces_typeParameter : Traces tokens typeParameter (fun _ => True) c := by
  refine .skip (traces_token (by decide)) fun _ _ => .skip (traces_consume (by decide)) fun _ _ => ?_
  refine .ite (fun _ => ?_) fun _ => ?_
  · exact .skip (traces_name.map fun _ _ _ => trivial) fun _ _ =>
      .skip (traces_separator _) fun _ _ => .pure trivial
  · rw [pure_bind]
    exact .skip (traces_separator _) fun _ _ => .pure trivial

theorem traces_typeParameters : Traces tokens typeParameters (fun _ => True) c :=
  .skip (traces_consume (by decide)) fun _ _ => .ite
    (fun _ => .skip ((traces_repeatUntil fun _ => traces_typeParameter).weaken fun _ _ _ => trivial)
      fun _ _ => .skip (traces_token (by decide)) fun _ _ => .pure trivial)
    fun _ => .pure trivial

end Parse

/-! ## Grammars -/

/-- **A grammar fits its actions** when it sends a token only to one that can take it. -/
structure Grammar.Fitting (g : Grammar) : Prop where
  marks : g.ByMarks
  /-- A literal or an identifier is read from one. -/
  primary {k : Kind} : g.lead k = some .primary →
    k ∈ [.int, .double, .trueWord, .falseWord, .string, .char, .identifier]
  /-- A sign is read from a sign. -/
  sign {k : Kind} : g.lead k = some .sign → k ∈ [.not, .dash, .plusPlus, .minusMinus]
  /-- An operation is read from an operator. -/
  binary {k : Kind} : g.follow k = some .binary → ∃ operator, Operator.ofKind? k = some operator

theorem Grammar.fitting_standard : Grammar.standard.Fitting where
  marks := Grammar.byMarks_standard
  primary {k} leads := by cases k <;> first | decide | cases leads
  sign {k} leads := by cases k <;> first | decide | cases leads
  binary {k} follows := by cases k <;> first | exact ⟨_, rfl⟩ | cases follows

namespace Parse

variable {tokens : List Token} {g : Grammar} {c : Cursor}

/-! ## What begins an expression -/

section Literal

variable {α : Type} {read : String → Option α} {build : α → Span → Expr}

/-- A literal whose text has a value. -/
theorem run_literal_some {value : α} (found : read c.current.text = some value) :
    literal read build c = .ok (build value c.current.span) c.next := by
  refine bind_eq_ok.2 ⟨c.current, c.next, rfl, ?_⟩
  rw [found]
  rfl

/-- A literal whose text has none. -/
theorem run_literal_none (nothing : read c.current.text = none) :
    literal read build c = .error (.fault ⟨.numberParseError c.current.text, c.here⟩) c.next := by
  refine bind_eq_error.2 (.inr ⟨c.current, c.next, rfl, ?_⟩)
  rw [nothing]
  rfl

/-- **A literal whose text may have no value** is traced, or it is a number without a value. -/
theorem traces_literal
    (valued : ∀ value, read c.current.text = some value →
      (c.kind = .int → ∃ value, integer? c.current.text = some value) ∧
        (c.current ∈ tokens → (build value c.current.span).Traced tokens))
    (valueless : read c.current.text = none → c.current.Valueless) :
    Traces tokens (literal read build) (Expr.Traced tokens) c := by
  intro sound
  cases found : read c.current.text with
  | some value =>
    rw [run_literal_some found]
    exact .ended (sound.next (valued value found).1) trivial ((valued value found).2 sound.mem)
  | none =>
    have same : c.next.tokens = tokens := c.tokens_next.trans sound.tokens
    rw [run_literal_none found]
    exact .halted ⟨same, .number (same ▸ sound.mem) (valueless found)⟩

end Literal

theorem traces_int (isInt : c.kind = .int) :
    Traces tokens (literal integer? .int) (Expr.Traced tokens) c :=
  traces_literal (fun value read => ⟨fun _ => ⟨value, read⟩, fun mem =>
    Expr.traced_int mem (.digits isInt read)⟩) (.int isInt)

theorem traces_double (isDouble : c.kind = .double) :
    Traces tokens (literal Binary64.ofText? .double) (Expr.Traced tokens) c := by
  refine traces_literal (fun value _ => ⟨fun isInt => ?_, fun mem => ?_⟩) (.double isDouble)
  · rw [isDouble] at isInt
    cases isInt
  · exact Expr.traced_of_parts ⟨c.current, mem, rfl⟩ nofun nofun

theorem traces_textLiteral {build : String → Span → Expr} (notInt : c.kind ≠ .int)
    (spans : ∀ text span, (build text span).span = span)
    (notInteger : ∀ text span n place, build text span ≠ .int n place)
    (noParts : ∀ text span, (build text span).parts = []) :
    Traces tokens (textLiteral build) (Expr.Traced tokens) c := by
  refine Traces.take notInt fun mem => .pure (Expr.traced_of_parts ?_ (notInteger _ _) ?_)
  · rw [spans]
    exact ⟨c.current, mem, rfl⟩
  · rw [noParts]
    exact List.forall_mem_nil _

theorem traces_primary (begins : c.kind ∈
    [.int, .double, .trueWord, .falseWord, .string, .char, .identifier]) :
    Traces tokens primary (Expr.Traced tokens) c := by
  refine .onKind ?_
  split
  next isInt => exact traces_int isInt
  next isDouble => exact traces_double isDouble
  next isTrue =>
    exact Traces.mark (isTrue ▸ rfl) fun mem =>
      .pure (Expr.traced_of_parts ⟨c.current, mem, rfl⟩ nofun nofun)
  next isFalse =>
    exact Traces.mark (isFalse ▸ rfl) fun mem =>
      .pure (Expr.traced_of_parts ⟨c.current, mem, rfl⟩ nofun nofun)
  next isString =>
    exact traces_textLiteral (by rw [isString]; decide) (fun _ _ => rfl) nofun fun _ _ => rfl
  next isChar =>
    exact traces_textLiteral (by rw [isChar]; decide) (fun _ _ => rfl) nofun fun _ _ => rfl
  next =>
    refine .bind (traces_identifierOf fun _ => traces_name) fun found _ starts => ?_
    cases found with
    | plain text span => exact .pure (Expr.traced_of_parts starts nofun nofun)
    | applied segment => exact .pure (Expr.traced_of_parts starts nofun nofun)
  next noInt noDouble noTrue noFalse noString noChar noIdentifier =>
    simp only [List.mem_cons, List.not_mem_nil, or_false] at begins
    tauto

section Inner

variable {expr : Precedence → Parse Expr}
  (each : ∀ p c, Traces tokens (expr p) (Expr.Traced tokens) c)

include each

/-- **A sign** stands for the number of the operation that it is read as. -/
theorem traces_sign (isSign : c.kind ∈ [.not, .dash, .plusPlus, .minusMinus]) :
    Traces tokens (sign expr) (Expr.Traced tokens) c := by
  have isMark : c.kind.isMark = true := by
    simp only [List.mem_cons, List.not_mem_nil, or_false] at isSign
    rcases isSign with same | same | same | same <;> rw [same] <;> rfl
  refine Traces.mark isMark fun mem => .bind (each _ _) fun operand _ traced => ?_
  have number {n : Int} (stands : c.current.StandsFor n) (operator : Operator) :
      (Expr.operation operator operand (.int n c.current.span)).Traced tokens :=
    Expr.traced_operation operator traced (Expr.traced_int mem stands)
  split
  next =>
    refine .pure (Expr.traced_of_parts ⟨c.current, mem, rfl⟩ (fun n place same => ?_)
      (List.forall_mem_singleton.2 traced))
    cases same
  next isDash => exact .pure (number (.minus isDash) _)
  next isPlus => exact .pure (number (.increment isPlus) _)
  next isMinus => exact .pure (number (.decrement isMinus) _)
  next noNot noDash noPlus noMinus =>
    simp only [List.mem_cons, List.not_mem_nil, or_false] at isSign
    rcases isSign with same | same | same | same
    · exact absurd same noNot
    · exact absurd same noDash
    · exact absurd same noPlus
    · exact absurd same noMinus

theorem traces_group (isMark : c.kind.isMark = true) :
    Traces tokens (group expr) (Expr.Traced tokens) c :=
  Traces.mark isMark fun _ => .bind (each _ _) fun _ _ traced =>
    .skip (traces_token (by decide)) fun _ _ => .pure traced

theorem traces_fieldValue :
    Traces tokens (fieldValue expr) (fun field => field.2.Traced tokens) c := by
  refine .skip (traces_token (by decide)) fun _ _ => ?_
  refine .bind (traces_expect (by decide)) fun token _ ⟨mem, _⟩ => .onKind ?_
  split
  · exact .pure (Expr.traced_of_parts ⟨token, mem, rfl⟩ nofun nofun)
  · exact .pure (Expr.traced_of_parts ⟨token, mem, rfl⟩ nofun nofun)
  · exact .skip (traces_token (by decide)) fun _ _ => .bind (each _ _) fun _ _ traced =>
      .pure traced

theorem traces_structLiteral : Traces tokens (structLiteral expr) (Expr.Traced tokens) c := by
  refine Traces.start fun starts => .skip (traces_consume (by decide)) fun isMutable _ => ?_
  refine .skip (traces_token (by decide)) fun _ _ => ?_
  refine .bind (traces_separated fun _ => traces_fieldValue each) fun fields _ areTraced => ?_
  refine .skip (traces_token (by decide)) fun _ _ => .bind (traces_spanFrom _) fun span _ same => ?_
  refine .pure (Expr.traced_of_parts (same ▸ starts) nofun ?_)
  rw [Expr.parts, List.forall_mem_map]
  exact areTraced

theorem traces_arrayLiteral : Traces tokens (arrayLiteral expr) (Expr.Traced tokens) c := by
  refine Traces.start fun starts => .skip (traces_token (by decide)) fun _ _ => ?_
  refine .bind (traces_separated fun _ => each _ _) fun values _ areTraced => ?_
  refine .skip (traces_token (by decide)) fun _ _ => .bind (traces_spanFrom _) fun span _ same => ?_
  exact .pure (Expr.traced_of_parts (same ▸ starts) nofun areTraced)

theorem traces_opening (fitting : g.Fitting) :
    Traces tokens (opening g expr) (Expr.Traced tokens) c := by
  refine .look ?_
  split
  next form leads =>
    cases form with
    | primary => exact traces_primary (fitting.primary leads)
    | sign => exact traces_sign each (fitting.sign leads)
    | group => exact traces_group each (fitting.marks.lead leads (by decide))
    | structLiteral => exact traces_structLiteral each
    | arrayLiteral => exact traces_arrayLiteral each
  next => exact Traces.refuse .noExpression

/-! ## What continues an expression -/

variable {left : Expr} (isLeft : left.Traced tokens)

include isLeft

theorem traces_binary (isMark : c.kind.isMark = true)
    (isOperator : ∃ operator, Operator.ofKind? c.kind = some operator) (precedence : Precedence) :
    Traces tokens (binary expr left precedence) (Expr.Traced tokens) c := by
  obtain ⟨operator, known⟩ := isOperator
  refine Traces.mark isMark fun _ => ?_
  split
  next unknown => cases known.symm.trans unknown
  next => exact .bind (each _ _) fun _ _ isRight => .pure (Expr.traced_operation _ isLeft isRight)

theorem traces_call (isMark : c.kind.isMark = true) :
    Traces tokens (call expr left) (Expr.Traced tokens) c := by
  refine Traces.mark isMark fun _ => .bind (traces_separated fun _ => each _ _) fun _ _ areTraced => ?_
  refine .skip (traces_token (by decide)) fun _ _ => .bind (traces_spanFrom _) fun span _ same => ?_
  exact .pure (Expr.traced_of_parts (same ▸ isLeft.startsIn) nofun
    (List.forall_mem_cons.2 ⟨isLeft, areTraced⟩))

theorem traces_index (isMark : c.kind.isMark = true) :
    Traces tokens (index expr left) (Expr.Traced tokens) c := by
  refine Traces.mark isMark fun _ => .bind (each _ _) fun _ _ isPosition => ?_
  refine .skip (traces_token (by decide)) fun _ _ => .bind (traces_spanFrom _) fun span _ same => ?_
  exact .pure (Expr.traced_of_parts (same ▸ isLeft.startsIn) nofun
    (List.forall_mem_cons.2 ⟨isLeft, List.forall_mem_singleton.2 isPosition⟩))

omit each in
theorem traces_member (isMark : c.kind.isMark = true) :
    Traces tokens (member left) (Expr.Traced tokens) c := by
  refine Traces.mark isMark fun _ => ?_
  split
  next =>
    refine .skip traces_freshId fun _ _ => .skip traces_segment fun _ _ => ?_
    refine .bind (traces_spanFrom _) fun span _ same => .pure ?_
    exact Expr.traced_of_parts (same ▸ isLeft.startsIn) nofun nofun
  next =>
    refine .skip traces_segment fun _ _ => .bind (traces_spanFrom _) fun span _ same => .pure ?_
    exact Expr.traced_of_parts (same ▸ isLeft.startsIn) nofun nofun
  next =>
    refine .skip (traces_token (by decide)) fun _ _ => ?_
    refine .bind (traces_spanFrom _) fun span _ same => .pure ?_
    exact Expr.traced_of_parts (same ▸ isLeft.startsIn) nofun (List.forall_mem_singleton.2 isLeft)

theorem traces_extend (fitting : g.Fitting) :
    Traces tokens (extend g expr left) (Expr.Traced tokens) c := by
  refine .onKind ?_
  split
  next form follows =>
    have isMark := fitting.marks.follow follows
    cases form with
    | binary => exact traces_binary each isLeft isMark (fitting.binary follows) _
    | call => exact traces_call each isLeft isMark
    | index => exact traces_index each isLeft isMark
    | member => exact traces_member isLeft isMark
  next => exact .pure isLeft

end Inner

theorem traces_exprUpTo (fitting : g.Fitting) (n : Nat) (precedence : Precedence) :
    Traces tokens (exprUpTo g n precedence) (Expr.Traced tokens) c := by
  induction n generalizing precedence c with
  | zero => exact Traces.refuse .exhausted
  | succ n ih =>
    refine .bind (traces_opening (fun p c => ih p) fitting) fun _ _ isFirst => ?_
    exact traces_growWhile isFirst fun _ _ _ isLeft =>
      traces_extend (fun p c => ih p) isLeft fitting

/-- **An expression is traced** to the tokens that it is parsed from. -/
theorem traces_expr (fitting : g.Fitting) (precedence : Precedence) :
    Traces tokens (expr g precedence) (Expr.Traced tokens) c :=
  .look (traces_exprUpTo fitting _ precedence)

end Parse

end FrontEnd

import FrontEnd.Grammar.Expr
import FrontEnd.Proofs.Grammar.Judging
import FrontEnd.Proofs.Grammar.Progress
import FrontEnd.Proofs.Token.Scanned

/-!
# What parsing ensures

A value that a parsing action gives has a shape that the action does not write into its type: a name
has a segment, a list of arguments has items, an integer has no sign. An action ensures a property
when every value has it that the action gives from a cursor over scanned tokens (`Parse.Ensures`).

The cursor has at most a number of tokens left, since a name is taken with a bound on its depth and
the arguments in it are known through the lookahead, which needs the bound to be large enough.

This module has the rules, and what the actions for names and for expressions ensure.
-/

namespace FrontEnd

namespace Cursor

/-- **A cursor over scanned tokens that end**, with a double among them only if there may be any, of
which at most a number are left. -/
structure Fit (doubles : Prop) (n : Nat) (c : Cursor) : Prop where
  ends : c.Ends
  few : c.left.length ≤ n
  scanned : ∀ token ∈ c.tokens, token.Scanned
  doubled : ∀ token ∈ c.tokens, token.kind = .double → doubles

variable {doubles : Prop} {n : Nat} {c c' : Cursor}

/-- A cursor over the same tokens is as fit as it is far. -/
theorem Fit.move (fit : c.Fit doubles n) (same : c'.tokens = c.tokens)
    (fewer : c'.left.length ≤ c.left.length) : c'.Fit doubles n := by
  refine ⟨?_, Nat.le_trans fewer fit.few, ?_, ?_⟩
  · rw [Ends, same]
    exact fit.ends
  · rw [same]
    exact fit.scanned
  · rw [same]
    exact fit.doubled

theorem length_left_next_le (c : Cursor) : c.next.left.length ≤ c.left.length := by
  by_cases last : c.ahead = []
  · have same : c.next = c := by
      unfold next
      rw [last]
    exact Nat.le_of_eq (by rw [same])
  · have fewer := length_left_next last
    omega

theorem Fit.next (fit : c.Fit doubles n) : c.next.Fit doubles n :=
  fit.move c.tokens_next c.length_left_next_le

theorem current_mem (c : Cursor) : c.current ∈ c.tokens := by
  simp [tokens]

end Cursor

/-- **An action ensures a property** of the value that it gives from a fit cursor. -/
def Ensures {α : Type} (doubles : Prop) (n : Nat) (action : Parse α) (good : α → Prop)
    (c : Cursor) : Prop :=
  Meets (.keeping (Cursor.Fit doubles n)) action (fun value _ => good value) c

namespace Ensures

open Token

variable {α β : Type} {doubles : Prop} {action : Parse α} {n : Nat} {good : α → Prop}
  {final : β → Prop} {c : Cursor}

/-- An action behind a token that is taken whatever it is. -/
theorem advance {next : Token → Parse β}
    (behind : c.current.Scanned → (c.current.kind = .double → doubles) →
      Ensures doubles n (next c.current) final c.next) :
    Ensures doubles n (Parse.advance >>= next) final c :=
  .token (fun fit => fit.next) trivial fun fit =>
    behind (fit.scanned _ c.current_mem) (fit.doubled _ c.current_mem)

/-- An action behind a number that is taken. -/
theorem number {next : Nat → Parse β}
    (behind : Ensures doubles n (next c.nextId) final { c with nextId := c.nextId + 1 }) :
    Ensures doubles n (Parse.freshId >>= next) final c :=
  .drawn (fun fit => fit.move rfl (Nat.le_refl _)) trivial behind

/-- What is ensured of few tokens is ensured where no more are left. -/
theorem shrink (here : Ensures doubles c.left.length action good c) :
    Ensures doubles n action good c := by
  refine .of_runs fun fit value c' run => ?_
  have fitHere : c.Fit doubles c.left.length := ⟨fit.ends, Nat.le_refl _, fit.scanned, fit.doubled⟩
  obtain ⟨fitThen, -, isGood⟩ := here.of_eq_ok fitHere run
  have few := Nat.le_trans fitThen.few fit.few
  exact ⟨⟨fitThen.ends, few, fitThen.scanned, fitThen.doubled⟩, trivial, isGood⟩

/-- An action that takes a word ensures what the word says. -/
theorem of_takes {word rest : List Kind} (taken : Takes action word rest good)
    (kinds : c.left.map Token.kind = word ++ rest) : Ensures doubles n action good c := by
  refine .of_runs fun fit value c' run => ?_
  obtain ⟨found, between, foundRun, same, moved, isGood⟩ := taken.run kinds
  rw [foundRun] at run
  cases run
  refine ⟨fit.move same ?_, trivial, isGood⟩
  rw [Cursor.left_of_index same moved, List.length_drop]
  exact Nat.sub_le ..

end Ensures

namespace Parse

open Token Lookahead

variable {α : Type} {doubles : Prop} {n : Nat} {good : α → Prop} {c : Cursor}

/-! ## Single tokens -/

theorem ensures_here : Ensures doubles n here (fun _ => True) c := .pure trivial

theorem ensures_spanFrom (start : Position) : Ensures doubles n (spanFrom start) (fun _ => True) c :=
  .pure trivial

theorem ensures_unexpected (expected : String) : Ensures doubles n (unexpected expected) good c :=
  .halt

theorem ensures_freshId : Ensures doubles n freshId (fun _ => True) c := by
  rw [← bind_pure freshId]
  exact Ensures.number (.pure trivial)

theorem ensures_consume (k : Kind) : Ensures doubles n (consume k) (fun _ => True) c :=
  .look (.ite (fun _ => Ensures.advance fun _ _ => .pure trivial) fun _ => .pure trivial)

theorem ensures_expect (k : Kind) :
    Ensures doubles n (expect k) (fun token => token.Scanned ∧ token.kind = k) c := by
  refine .look (.ite (fun here => ?_) fun _ => .halt)
  rw [← bind_pure advance]
  exact Ensures.advance fun scanned _ => .pure ⟨scanned, here⟩

/-- A token that matters to nothing. -/
theorem ensures_token (k : Kind) : Ensures doubles n (expect k) (fun _ => True) c :=
  (ensures_expect k).weaken fun _ _ _ => trivial

theorem ensures_separator (closing : Kind) : Ensures doubles n (separator closing) (fun _ => True) c :=
  .look (.ite (fun _ => Ensures.advance fun _ _ => .pure trivial) fun _ =>
    .ite (fun _ => .pure trivial) fun _ => .halt)

/-! ## Repetition -/

section Repetition

variable {holds : Cursor → Bool} {item : Parse α} {step : α → Parse α}

/-- **A repetition ensures of every value** what the action ensures where it is repeated. -/
theorem ensures_repeatWhile (each : ∀ c, holds c = true → Ensures doubles n item good c) :
    Ensures doubles n (repeatWhile holds item) (fun values => ∀ value ∈ values, good value) c :=
  .forall_repeatWhile (fun _ _ => trivial) each

theorem ensures_repeatUntil {closing : Kind} (each : ∀ c, Ensures doubles n item good c) :
    Ensures doubles n (repeatUntil closing item) (fun values => ∀ value ∈ values, good value) c :=
  ensures_repeatWhile fun c _ => each c

theorem ensures_separated {closing : Kind} (each : ∀ c, Ensures doubles n item good c) :
    Ensures doubles n (separated closing item) (fun values => ∀ value ∈ values, good value) c :=
  ensures_repeatUntil fun c => .bind (each c) fun _ _ isGood =>
    .skip (ensures_separator closing) fun _ _ => .pure isGood

/-- **What each step keeps holds of what is grown.** -/
theorem ensures_growWhile {value : α} (isGood : good value)
    (each : ∀ value c, good value → Ensures doubles n (step value) good c) :
    Ensures doubles n (growWhile holds step value) good c :=
  .growWhile (fun _ _ => trivial) (fun value c _ isGood => each value c isGood) isGood

end Repetition

/-! ## Names -/

/-- **An identifier is plain, or it has arguments** such as a list has. -/
def GoodIdentifier : Identifier → Prop
  | .plain _ _ => True
  | .applied segment => segment.arguments ≠ [] ∧ segment.Printable

section Names

variable {name : Parse Name}
  (taken : ∀ l rest, Word .list l → rest ≠ [] → l.length ≤ n →
    Takes (typeArguments name) l rest (GoodItems ItemName))

include taken

/-- Arguments are taken where the lookahead finds a list, so they are the items of the list. -/
theorem ensures_typeArguments (opens : c.opensArguments = true) :
    Ensures doubles n (typeArguments name) (GoodItems ItemName) c := by
  intro fit
  rw [Cursor.opensArguments_eq, Option.isSome_iff_exists] at opens
  obtain ⟨rest, found⟩ := opens
  obtain ⟨l, list, kinds⟩ := afterList?_eq_some_iff.1 found
  have fromIndex : (c.tokens.drop c.index).map Token.kind = l ++ rest := by
    rw [← c.left_eq]
    exact kinds
  have more : rest ≠ [] := fit.ends.behind_ne_nil list fromIndex
  have short : l.length ≤ n := by
    have lengths := congrArg List.length kinds
    rw [List.length_map, List.length_append] at lengths
    have few := fit.few
    omega
  exact Ensures.of_takes (taken l rest list more short) kinds fit

theorem ensures_identifierOf : Ensures doubles n (identifierOf name) GoodIdentifier c := by
  refine .skip (ensures_token _) fun token c' => .look (.ite (fun opens => ?_) fun _ => ?_)
  · refine Ensures.number (.bind (ensures_typeArguments taken opens) fun arguments _ areItems => ?_)
    exact .skip (ensures_spanFrom _) fun _ _ => .pure areItems
  · exact .pure trivial

theorem ensures_segmentOf : Ensures doubles n (segmentOf name) Segment.Printable c := by
  refine .bind (ensures_identifierOf taken) fun found c' isGood => ?_
  cases found with
  | plain text span =>
    exact .skip ensures_freshId fun id _ => .pure (Segment.printable_plain id text span)
  | applied segment => exact .pure isGood.2

end Names

theorem ensures_nameUpTo (n : Nat) : Ensures doubles n (nameUpTo n) Name.Printable c := by
  cases n with
  | zero => exact .halt
  | succ n =>
    have segment (c : Cursor) :
        Ensures doubles (n + 1) (segmentOf (nameUpTo n)) Segment.Printable c :=
      ensures_segmentOf fun _ _ list more short => takes_argumentsUpTo list more short
    refine .skip ensures_here fun _ _ => .bind (segment _) fun first _ isGood => ?_
    have behindPoint (c : Cursor) : Ensures doubles (n + 1)
        (do
          let _ ← advance
          segmentOf (nameUpTo n)) Segment.Printable c :=
      Ensures.advance fun _ _ => segment _
    refine .bind (ensures_repeatWhile fun c _ => behindPoint c) fun rest _ areGood => ?_
    refine .skip (ensures_spanFrom _) fun span _ => .pure ?_
    exact ⟨List.cons_ne_nil _ _, List.forall_mem_cons.2 ⟨isGood, areGood⟩⟩

/-- **A name has segments, and their arguments are items.** -/
theorem ensures_name : Ensures doubles n Parse.name Name.Printable c :=
  .look (Ensures.shrink (ensures_nameUpTo _))

theorem ensures_identifier : Ensures doubles n identifier GoodIdentifier c :=
  ensures_identifierOf fun _ _ list more _ => takes_itemArguments list more

theorem ensures_segment : Ensures doubles n segment Segment.Printable c :=
  ensures_segmentOf fun _ _ list more _ => takes_itemArguments list more

theorem ensures_typeParameter : Ensures doubles n typeParameter TypeParameter.Printable c := by
  refine .skip (ensures_token _) fun token _ => .skip (ensures_consume _) fun bounded _ => ?_
  refine .ite (fun _ => ?_) fun _ => ?_
  · have bound (c : Cursor) : Ensures doubles n (some <$> Parse.name)
        (fun bound => ∀ name ∈ bound, name.Printable) c :=
      ensures_name.map fun _ _ isGood => by simp [isGood]
    refine .bind (bound _) fun _ _ isGood => ?_
    exact .skip (ensures_separator _) fun _ _ => .pure isGood
  · rw [pure_bind]
    exact .skip (ensures_separator _) fun _ _ => .pure nofun

theorem ensures_typeParameters :
    Ensures doubles n typeParameters (fun parameters => ∀ p ∈ parameters, p.Printable) c :=
  .skip (ensures_consume _) fun _ _ => .ite
    (fun _ => .bind (ensures_repeatUntil fun _ => ensures_typeParameter) fun _ _ areGood =>
      .skip (ensures_token _) fun _ _ => .pure areGood)
    fun _ => .pure (List.forall_mem_nil _)

theorem ensures_arrayMark : Ensures doubles n arrayMark (fun _ => True) c :=
  .skip (ensures_consume _) fun _ _ => .ite
    (fun _ => .skip (ensures_token _) fun _ _ => .pure trivial) fun _ => .pure trivial

/-! ## What begins an expression -/

theorem ensures_textLiteral {build : String → Span → Expr}
    (written : ∀ text span, (build text span).Shaped doubles) :
    Ensures doubles n (textLiteral build) (Expr.Shaped doubles) c :=
  Ensures.advance fun _ _ => .pure (written _ _)

theorem ensures_integer (isInt : c.kind = .int) :
    Ensures doubles n (literal integer? Expr.int) (Expr.Shaped doubles) c := by
  refine Ensures.advance fun scanned _ => ?_
  cases read : integer? c.current.text with
  | none => exact .halt
  | some value =>
    obtain ⟨m, rfl, small⟩ := nat_of_integer? (scanned.int isInt) read
    exact .pure (.int small)

theorem ensures_double (isDouble : c.kind = .double) :
    Ensures doubles n (literal Binary64.ofText? Expr.double) (Expr.Shaped doubles) c := by
  refine Ensures.advance fun _ doubled => ?_
  cases Binary64.ofText? c.current.text with
  | none => exact .halt
  | some bits => exact .pure (.double (doubled isDouble))

theorem ensures_primary : Ensures doubles n primary (Expr.Shaped doubles) c := by
  refine .onKind ?_
  split
  next isInt => exact ensures_integer isInt
  next isDouble => exact ensures_double isDouble
  next => exact Ensures.advance fun _ _ => .pure .bool
  next => exact Ensures.advance fun _ _ => .pure .bool
  next => exact ensures_textLiteral fun _ _ => .string
  next => exact ensures_textLiteral fun _ _ => .char
  next =>
    refine .bind ensures_identifier fun found _ isGood => ?_
    cases found with
    | plain text span => exact .pure .symbol
    | applied segment =>
      refine .pure (.name (Name.printable_of_segment isGood.2 _) ?_)
      rintro _ ⟨⟩
      exact isGood.1
  next => exact ensures_unexpected _

section Inner

variable {expr : Precedence → Parse Expr}
  (inner : ∀ c p, Ensures doubles n (expr p) (Expr.Shaped doubles) c)

include inner

theorem ensures_sign : Ensures doubles n (sign expr) (Expr.Shaped doubles) c := by
  have one (span : Span) : (Expr.int 1 span).Shaped doubles :=
    @Expr.Shaped.int doubles 1 span (by decide)
  refine Ensures.advance fun _ _ => .bind (inner _ _) fun operand _ isGood => ?_
  split
  · exact .pure (.negate isGood)
  · exact .pure (.minus isGood)
  · exact .pure (.binary isGood (one _))
  · exact .pure (.binary isGood (one _))
  · exact .halt

theorem ensures_group : Ensures doubles n (group expr) (Expr.Shaped doubles) c :=
  Ensures.advance fun _ _ => .bind (inner _ _) fun _ _ isGood =>
    .skip (ensures_token _) fun _ _ => .pure isGood

theorem ensures_fieldValue :
    Ensures doubles n (fieldValue expr) (fun field => field.2.Shaped doubles) c := by
  refine .skip (ensures_token _) fun _ _ => .skip (ensures_token _) fun token _ => .onKind ?_
  split
  · exact .pure .symbol
  · exact .pure .symbol
  · refine .skip (ensures_token _) fun _ _ => .bind (inner _ _) fun _ _ isGood => .pure isGood

theorem ensures_structLiteral : Ensures doubles n (structLiteral expr) (Expr.Shaped doubles) c :=
  .skip ensures_here fun _ _ => .skip (ensures_consume _) fun _ _ =>
    .skip (ensures_token _) fun _ _ =>
      .bind (ensures_separated fun _ => ensures_fieldValue inner) fun _ _ areGood =>
        .skip (ensures_token _) fun _ _ => .skip (ensures_spanFrom _) fun _ _ =>
          .pure (.structLiteral areGood)

theorem ensures_arrayLiteral : Ensures doubles n (arrayLiteral expr) (Expr.Shaped doubles) c :=
  .skip ensures_here fun _ _ => .skip (ensures_token _) fun _ _ =>
    .bind (ensures_separated fun _ => inner _ _) fun _ _ areGood =>
      .skip (ensures_token _) fun _ _ => .skip (ensures_spanFrom _) fun _ _ =>
        .pure (.arrayLiteral areGood)

theorem ensures_lead (form : Lead) : Ensures doubles n (lead expr form) (Expr.Shaped doubles) c := by
  cases form with
  | primary => exact ensures_primary
  | sign => exact ensures_sign inner
  | group => exact ensures_group inner
  | structLiteral => exact ensures_structLiteral inner
  | arrayLiteral => exact ensures_arrayLiteral inner

theorem ensures_opening {g : Grammar} :
    Ensures doubles n (opening g expr) (Expr.Shaped doubles) c := by
  refine .look ?_
  cases g.lead c.kind with
  | none => exact .halt
  | some form => exact ensures_lead inner form

/-! ## What continues an expression -/

variable {left : Expr} (isGood : left.Shaped doubles)

include isGood

theorem ensures_binary (precedence : Precedence) :
    Ensures doubles n (binary expr left precedence) (Expr.Shaped doubles) c := by
  refine Ensures.advance fun _ _ => ?_
  cases Operator.ofKind? c.current.kind with
  | none => exact .halt
  | some operator => exact .bind (inner _ _) fun _ _ rightGood => .pure (.binary isGood rightGood)

theorem ensures_call : Ensures doubles n (call expr left) (Expr.Shaped doubles) c :=
  Ensures.advance fun _ _ => .bind (ensures_separated fun _ => inner _ _) fun _ _ areGood =>
    .skip (ensures_token _) fun _ _ => .skip (ensures_spanFrom _) fun _ _ =>
      .pure (.call isGood areGood)

theorem ensures_index : Ensures doubles n (index expr left) (Expr.Shaped doubles) c :=
  Ensures.advance fun _ _ => .bind (inner _ _) fun _ _ positionGood =>
    .skip (ensures_token _) fun _ _ => .skip (ensures_spanFrom _) fun _ _ =>
      .pure (.index isGood positionGood)

omit inner in
/-- A name that a point lengthens has a segment in front of its last. -/
theorem ensures_member : Ensures doubles n (member left) (Expr.Shaped doubles) c := by
  have select (base : Expr) (c : Cursor) (baseGood : base.Shaped doubles)
      (noName : base.isName = false) : Ensures doubles n
      (do
        let token ← expect .identifier
        return Expr.member base token.text (← spanFrom base.span.start)) (Expr.Shaped doubles) c :=
    .skip (ensures_token _) fun _ _ => .skip (ensures_spanFrom _) fun _ _ =>
      .pure (.member baseGood noName)
  refine Ensures.advance fun _ _ => ?_
  cases isGood with
  | @symbol text span =>
    refine .skip ensures_freshId fun id _ => .bind ensures_segment fun second _ secondGood => ?_
    refine .skip (ensures_spanFrom _) fun _ _ => .pure (.name ⟨List.cons_ne_nil _ _, ?_⟩ nofun)
    exact List.forall_mem_cons.2 ⟨Segment.printable_plain _ _ _, by simpa using secondGood⟩
  | @name name nameGood =>
    refine .bind ensures_segment fun next _ nextGood => .skip (ensures_spanFrom _) fun _ _ => ?_
    refine .pure (.name ⟨by simp, ?_⟩ ?_)
    · intro segment mem
      rcases List.mem_append.1 mem with mem | mem
      · exact nameGood.segment _ mem
      · rw [List.mem_singleton.1 mem]
        exact nextGood
    · intro segment single
      have some := List.length_pos_iff.2 nameGood.nonempty
      have lengths := congrArg List.length single
      simp only [List.length_append, List.length_singleton] at lengths
      omega
  | bool => exact select _ _ .bool rfl
  | double allowed => exact select _ _ (.double allowed) rfl
  | int small => exact select _ _ (.int small) rfl
  | string => exact select _ _ .string rfl
  | char => exact select _ _ .char rfl
  | negate h => exact select _ _ (.negate h) rfl
  | minus h => exact select _ _ (.minus h) rfl
  | binary l r => exact select _ _ (.binary l r) rfl
  | call f a => exact select _ _ (.call f a) rfl
  | index b p => exact select _ _ (.index b p) rfl
  | member b no => exact select _ _ (.member b no) rfl
  | structLiteral h => exact select _ _ (.structLiteral h) rfl
  | arrayLiteral h => exact select _ _ (.arrayLiteral h) rfl

theorem ensures_extend {g : Grammar} :
    Ensures doubles n (extend g expr left) (Expr.Shaped doubles) c := by
  refine .onKind ?_
  cases g.follow c.kind with
  | none => exact .pure isGood
  | some form =>
    cases form with
    | binary => exact ensures_binary inner isGood _
    | call => exact ensures_call inner isGood
    | index => exact ensures_index inner isGood
    | member => exact ensures_member isGood

end Inner

theorem ensures_exprUpTo (g : Grammar) (k : Nat) (precedence : Precedence) :
    Ensures doubles n (exprUpTo g k precedence) (Expr.Shaped doubles) c := by
  induction k generalizing c precedence with
  | zero => exact .halt
  | succ k ih =>
    have inner (c : Cursor) (p : Precedence) :
        Ensures doubles n (exprUpTo g k p) (Expr.Shaped doubles) c := ih p
    refine .bind (ensures_opening inner) fun first _ isGood => ?_
    exact ensures_growWhile isGood fun _ _ leftGood => ensures_extend inner leftGood

/-- **An expression has the shape that texts have.** -/
theorem ensures_expr (g : Grammar) (precedence : Precedence) :
    Ensures doubles n (expr g precedence) (Expr.Shaped doubles) c :=
  .look (ensures_exprUpTo g _ precedence)

end Parse

end FrontEnd

import FrontEnd.Proofs.ListElements
import FrontEnd.Proofs.NumberLiterals
import FrontEnd.Proofs.Token.Rereading

/-!
# Which integers can be written

The decimal text of an integer is digits, or a minus and digits. The minus is a sign of its own: it is
scanned as a token, and parsed as a product with minus one, behind the digits, which are read without
it. So the digits alone decide, and what can be written is as large below zero as above it. The least
integer of 64 bits is not among it.

**The law** (`Parse.expr_toString`): the text of an integer is always scanned; it is parsed exactly
from `-(2 ^ 63 - 1)` to `2 ^ 63 - 1`, and then to an expression for the integer.
-/

namespace FrontEnd

open Token

/-! ## The tokens of an integer -/

/-- A negative number is written with a minus and the digits of its opposite. -/
theorem toList_toString_negSucc (n : Nat) :
    (toString (Int.negSucc n)).toList = '-' :: Nat.toDigits 10 (n + 1) := by
  change ("-" ++ Nat.repr (n + 1)).toList = _
  simp [Nat.repr]

/-- The token of the digits of a number. -/
def digitsAt (n : Nat) (here : Position) : Token :=
  ⟨.int, String.ofList (Nat.toDigits 10 n), ⟨here, here.past (Nat.toDigits 10 n)⟩⟩

/-- The token of a minus. -/
def minusAt (here : Position) : Token :=
  ⟨.dash, "-", ⟨here, here.past ['-']⟩⟩

theorem worth_digitsAt (n : Nat) (here : Position) : (digitsAt n here).Worth n where
  kind := rfl
  digits := by
    rw [digitsAt, String.toList_ofList, isNumeral_toDigits]
  value := by
    rw [digitsAt, String.toList_ofList, numeral_toDigits]

/-- **Digits are scanned as one integer.** -/
theorem scan_digits (n : Nat) (here : Position) : scan here (Nat.toDigits 10 n) 0 =
    .ok [digitsAt n here, .ending (digitsAt n here).span.stop] := by
  have proper : Lexeme.Proper (.int, String.ofList (Nat.toDigits 10 n)) := by
    refine .int (by simp) fun c mem => ?_
    rw [String.toList_ofList] at mem
    exact Nat.isDigit_of_mem_toDigits (by decide) (Nat.le_refl _) mem
  have chars : Lexeme.written (.int, String.ofList (Nat.toDigits 10 n)) = Nat.toDigits 10 n :=
    String.toList_ofList
  have scanned := proper.scan here
  rwa [chars] at scanned

/-- **A minus before digits is scanned by itself**: they do not lengthen it. -/
theorem scan_minus_digits (n : Nat) (here : Position) : scan here ('-' :: Nat.toDigits 10 n) 0 =
    .ok [minusAt here, digitsAt n (minusAt here).span.stop,
      .ending (digitsAt n (minusAt here).span.stop).span.stop] := by
  obtain ⟨first, rest, spelled⟩ := List.exists_cons_of_ne_nil (@Nat.toDigits_ne_nil n 10)
  have digit : first.isDigit = true :=
    Nat.isDigit_of_mem_toDigits (n := n) (by decide) (Nat.le_refl _) (by rw [spelled]; simp)
  have apart : first ≠ '-' ∧ first ≠ '=' := by
    constructor <;> rintro rfl <;> cases digit
  have starting : Pattern.table.filter (·.starts '-') =
      [.fixed "--" .minusMinus, .fixed "-=" .minusEquals, .fixed "-" .dash] := by
    decide
  have fits : Pattern.first? ('-' :: Nat.toDigits 10 n) = some (.fixed "-" .dash, 1) := by
    have single : "-".length = 1 := by decide
    rw [spelled, Pattern.first?_cons, starting]
    simp [Pattern.extent?, apart.1.symm, apart.2.symm, single]
  have behind := scan_digits n (here.past ['-'])
  have whole : scan here ('-' :: Nat.toDigits 10 n) 0 =
      (scan (here.past ['-']) (Nat.toDigits 10 n) 0).map (minusAt here :: ·) :=
    scan_first fits
  rw [whole, behind]
  rfl

/-! ## Their expression -/

/-- **The integer that an expression writes**: itself, or a product of written integers. -/
inductive Expr.Writes : Expr → Int → Prop
  | int {n : Int} {span : Span} : Writes (.int n span) n
  | product {left right : Expr} {m n : Int} : Writes left m → Writes right n →
    Writes (.operation .multiply left right) (m * n)

namespace Parse

/-- **What is left of reading a number**: a value with nothing behind it but the end, or the digits
refused where they stand. -/
inductive ReadsNumber (digits : Token) (n : Nat) (value : Expr) :
    EStateM.Result Halt Cursor Expr → Prop
  | read {c : Cursor} : n ≤ 2 ^ 63 - 1 → c.kind = .eof → ReadsNumber digits n value (.ok value c)
  | refused {c : Cursor} : 2 ^ 63 - 1 < n → ReadsNumber digits n value
    (.error (.fault ⟨.numberParseError digits.text, digits.span.start⟩) c)

variable {c c' : Cursor} {n depth : Nat} {p : Precedence}

/-- An action that looks at the kind of the current token goes on with it. -/
theorem kind_bind {α : Type} (next : Kind → Parse α) (c : Cursor) :
    (kind >>= next) c = next c.kind c := rfl

/-- What opens an expression with nothing behind it is the expression. -/
theorem exprUpTo_of_opening {value : Expr}
    (opens : opening .standard (exprUpTo .standard depth) c = .ok value c')
    (ended : c'.kind = .eof) : exprUpTo .standard (depth + 1) p c = .ok value c' :=
  bind_eq_ok.2 ⟨value, c', opens, run_growWhile_none (continues_of_eof ended)⟩

/-- An expression is refused where its opening is. -/
theorem exprUpTo_refused {halt : Halt}
    (opens : opening .standard (exprUpTo .standard depth) c = .error halt c') :
    exprUpTo .standard (depth + 1) p c = .error halt c' :=
  bind_eq_error.2 (.inl opens)

/-- An integer is opened by its literal. -/
theorem opening_int (isInt : c.kind = .int) (expr : Precedence → Parse Expr) :
    opening .standard expr c = literal integer? .int c := by
  unfold opening
  rw [get_bind, isInt]
  change primary c = _
  unfold primary
  rw [kind_bind, isInt]

/-- **Digits are read up to the bound.** -/
theorem readsNumber_digits (worth : c.current.Worth n) (ended : c.next.kind = .eof) (depth : Nat)
    (p : Precedence) :
    ReadsNumber c.current n (.int n c.current.span) (exprUpTo .standard (depth + 1) p c) := by
  have opens := opening_int worth.kind (exprUpTo .standard depth)
  by_cases small : n ≤ 2 ^ 63 - 1
  · rw [run_literal_some (worth.integer?_eq.trans (if_pos small))] at opens
    rw [exprUpTo_of_opening opens ended]
    exact .read small ended
  · rw [run_literal_none (worth.integer?_eq.trans (if_neg small))] at opens
    rw [exprUpTo_refused opens]
    exact .refused (Nat.lt_of_not_le small)

/-- **Digits behind a minus are read up to the same bound**, and multiplied with minus one. -/
theorem readsNumber_minus (isDash : c.kind = .dash) (worth : c.next.current.Worth n)
    (ended : c.next.next.kind = .eof) (depth : Nat) (p : Precedence) :
    ReadsNumber c.next.current n
      (.operation .multiply (.int n c.next.current.span) (.int (-1) c.current.span))
      (exprUpTo .standard (depth + 2) p c) := by
  have opens : opening .standard (exprUpTo .standard (depth + 1)) c =
      sign (exprUpTo .standard (depth + 1)) c := by
    unfold opening
    rw [get_bind, isDash]
    rfl
  have inner := readsNumber_digits worth ended depth .unary
  generalize digits : exprUpTo .standard (depth + 1) .unary c.next = result at inner
  cases inner with
  | @read behind small atEnd =>
    have signed : sign (exprUpTo .standard (depth + 1)) c =
        .ok (.operation .multiply (.int n c.next.current.span) (.int (-1) c.current.span))
          behind := by
      refine bind_eq_ok.2 ⟨c.current, c.next, rfl, bind_eq_ok.2 ⟨_, behind, digits, ?_⟩⟩
      have same : c.current.kind = .dash := isDash
      simp only [same]
      rfl
    rw [exprUpTo_of_opening (opens.trans signed) atEnd]
    exact .read small atEnd
  | refused large =>
    have refused : sign (exprUpTo .standard (depth + 1)) c = .error _ _ :=
      bind_eq_error.2 (.inr ⟨c.current, c.next, rfl, bind_eq_error.2 (.inl digits)⟩)
    rw [exprUpTo_refused (opens.trans refused)]
    exact .refused large

/-- **The text of an integer is read** as an expression that writes it, or its digits are refused. -/
theorem readsNumber_toString (name : String) (n : Int) (firstId : Nat) (p : Precedence) :
    ∃ tokens digits value, Token.ofText name (toString n) = .ok tokens ∧ digits ∈ tokens ∧
      digits.Worth n.natAbs ∧ value.Writes n ∧
      ReadsNumber digits n.natAbs value (expr .standard p (.ofTokens tokens firstId)) := by
  cases n with
  | ofNat n =>
    let digits := digitsAt n (.first name)
    refine ⟨[digits, .ending digits.span.stop], digits, .int n digits.span, ?_, List.mem_cons_self,
      worth_digitsAt n _, .int, ?_⟩
    · exact (congrArg (scan _ · 0) (toList_toString n)).trans (scan_digits n _)
    · exact @readsNumber_digits (.ofTokens [digits, .ending digits.span.stop] firstId) n
        (worth_digitsAt n _) rfl 1 p
  | negSucc n =>
    let minus := minusAt (.first name)
    let digits := digitsAt (n + 1) minus.span.stop
    have product : Int.negSucc n = (n + 1 : Nat) * -1 := by omega
    refine ⟨[minus, digits, .ending digits.span.stop], digits,
      .operation .multiply (.int (n + 1 : Nat) digits.span) (.int (-1) minus.span), ?_, by simp,
      worth_digitsAt (n + 1) _, product ▸ .product .int .int, ?_⟩
    · exact (congrArg (scan _ · 0) (toList_toString_negSucc n)).trans (scan_minus_digits (n + 1) _)
    · exact @readsNumber_minus (.ofTokens [minus, digits, .ending digits.span.stop] firstId) (n + 1)
        rfl (worth_digitsAt (n + 1) _) rfl 1 p

/-- **Which integers can be written.** The text of an integer is scanned, whatever the integer. An
expression is parsed from it exactly when the integer is within `2 ^ 63 - 1` of zero; it takes all of
the text and writes the integer. Otherwise the digits are refused, without the minus. -/
theorem expr_toString (name : String) (n : Int) (firstId : Nat) (p : Precedence) :
    ∃ tokens, Token.ofText name (toString n) = .ok tokens ∧
      ((∃ value c, expr .standard p (.ofTokens tokens firstId) = .ok value c) ↔
        -(2 ^ 63 - 1) ≤ n ∧ n ≤ 2 ^ 63 - 1) ∧
      (∀ value c, expr .standard p (.ofTokens tokens firstId) = .ok value c →
        c.kind = .eof ∧ value.Writes n) ∧
      ∀ halt c, expr .standard p (.ofTokens tokens firstId) = .error halt c →
        ∃ digits ∈ tokens, digits.Worth n.natAbs ∧
          halt = .fault ⟨.numberParseError digits.text, digits.span.start⟩ := by
  obtain ⟨tokens, digits, value, scanned, mem, worth, writes, reads⟩ :=
    readsNumber_toString name n firstId p
  refine ⟨tokens, scanned, ?_⟩
  generalize expr .standard p (.ofTokens tokens firstId) = result at reads
  cases reads with
  | @read c small atEnd =>
    have within : -(2 ^ 63 - 1) ≤ n ∧ n ≤ 2 ^ 63 - 1 := by omega
    refine ⟨iff_of_true ⟨value, c, rfl⟩ within, fun found last same => ?_, fun halt last same => ?_⟩
    · obtain ⟨rfl, rfl⟩ := EStateM.Result.ok.inj same
      exact ⟨atEnd, writes⟩
    · cases same
  | refused large =>
    have outside : ¬ (-(2 ^ 63 - 1) ≤ n ∧ n ≤ 2 ^ 63 - 1) := by omega
    refine ⟨iff_of_false ?_ outside, fun found last same => ?_, fun halt last same => ?_⟩
    · rintro ⟨found, last, same⟩
      cases same
    · cases same
    · obtain ⟨rfl, rfl⟩ := EStateM.Result.error.inj same
      exact ⟨digits, mem, worth, rfl⟩

/-- **The least integer of 64 bits cannot be written**: it is in the range, its text is scanned, and
its digits are refused, as they are worth one more than the bound. -/
theorem expr_toString_least :
    (-2 ^ 63 ≤ (-2 ^ 63 : Int) ∧ (-2 ^ 63 : Int) ≤ 2 ^ 63 - 1) ∧
      ∃ tokens, Token.ofText "m" (toString (-2 ^ 63 : Int)) = .ok tokens ∧
        ∃ digits ∈ tokens, digits.Worth (2 ^ 63) ∧
          ∃ c, expr .standard .loosest (.ofTokens tokens 0) =
            .error (.fault ⟨.numberParseError digits.text, digits.span.start⟩) c := by
  refine ⟨by decide, ?_⟩
  obtain ⟨tokens, digits, value, scanned, mem, worth, -, reads⟩ :=
    readsNumber_toString "m" (-2 ^ 63) 0 .loosest
  refine ⟨tokens, scanned, digits, mem, worth, ?_⟩
  generalize expr .standard .loosest (.ofTokens tokens 0) = result at reads
  cases reads with
  | read small =>
    exact absurd small (by decide)
  | @refused c large => exact ⟨c, rfl⟩

end Parse

end FrontEnd

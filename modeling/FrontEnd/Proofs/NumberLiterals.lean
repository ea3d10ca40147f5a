import FrontEnd.Proofs.Grammar.TracingFile
import FrontEnd.Proofs.NothingDropped
import FrontEnd.Proofs.Grammar.Placing
import Mathlib.Data.List.Pairwise

/-!
# The numbers of a text

The lexical rules let more through as a number than an integer of 64 bits can hold, and the parser
reads the texts again as integers and doubles. What they make of one another is decided here: a text
with one point is always a double, as digits stand before its point, and digits are refused only for
what they are worth. A sign is no part of a number, so the bound is that of the positive integers.

Parsing traces what it gives or stops with to the tokens (`Parse.traces_file`). A file is parsed up
to the last of them, so every integer among them has been passed and has a value.

**The law** (`File.ofTokens_numerals`): a number is refused only when it is an integer above
`2 ^ 63 - 1`; in a file that is parsed, there is none, and each stands for what its digits are worth.
-/

namespace FrontEnd

/-! ## Integers -/

/-- **Digits are an integer up to the bound**, and none above it. -/
theorem integer?_of_isNumeral {text : String} (digits : isNumeral text.toList = true) :
    integer? text =
      if numeral text.toList ≤ 2 ^ 63 - 1 then some (numeral text.toList : Int) else none := by
  rw [integer?, signedNumeral?_of_isNumeral digits, Option.filter_some]
  congr 1
  simp only [Bool.and_eq_true, decide_eq_true_eq, eq_iff_iff]
  omega

/-! ## Doubles -/

/-- A point behind digits makes a fraction of them, whatever digits follow it. -/
theorem fraction?_of_point {whole decimals : List Char} (some : whole ≠ [])
    (isWhole : ∀ c ∈ whole, c.isDigit = true) (areDecimals : ∀ c ∈ decimals, c.isDigit = true) :
    fraction? (whole ++ '.' :: decimals) =
      Option.some ⟨numeral (whole ++ decimals), -decimals.length⟩ := by
  have front : (whole ++ '.' :: decimals).span Char.isDigit = (whole, '.' :: decimals) := by
    simp [List.span_eq_takeWhile_dropWhile, List.takeWhile_append_of_pos isWhole,
      List.dropWhile_append_of_pos isWhole]
  have back : fractionDigits ('.' :: decimals) = (decimals, []) := by
    simpa [fractionDigits, List.span_eq_takeWhile_dropWhile] using areDecimals
  have digits : (whole.isEmpty && decimals.isEmpty) = false := by simp [some]
  simp only [fraction?, front, back, digits, exponentPart?]
  simp

namespace Token

/-- **A number with a point is a double.** -/
theorem isDouble_of_number {text : List Char} {n : Nat}
    (fits : Pattern.number.extent? text = some n) (onePoint : (text.take n).count '.' = 1) :
    ∃ value, Binary64.ofText? (String.ofList (text.take n)) = some value := by
  obtain ⟨first, rest, taken, digit, others⟩ := Pattern.number_of_extent? fits
  have notPoint : first ≠ '.' := by
    rintro rfl
    cases digit
  rw [taken, List.count_cons_of_ne notPoint] at onePoint
  -- The digits before the point, and those behind it.
  obtain ⟨front, decimals, rfl, notBefore⟩ :=
    List.eq_append_cons_of_mem (List.one_le_count_iff.1 onePoint.ge)
  have notBehind : '.' ∉ decimals := by
    rw [List.count_append, List.count_eq_zero.2 notBefore, List.count_cons_self] at onePoint
    exact List.count_eq_zero.1 (by omega)
  have digits {c : Char} (mem : c ∈ front ∨ c ∈ decimals) : c.isDigit = true := by
    refine Pattern.isDigit_of_isNumberChar (others c (by simp; tauto)) ?_
    rintro rfl
    exact mem.elim notBefore notBehind
  have read := fraction?_of_point (List.cons_ne_nil first front)
    (List.forall_mem_cons.2 ⟨digit, fun c mem => digits (.inl mem)⟩) fun c mem => digits (.inr mem)
  rw [List.cons_append] at read
  have noSign : first ≠ '-' ∧ first ≠ '+' := by
    constructor
    · rintro rfl
      cases digit
    · rintro rfl
      cases digit
  rw [taken, Binary64.ofText?, String.toList_ofList]
  split
  next here => exact absurd (List.cons.inj here).1 noSign.1
  next here => exact absurd (List.cons.inj here).1 noSign.2
  next =>
    rw [Binary64.unsigned?, read]
    cases Binary64.special? (first :: (front ++ '.' :: decimals)) with
    | none => exact ⟨_, rfl⟩
    | some bits => exact ⟨_, rfl⟩

/-- **Every double of a text has a value.** -/
theorem isDouble_of_ofText {name text : String} {tokens : List Token}
    (scanned : ofText name text = .ok tokens) :
    ∀ token ∈ tokens, token.kind = .double → ∃ value, Binary64.ofText? token.text = some value := by
  refine forall_of_scan (fun _ isDouble => nomatch isDouble)
    (fun {pattern text n} mem fits kind found reading _ => ?_) scanned
  rintro rfl
  cases pattern with
  | number =>
    change Pattern.numberReading (text.take n) = .token .double found at reading
    unfold Pattern.numberReading at reading
    split at reading
    next => cases reading
    next onePoint =>
      cases reading
      exact isDouble_of_number fits onePoint
    next => cases reading
  | word =>
    injection reading with isDouble
    exact absurd isDouble (Pattern.ofWord_ne_number _).2
  | fixed spelling known =>
    cases reading
    have fixed : ∀ entry ∈ Kind.fixed, entry.2 ≠ .double := by decide
    have entry : (found, Kind.double) ∈ Kind.fixed := by simpa [Pattern.table] using mem
    exact absurd rfl (fixed _ entry)
  | comment | quoted | character | blank | openQuote | openCharacter | half => cases reading

/-- **A token is worth a number** when it is an integer, of digits only, that are worth it. -/
structure Worth (token : Token) (n : Nat) : Prop where
  kind : token.kind = .int
  digits : isNumeral token.text.toList = true
  value : numeral token.text.toList = n

variable {token : Token} {n : Nat}

/-- An integer of a text is worth a number. -/
theorem Scanned.worth (scanned : token.Scanned) (isInt : token.kind = .int) :
    token.Worth (numeral token.text.toList) :=
  ⟨isInt, scanned.int isInt, rfl⟩

/-- **Digits are read as what they are worth** up to the bound, and not above it. -/
theorem Worth.integer?_eq (worth : token.Worth n) :
    integer? token.text = if n ≤ 2 ^ 63 - 1 then some (n : Int) else none := by
  rw [integer?_of_isNumeral worth.digits, worth.value]

/-- What digits stand for is what they are worth, which is up to the bound. -/
theorem Worth.eq_of_standsFor (worth : token.Worth n) {value : Int}
    (stands : token.StandsFor value) : value = n := by
  cases stands with
  | digits _ read =>
    rw [worth.integer?_eq] at read
    exact Option.some.inj (Option.ite_none_right_eq_some.1 read).2.symm
  | minus other => cases worth.kind.symm.trans other
  | increment other => cases worth.kind.symm.trans other
  | decrement other => cases worth.kind.symm.trans other

/-- **A number without a value is an integer above the bound.** -/
theorem Valueless.exceeds (valueless : token.Valueless) (scanned : token.Scanned)
    (doubles : token.kind = .double → ∃ value, Binary64.ofText? token.text = some value) :
    ∃ n, token.Worth n ∧ 2 ^ 63 - 1 < n := by
  cases valueless with
  | int isInt none =>
    have worth := scanned.worth isInt
    refine ⟨_, worth, Nat.lt_of_not_le fun small => ?_⟩
    rw [worth.integer?_eq, if_pos small] at none
    cases none
  | double isDouble none =>
    obtain ⟨value, read⟩ := doubles isDouble
    cases none.symm.trans read

/-- The tokens of a text are told apart by where they start. -/
theorem Covers.eq_of_start {name : String} {text : List Char} {tokens : List Token}
    (covers : Covers name text tokens) {a b : Token} (memA : a ∈ tokens) (memB : b ∈ tokens)
    (same : a.span.start = b.span.start) : a = b := by
  have apart := covers.ascends.imp Nat.ne_of_lt
  have : Std.Symm fun a b : Token => a.span.start.offset ≠ b.span.start.offset :=
    ⟨fun _ _ => Ne.symm⟩
  by_contra differ
  exact apart.forall memA memB differ (congrArg Position.offset same)

end Token

/-! ## Files -/

/-- A number is refused where it stands. -/
theorem Refusal.of_number {c : Cursor} {text : String} {position : Position}
    (refusal : Refusal (.fault ⟨.numberParseError text, position⟩) c) :
    ∃ token ∈ c.tokens, token.Valueless ∧ token.text = text ∧ token.span.start = position := by
  cases refusal with
  | number mem valueless => exact ⟨_, mem, valueless, rfl, rfl⟩

namespace File

variable {name text : String} {tokens : List Token} {firstId nextId : Nat} {file : File}

/-- **Parsing a text is traced to its tokens**, the comments left out. -/
theorem traced_ofTokens (scanned : Token.ofText name text = .ok tokens) (firstId : Nat) :
    Met (.tracing (uncommented tokens))
      (fun file _ => ∀ value ∈ file.values, value.Traced (uncommented tokens))
      (.ofTokens tokens firstId) ((Parse.file .standard).run (.ofTokens tokens firstId)) := by
  refine Parse.traces_file Grammar.fitting_standard
    ⟨Cursor.tokens_ofTokens (Token.laid_of_scan scanned).covers firstId, ?_⟩
  rw [Cursor.behind_ofTokens]
  exact List.forall_mem_nil _

/-- **A cursor at the end of a text has passed every other token** that is no comment. -/
theorem mem_behind_of_eof (scanned : Token.ofText name text = .ok tokens) {c : Cursor}
    (same : c.tokens = uncommented tokens) (isEnd : c.kind = .eof) {token : Token}
    (mem : token ∈ tokens) (noComment : token.kind ≠ .comment) (notEnd : token.kind ≠ .eof) :
    token ∈ c.behind := by
  obtain ⟨front, rfl, extents⟩ := (Token.laid_of_scan scanned).covers.ended
  have noEnd : ∀ token ∈ uncommented front, token.kind ≠ .eof := fun token mem =>
    (extents token (List.mem_of_mem_filter mem)).1
  rw [uncommented_append, uncommented_cons (by nofun)] at same
  have taken : c.behind.reverse = uncommented front := taken_of_ended same.symm isEnd noEnd
  rw [← List.mem_reverse, taken]
  refine List.mem_filter.2 ⟨?_, by simpa using noComment⟩
  refine (List.mem_append.1 mem).resolve_right fun isLast => notEnd ?_
  rw [List.mem_singleton.1 isLast]
  rfl

/-- **A number that is refused** is an integer above the bound, where it stands. -/
theorem exceeds_of_refused (scanned : Token.ofText name text = .ok tokens) {digits : String}
    {position : Position}
    (refused : ofTokens tokens firstId = .error (.fault ⟨.numberParseError digits, position⟩)) :
    ∃ token ∈ tokens, token.text = digits ∧ token.span.start = position ∧
      ∃ n, token.Worth n ∧ 2 ^ 63 - 1 < n := by
  have traced := traced_ofTokens scanned firstId
  obtain ⟨c, run⟩ := ofTokens_eq_error_iff.1 refused
  rw [EStateM.run, run] at traced
  cases traced with
  | halted stops =>
    obtain ⟨same, refusal⟩ := stops
    obtain ⟨token, mem, valueless, rfl, rfl⟩ := refusal.of_number
    rw [same] at mem
    have mem := List.mem_of_mem_filter mem
    exact ⟨token, mem, rfl, rfl, valueless.exceeds (Token.scanned_of_ofText scanned token mem)
      (Token.isDouble_of_ofText scanned token mem)⟩

/-- **The integers of a text that is parsed** are up to the bound, and each stands for what its
digits are worth. -/
theorem worth_of_parsed (scanned : Token.ofText name text = .ok tokens)
    (parsed : ofTokens tokens firstId = .ok (file, nextId)) {token : Token} (mem : token ∈ tokens)
    (isInt : token.kind = .int) :
    ∃ n, token.Worth n ∧ n ≤ 2 ^ 63 - 1 ∧
      ∀ value, file.HasExpr (.int value token.span) → value = n := by
  have worth := (Token.scanned_of_ofText scanned token mem).worth isInt
  have traced := traced_ofTokens scanned firstId
  obtain ⟨c, run, -⟩ := ofTokens_eq_ok_iff.1 parsed
  rw [EStateM.run, run] at traced
  cases traced with
  | ended sound _ areTraced =>
    refine ⟨_, worth, ?_, ?_⟩
    · have passed := mem_behind_of_eof scanned sound.tokens (Parse.kind_eof_of_run_file run) mem
        (by rw [isInt]; decide) (by rw [isInt]; decide)
      obtain ⟨value, read⟩ := sound.valued token passed isInt
      rw [worth.integer?_eq] at read
      exact (Option.ite_none_right_eq_some.1 read).1
    · rintro value ⟨outer, isValue, within⟩
      obtain ⟨other, isToken, sameSpan, stands⟩ := (areTraced outer isValue).ints value _ within
      have covers := (Token.laid_of_scan scanned).covers
      obtain rfl := covers.eq_of_start (List.mem_of_mem_filter isToken) mem
        (congrArg Span.start sameSpan)
      exact worth.eq_of_standsFor stands

/-- **Numbers are exact**, and fail only by their size. A text whose tokens are refused for a number
has an integer above the bound at that place, and no double there. A text that is parsed has no
integer above the bound, and an integer of its file with the span of one is what the digits are
worth. -/
theorem ofTokens_numerals (scanned : Token.ofText name text = .ok tokens) (firstId : Nat) :
    (∀ digits position,
        ofTokens tokens firstId = .error (.fault ⟨.numberParseError digits, position⟩) →
          ∃ token ∈ tokens, token.text = digits ∧ token.span.start = position ∧
            ∃ n, token.Worth n ∧ 2 ^ 63 - 1 < n) ∧
      (∀ token ∈ tokens, token.kind = .double → ∀ digits,
        ofTokens tokens firstId ≠ .error (.fault ⟨.numberParseError digits, token.span.start⟩)) ∧
      ∀ file nextId, ofTokens tokens firstId = .ok (file, nextId) →
        ∀ token ∈ tokens, token.kind = .int → ∃ n, token.Worth n ∧ n ≤ 2 ^ 63 - 1 ∧
          ∀ value, file.HasExpr (.int value token.span) → value = n := by
  refine ⟨fun digits position refused => exceeds_of_refused scanned refused, ?_,
    fun file nextId parsed token mem isInt => worth_of_parsed scanned parsed mem isInt⟩
  intro token mem isDouble digits refused
  obtain ⟨other, isToken, -, sameStart, n, worth, -⟩ := exceeds_of_refused scanned refused
  obtain rfl := (Token.laid_of_scan scanned).covers.eq_of_start isToken mem sameStart
  cases worth.kind.symm.trans isDouble

/-- A text with leading zeros, and a double of which the digits would be too much for an integer. -/
def leadingZeros : String :=
  "fn f(): int { return 007 + 9223372036854775808.; }"

/-- A text whose integer is one above the bound. -/
def aboveBound : String :=
  "fn f(): int { return 9223372036854775808; }"

/-- The first text is parsed, and its only integer is worth seven; the second is refused, and the
integer that is refused is above the bound. -/
theorem ofTokens_numerals_leadingZeros :
    (∃ tokens file nextId, Token.ofText "m" leadingZeros = .ok tokens ∧
      ofTokens tokens 0 = .ok (file, nextId) ∧ ∃ token ∈ tokens, token.text = "007" ∧
        token.Worth 7 ∧ ∀ value, file.HasExpr (.int value token.span) → value = 7) ∧
    ∃ tokens, Token.ofText "m" aboveBound = .ok tokens ∧ ∃ token ∈ tokens,
      token.text = "9223372036854775808" ∧ ∃ n, token.Worth n ∧ 2 ^ 63 - 1 < n := by
  constructor
  · have reads : ((Token.ofText "m" leadingZeros).toOption.any fun tokens =>
        tokens.any (fun token => token.kind = .int ∧ token.text = "007") &&
          (ofTokens tokens 0).toOption.any fun _ => true) = true := by
      decide +kernel
    obtain ⟨tokens, scanned, reads⟩ := exists_ok_of_any reads
    obtain ⟨found, reads⟩ := Bool.and_eq_true_iff.1 reads
    obtain ⟨⟨file, nextId⟩, parsed, -⟩ := exists_ok_of_any reads
    obtain ⟨token, mem, isInt, text⟩ : ∃ token ∈ tokens, token.kind = .int ∧ token.text = "007" := by
      simpa using found
    obtain ⟨n, worth, -, stands⟩ :=
      (ofTokens_numerals scanned 0).2.2 file nextId parsed token mem isInt
    obtain rfl : n = 7 := by
      rw [← worth.value, text]
      decide
    exact ⟨tokens, file, nextId, scanned, parsed, token, mem, text, worth, stands⟩
  · have refused : ((Token.ofText "m" aboveBound).toOption.any fun tokens =>
        (faultOf? (ofTokens tokens 0)).any fun d =>
          d = ⟨.numberParseError "9223372036854775808", ⟨21, 1, "m"⟩⟩) = true := by
      decide +kernel
    obtain ⟨tokens, scanned, refused⟩ := exists_ok_of_any refused
    obtain ⟨d, failed, same⟩ := exists_fault_of_any refused
    obtain rfl := of_decide_eq_true same
    obtain ⟨token, mem, text, -, exceeds⟩ := (ofTokens_numerals scanned 0).1 _ _ failed
    exact ⟨tokens, scanned, token, mem, text, exceeds⟩

end File

end FrontEnd

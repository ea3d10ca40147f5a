import FrontEnd.Number.Decimal
import FrontEnd.Token.Scan

/-!
# The texts of scanned tokens

What the lexical rules promise of the texts of tokens: an integer is digits only, so it has no sign,
and an identifier is a word, so it is no star. The digits of a number are read back as the number.
A promise that each pattern keeps is kept by every token (`Token.forall_of_scan`).

**The laws** (`Token.scanned_of_ofText`, `Token.isIdentifier_of_ofText`): every token of a text
keeps this promise, and an identifier is a word that is not reserved.
-/

namespace FrontEnd

/-! ## Integers -/

/-- A numeral has no sign. -/
theorem signedNumeral?_of_isNumeral {text : List Char} (digits : isNumeral text = true) :
    signedNumeral? text = some (numeral text : Int) := by
  unfold signedNumeral?
  split
  next => simp [isNumeral] at digits
  next => simp [isNumeral] at digits
  next => rw [if_pos digits]

/-- **The integer of a numeral has no sign** and is in the range of 64 bits. -/
theorem nat_of_integer? {text : String} {value : Int} (digits : isNumeral text.toList = true)
    (read : integer? text = some value) : ∃ n : Nat, value = n ∧ n < 0x8000000000000000 := by
  obtain ⟨signed, inRange⟩ := Option.filter_eq_some_iff.1 read
  rw [signedNumeral?_of_isNumeral digits] at signed
  cases signed
  refine ⟨_, rfl, ?_⟩
  simp only [Bool.and_eq_true, decide_eq_true_eq] at inRange
  have upper := inRange.2
  omega

/-- The digits of a number are a numeral. -/
theorem isNumeral_toDigits (n : Nat) : isNumeral (Nat.toDigits 10 n) = true := by
  have each : ∀ c ∈ Nat.toDigits 10 n, c.isDigit = true := fun c mem =>
    Nat.isDigit_of_mem_toDigits (by decide) (Nat.le_refl _) mem
  simpa [isNumeral, Nat.toDigits_ne_nil] using each

/-- A number that is not negative is written with its digits. -/
theorem toList_toString (n : Nat) : (toString (n : Int)).toList = Nat.toDigits 10 n := by
  change (Nat.repr n).toList = _
  simp [Nat.repr]

/-- **The digits of a number are read as the number**, in the range of 64 bits. -/
theorem integer?_toString {n : Nat} (small : n < 0x8000000000000000) :
    integer? (toString (n : Int)) = some n := by
  have lower : (-0x8000000000000000 : Int) ≤ n := by omega
  have upper : (n : Int) < 0x8000000000000000 := by omega
  rw [integer?, toList_toString, signedNumeral?_of_isNumeral (isNumeral_toDigits n),
    numeral_toDigits]
  simp [Option.filter, lower, upper]

end FrontEnd

namespace FrontEnd.Token

/-! ## Tokens -/

/-- **A token is as the lexical rules make it.** -/
structure Scanned (token : Token) : Prop where
  identifier : token.kind = .identifier → token.text ≠ "*"
  int : token.kind = .int → isNumeral token.text.toList = true

/-- **A word that can be an identifier**: letters and underscores, and not reserved. -/
structure IsIdentifier (text : String) : Prop where
  nonempty : text ≠ ""
  letters : ∀ c ∈ text.toList, isWordChar c = true
  free : Kind.ofWord text = .identifier

/-- A token of another kind promises nothing. -/
theorem scanned_of_kind {token : Token} {kind : Kind} (here : token.kind = kind)
    (other : kind ≠ .identifier ∧ kind ≠ .int) : token.Scanned := by
  subst here
  exact ⟨fun isWord => absurd isWord other.1, fun isInt => absurd isInt other.2⟩

namespace Pattern

variable {p : Char → Bool} {text : List Char} {n : Nat}

/-- A class takes the characters that are in it. -/
theorem take_of_run? (h : run? p text = some n) : text.take n = text.takeWhile p := by
  have whole : n = (text.takeWhile p).length := by
    unfold run? at h
    split at h
    · cases h
    next length => rw [length, ← Option.some.inj h]
  rw [whole]
  exact (List.prefix_iff_eq_take.1 (List.takeWhile_prefix p)).symm

/-- A word is not empty, and is of letters and underscores. -/
theorem word_of_extent? (fits : word.extent? text = some n) :
    text.take n ≠ [] ∧ ∀ c ∈ text.take n, isWordChar c = true := by
  refine ⟨fun none => ?_, ?_⟩
  · rcases List.take_eq_nil_iff.1 none with zero | rfl
    · exact absurd zero (Nat.ne_of_gt (run?_pos fits))
    · cases fits
  · rw [take_of_run? fits]
    exact List.all_eq_true.1 List.all_takeWhile

/-- A word is no star. -/
theorem ne_star_of_word (h : word.extent? text = some n) :
    String.ofList (text.take n) ≠ "*" := by
  intro star
  have chars : text.take n = ['*'] := by
    rw [← String.toList_ofList (l := text.take n), star]
    rfl
  have letter : isWordChar '*' = true := (word_of_extent? h).2 '*' (by simp [chars])
  exact absurd letter (by decide)

/-- **What holds of the reserved kinds and of identifiers** holds of the kind of every word. -/
theorem forall_ofWord (good : Kind → Prop) (free : good .identifier)
    (reserved : ∀ entry ∈ Kind.reserved, good entry.2) (text : String) : good (Kind.ofWord text) := by
  unfold Kind.ofWord
  cases found : Kind.reserved.lookup text with
  | none => exact free
  | some kind =>
    obtain ⟨front, back, split, -⟩ := List.lookup_eq_some_iff.1 found
    have mem : (text, kind) ∈ Kind.reserved := by simp [split]
    exact reserved _ mem

/-- The kind of a word is no number. -/
theorem ofWord_ne_number (text : String) :
    Kind.ofWord text ≠ .int ∧ Kind.ofWord text ≠ .double :=
  forall_ofWord (fun kind => kind ≠ .int ∧ kind ≠ .double) (by decide) (by decide) text

/-- A number is a digit, then digits and points. -/
theorem number_of_extent? (fits : number.extent? text = some n) :
    ∃ first rest, text.take n = first :: rest ∧ first.isDigit = true ∧
      ∀ c ∈ rest, isNumberChar c = true := by
  cases text with
  | nil => cases fits
  | cons first rest =>
    have extent : number.extent? (first :: rest) = if first.isDigit then
        some ((rest.takeWhile isNumberChar).length + 1) else none := rfl
    rw [extent] at fits
    split at fits
    next digit =>
      obtain rfl := Option.some.inj fits
      refine ⟨first, rest.takeWhile isNumberChar, ?_, digit, List.all_eq_true.1 List.all_takeWhile⟩
      rw [List.take_succ_cons, ← List.prefix_iff_eq_take.1 (List.takeWhile_prefix _)]
    next => cases fits

/-- What may stand in a number and is no point is a digit. -/
theorem isDigit_of_isNumberChar {c : Char} (inNumber : isNumberChar c = true)
    (notPoint : c ≠ '.') : c.isDigit = true := by
  simpa [isNumberChar, notPoint] using inNumber

/-- **A number without a point is a numeral.** -/
theorem isNumeral_of_number (h : number.extent? text = some n)
    (noPoint : (text.take n).count '.' = 0) : isNumeral (text.take n) = true := by
  obtain ⟨first, rest, taken, digit, others⟩ := number_of_extent? h
  rw [taken] at noPoint ⊢
  have each : ∀ c ∈ rest, c.isDigit = true := by
    intro c mem
    refine isDigit_of_isNumberChar (others c mem) ?_
    rintro rfl
    exact List.count_eq_zero.1 noPoint (List.mem_cons_of_mem _ mem)
  simpa [isNumeral, digit] using each

/-- **What a pattern reads keeps the promise.** -/
theorem scanned_of_reading {pattern : Pattern} (mem : pattern ∈ table)
    (fits : pattern.extent? text = some n) {kind : Kind} {found : String}
    (reading : pattern.reading (text.take n) = .token kind found) (span : Span) :
    Scanned ⟨kind, found, span⟩ := by
  cases pattern with
  | word =>
    cases reading
    exact ⟨fun _ => ne_star_of_word fits, fun isInt => absurd isInt (ofWord_ne_number _).1⟩
  | number =>
    change numberReading (text.take n) = .token kind found at reading
    unfold numberReading at reading
    split at reading
    next noPoint =>
      cases reading
      have notWord : Kind.int ≠ .identifier := by decide
      refine ⟨fun isWord => absurd isWord notWord, fun _ => ?_⟩
      rw [String.toList_ofList]
      exact isNumeral_of_number fits noPoint
    next =>
      cases reading
      exact scanned_of_kind rfl (by simp)
    next => cases reading
  | fixed spelling known =>
    cases reading
    have fixed : ∀ entry ∈ Kind.fixed, entry.2 ≠ .identifier ∧ entry.2 ≠ .int := by decide
    have entry : (found, kind) ∈ Kind.fixed := by simpa [table] using mem
    exact scanned_of_kind rfl (fixed _ entry)
  | comment | quoted | character =>
    cases reading
    exact scanned_of_kind rfl (by simp)
  | blank | openQuote | openCharacter | half => cases reading

/-- **What a pattern reads as an identifier** is a word that is not reserved. -/
theorem isIdentifier_of_reading {pattern : Pattern} (mem : pattern ∈ table)
    (fits : pattern.extent? text = some n) {found : String}
    (reading : pattern.reading (text.take n) = .token .identifier found) : IsIdentifier found := by
  cases pattern with
  | word =>
    obtain ⟨some_, letters⟩ := word_of_extent? fits
    injection reading with free same
    subst same
    exact ⟨by simpa using some_, by simpa using letters, free⟩
  | number =>
    change numberReading (text.take n) = .token .identifier found at reading
    unfold numberReading at reading
    split at reading <;> cases reading
  | fixed spelling known =>
    cases reading
    have fixed : ∀ entry ∈ Kind.fixed, entry.2 ≠ .identifier := by decide
    have entry : (found, Kind.identifier) ∈ Kind.fixed := by simpa [table] using mem
    exact absurd rfl (fixed _ entry)
  | comment | quoted | character | blank | openQuote | openCharacter | half => cases reading

end Pattern

/-- **What is promised of the end and kept by every pattern** is kept by all tokens of a scan, by
induction on the text. -/
theorem forall_of_scan {good : Token → Prop} (ended : ∀ here, good (ending here))
    (reads : ∀ {pattern : Pattern} {text : List Char} {n : Nat}, pattern ∈ Pattern.table →
      pattern.extent? text = some n → ∀ {kind : Kind} {found : String},
      pattern.reading (text.take n) = .token kind found → ∀ span, good ⟨kind, found, span⟩)
    {here : Position} {text : List Char} {passed : Nat} {tokens : List Token}
    (h : scan here text passed = .ok tokens) : ∀ token ∈ tokens, good token := by
  induction text generalizing here passed tokens with
  | nil =>
    cases h
    exact List.forall_mem_singleton.2 (ended here)
  | cons c rest ih =>
    cases passed with
    | succ passed => exact ih h
    | zero =>
      rw [scan] at h
      split at h
      · cases h
      next pattern count first =>
        obtain ⟨mem, extent⟩ := Pattern.extent?_of_first? first
        dsimp only at h
        split at h
        · cases h
        · exact ih h
        next kind text reading =>
          cases scanned : scan (here.past ((c :: rest).take count)) rest (count - 1) with
          | error fault =>
            rw [scanned] at h
            cases h
          | ok later =>
            rw [scanned] at h
            cases h
            exact List.forall_mem_cons.2 ⟨reads mem extent reading _, ih scanned⟩

/-- **Every token of a text is as the lexical rules make it.** -/
theorem scanned_of_ofText {file text : String} {tokens : List Token}
    (h : ofText file text = .ok tokens) : ∀ token ∈ tokens, token.Scanned :=
  forall_of_scan (fun _ => scanned_of_kind rfl (by simp [ending])) Pattern.scanned_of_reading h

/-- **Every identifier of a text** is a word that is not reserved. -/
theorem isIdentifier_of_ofText {file text : String} {tokens : List Token}
    (h : ofText file text = .ok tokens) :
    ∀ token ∈ tokens, token.kind = .identifier → IsIdentifier token.text := by
  refine forall_of_scan (fun _ isWord => nomatch isWord) (fun mem fits kind found reading _ => ?_) h
  rintro rfl
  exact Pattern.isIdentifier_of_reading mem fits reading

end FrontEnd.Token

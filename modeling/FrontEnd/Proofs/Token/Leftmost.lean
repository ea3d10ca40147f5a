import FrontEnd.Proofs.Token.Describing
import FrontEnd.Proofs.Token.Slicing

/-!
# Lexical faults stand leftmost

The lexemes before a fault are the lexemes of the text before it: a pattern that fits a part of a
text fits the text (`Pattern.extent?_append_ne_none`), and what lies within the part is taken of the
part alone (`Pattern.extent?_of_append`). So the pattern that comes first for the text comes first
for the part, and the part before a fault has tokens.

**The law** (`Token.leftmost_of_ofText`): scanning ends on every text; a fault stands between two
characters behind a part that has tokens, and it alone describes what begins there.
-/

namespace FrontEnd.Token

/-! ## What a pattern takes of a part of a text -/

namespace Pattern

variable {pattern : Pattern} {front back : List Char} {n : Nat}

/-- A class that takes no more than the first part of a text takes the same of this part. -/
theorem takeWhile_of_append {p : Char → Bool}
    (inside : ((front ++ back).takeWhile p).length ≤ front.length) :
    (front ++ back).takeWhile p = front.takeWhile p := by
  rw [List.takeWhile_append] at inside ⊢
  split
  next whole =>
    rw [if_pos whole, List.length_append] at inside
    have none : back.takeWhile p = [] := List.length_eq_zero_iff.1 (by omega)
    rw [none, List.append_nil, (List.takeWhile_prefix p).eq_of_length whole]
  next => rfl

theorem run?_of_append {p : Char → Bool} (fits : run? p (front ++ back) = some n)
    (inside : n ≤ front.length) : run? p front = some n := by
  obtain ⟨rfl, positive⟩ := run?_eq_some_iff.1 fits
  rw [takeWhile_of_append inside] at positive ⊢
  exact run?_eq_some_iff.2 ⟨rfl, positive⟩

theorem run?_append_ne_none {p : Char → Bool} (fits : run? p front ≠ none) :
    run? p (front ++ back) ≠ none := by
  obtain ⟨n, fits⟩ := Option.ne_none_iff_exists'.1 fits
  obtain ⟨rfl, positive⟩ := run?_eq_some_iff.1 fits
  have longer : (front.takeWhile p).length ≤ ((front ++ back).takeWhile p).length := by
    rw [List.takeWhile_append]
    split
    · simp_all
    · exact Nat.le_refl _
  rw [run?_eq_some_iff.2 ⟨rfl, Nat.lt_of_lt_of_le positive longer⟩]
  exact Option.some_ne_none _

theorem characterExtent?_of_append (fits : characterExtent? (front ++ back) = some n)
    (inside : n ≤ front.length) : characterExtent? front = some n := by
  rw [characterExtent?_eq_some_iff] at fits ⊢
  rcases fits with ⟨rfl, c, rest, split, plain⟩ | ⟨rfl, c, rest, split, escaped⟩
  · match front with
    | q :: d :: q' :: front =>
      simp only [List.cons_append, List.cons.injEq] at split
      obtain ⟨rfl, rfl, rfl, -⟩ := split
      exact .inl ⟨rfl, d, front, rfl, plain⟩
  · match front with
    | q :: b :: d :: q' :: front =>
      simp only [List.cons_append, List.cons.injEq] at split
      obtain ⟨rfl, rfl, rfl, rfl, -⟩ := split
      exact .inr ⟨rfl, d, front, rfl, escaped⟩

/-- **A pattern that takes no more than the first part of a text** takes the same of this part. -/
theorem extent?_of_append (fits : pattern.extent? (front ++ back) = some n)
    (inside : n ≤ front.length) (positive : 0 < n) : pattern.extent? front = some n := by
  cases front with
  | nil => exact absurd positive (Nat.not_lt.2 inside)
  | cons c front =>
    rw [List.length_cons] at inside
    cases pattern with
    | blank | word => exact run?_of_append fits inside
    | number =>
      simp only [List.cons_append, extent?, Option.ite_none_right_eq_some, Option.some.injEq]
        at fits ⊢
      obtain ⟨digit, rfl⟩ := fits
      rw [Nat.add_le_add_iff_right] at inside
      rw [takeWhile_of_append inside]
      exact ⟨digit, rfl⟩
    | comment =>
      by_cases slash : c = '/'
      · subst slash
        cases front with
        | nil =>
          cases back with
          | nil => cases fits
          | cons d back =>
            by_cases slash : d = '/'
            · subst slash
              cases fits
              simp at inside
            · simp [extent?, slash] at fits
        | cons d front =>
          by_cases slash : d = '/'
          · subst slash
            simp only [List.cons_append, extent?, Option.some.injEq] at fits ⊢
            subst fits
            rw [List.length_cons] at inside
            rw [takeWhile_of_append (by omega)]
          · simp [extent?, slash] at fits
      · simp [extent?, slash] at fits
    | quoted =>
      by_cases quote : c = '"'
      · subst quote
        simp only [List.cons_append, extent?, Option.ite_none_right_eq_some, Option.some.injEq]
          at fits ⊢
        obtain ⟨-, rfl⟩ := fits
        have same := @takeWhile_of_append front back (· != '"') (by omega)
        rw [same] at inside ⊢
        exact ⟨by omega, rfl⟩
      · simp [extent?, quote] at fits
    | character => exact characterExtent?_of_append fits inside
    | openQuote =>
      by_cases quote : c = '"'
      · subst quote
        exact fits
      · simp [extent?, quote] at fits
    | openCharacter =>
      by_cases quote : c = '\''
      · subst quote
        exact fits
      · simp [extent?, quote] at fits
    | fixed spelling kind =>
      simp only [extent?, Option.ite_none_right_eq_some, Option.some.injEq,
        List.isPrefixOf_iff_prefix] at fits ⊢
      obtain ⟨begins, rfl⟩ := fits
      rw [← String.length_toList] at inside
      exact ⟨List.prefix_of_prefix_length_le begins (List.prefix_append _ _) inside, rfl⟩
    | half => exact fits

/-- **A pattern that fits the first part of a text** fits the text. -/
theorem extent?_append_ne_none (fits : pattern.extent? front ≠ none) :
    pattern.extent? (front ++ back) ≠ none := by
  obtain ⟨n, fits⟩ := Option.ne_none_iff_exists'.1 fits
  cases pattern with
  | blank | word => exact run?_append_ne_none (Option.ne_none_iff_exists'.2 ⟨n, fits⟩)
  | character =>
    simp only [extent?] at fits ⊢
    rw [characterExtent?_append fits back]
    exact Option.some_ne_none _
  | quoted =>
    have closed : quoted.extent? front ≠ none := Option.ne_none_iff_exists'.2 ⟨n, fits⟩
    rwa [extent?_quoted_append closed]
  | fixed spelling kind =>
    simp only [extent?, Option.ite_none_right_eq_some, Option.some.injEq,
      List.isPrefixOf_iff_prefix] at fits
    have begins := fits.1.trans (List.prefix_append front back)
    simp [extent?, begins]
  | comment | number | openQuote | openCharacter | half =>
    unfold extent? at fits
    split at fits <;> simp_all [extent?]

/-- **The first pattern that fits a text** is the first that fits a part of it in which the lexeme
lies. -/
theorem first?_of_append (first : first? (front ++ back) = some (pattern, n))
    (inside : n ≤ front.length) : first? front = some (pattern, n) := by
  have positive := first?_pos first
  have each : ∀ patterns : List Pattern,
      (patterns.findSome? fun p => (p.extent? (front ++ back)).map (p, ·)) = some (pattern, n) →
      (patterns.findSome? fun p => (p.extent? front).map (p, ·)) = some (pattern, n) := by
    intro patterns found
    induction patterns with
    | nil => cases found
    | cons p rest ih =>
      rw [List.findSome?_cons] at found ⊢
      cases fits : p.extent? (front ++ back) with
      | none =>
        have misses : p.extent? front = none := by
          apply Classical.byContradiction
          intro some_
          exact extent?_append_ne_none some_ fits
        rw [fits] at found
        rw [misses]
        exact ih found
      | some m =>
        rw [fits] at found
        cases found
        rw [extent?_of_append fits inside positive]
        rfl
  exact each table first

end Pattern

/-! ## The part before a fault -/

/-- **A fault is found at the first place where one stands**: what stands before it has tokens. By
induction on the length of the text, one lexeme after the other: the pattern that takes a lexeme of
the text takes it of the text before the fault as well. -/
theorem leftmost_of_scan {here : Position} {text : List Char} {d : Diagnostic}
    (failed : scan here text 0 = .error d) :
    ∃ front back, text = front ++ back ∧ d.position = here.past front ∧
      (∃ tokens, scan here front 0 = .ok tokens) ∧ Pattern.fault? back = some d.fault := by
  generalize length : text.length = size
  induction size using Nat.strongRecOn generalizing here text d with
  | ind size ih =>
  cases first : Pattern.first? text with
  | none =>
    cases text with
    | nil => cases failed
    | cons c rest =>
      rw [scan, first] at failed
      cases failed
      refine ⟨[], c :: rest, rfl, rfl, ⟨_, rfl⟩, ?_⟩
      rw [Pattern.fault?, first]
      rfl
  | some taken =>
    obtain ⟨pattern, n⟩ := taken
    have inside := Pattern.first?_le first
    have positive := Pattern.first?_pos first
    have shorter : (text.drop n).length < size := by
      rw [List.length_drop]
      omega
    have taken : (text.take n).length = n := List.length_take_of_le inside
    -- A fault behind the lexeme is the first of the whole text as well.
    have behind : scan (here.past (text.take n)) (text.drop n) 0 = .error d →
        (∀ fault, pattern.reading (text.take n) ≠ .fault fault) →
        ∃ front back, text = front ++ back ∧ d.position = here.past front ∧
          (∃ tokens, scan here front 0 = .ok tokens) ∧ Pattern.fault? back = some d.fault := by
      intro failed sound
      obtain ⟨front, back, left, position, ⟨tokens, scanned⟩, fault⟩ := ih _ shorter failed rfl
      have split : text = text.take n ++ front ++ back := by
        rw [List.append_assoc, ← left, List.take_append_drop]
      have atFront : Pattern.first? (text.take n ++ front) = some (pattern, n) := by
        rw [split] at first
        refine Pattern.first?_of_append first ?_
        rw [List.length_append, taken]
        exact Nat.le_add_right ..
      refine ⟨text.take n ++ front, back, split, ?_, ?_, fault⟩
      · rw [position, Position.past_append]
      · have whole : (text.take n ++ front).take n = text.take n := List.take_left' taken
        have rest : (text.take n ++ front).drop n = front := List.drop_left' taken
        rw [scan_first atFront, whole, rest, scanned]
        cases reading : pattern.reading (text.take n) with
        | fault fault => exact absurd reading (sound fault)
        | skip => exact ⟨_, rfl⟩
        | token kind found => exact ⟨_, rfl⟩
    rw [scan_first first] at failed
    cases reading : pattern.reading (text.take n) with
    | fault fault =>
      rw [reading] at failed
      cases failed
      refine ⟨[], text, rfl, rfl, ⟨_, rfl⟩, ?_⟩
      rw [Pattern.fault?, first]
      simp only [reading]
    | skip =>
      rw [reading] at failed
      exact behind failed (by simp [reading])
    | token kind found =>
      rw [reading] at failed
      cases later : scan (here.past (text.take n)) (text.drop n) 0 with
      | ok tokens =>
        rw [later] at failed
        cases failed
      | error e =>
        rw [later] at failed
        cases failed
        exact behind later (by simp [reading])

/-- **A lexical fault is exact and leftmost.** Scanning ends on every text. Where it ends with a
fault, this stands between two characters, with its line counted from the newlines before it, the
part before it has tokens, and of what begins there the fault says what is so, as no other does. -/
theorem leftmost_of_ofText (file text : String) :
    sliced? file text = some (ofText file text) ∧
    ∀ d, ofText file text = .error d → ∃ front back tokens,
      cut? text.toList d.position.offset = some (front, back) ∧
      d.position.line = 1 + newlines front ∧ d.position.file = file ∧
      ofText file (String.ofList front) = .ok tokens ∧
      Describes d.fault back ∧ ∀ other, Describes other back → other = d.fault := by
  refine ⟨sliced?_eq file text, fun d failed => ?_⟩
  obtain ⟨front, back, split, position, ⟨tokens, scanned⟩, fault⟩ := leftmost_of_scan failed
  have offset : d.position.offset = byteLength front := by
    rw [position]
    exact Nat.zero_add _
  have here := Pattern.describes_iff.2 fault
  refine ⟨front, back, tokens, ?_, ?_, ?_, ?_, here, fun other described => ?_⟩
  · rw [split, offset, cut?_append]
  · rw [position]
    rfl
  · rw [position]
    rfl
  · rw [ofText, String.toList_ofList]
    exact scanned
  · have alone := Pattern.describes_iff.1 described
    rw [fault] at alone
    exact (Option.some.inj alone).symm

/-- Half of an operator in the second line. -/
def onHalf : Diagnostic :=
  ⟨.incompleteOperator "||" "|", ⟨2, 2, "m"⟩⟩

/-- The half is what is at fault, and the line before it has tokens. -/
theorem leftmost_onHalf : ofText "m" "a\n|b" = .error onHalf ∧
    (∃ tokens, ofText "m" "a\n" = .ok tokens) ∧ Describes onHalf.fault ['|', 'b'] ∧
      ∀ other, Describes other ['|', 'b'] → other = onHalf.fault := by
  have failed : ofText "m" "a\n|b" = .error onHalf := by decide
  have cut : cut? "a\n|b".toList 2 = some (['a', '\n'], ['|', 'b']) := by decide
  obtain ⟨front, back, tokens, parts, -, -, scanned, described, only⟩ :=
    (leftmost_of_ofText "m" "a\n|b").2 onHalf failed
  cases cut.symm.trans parts
  exact ⟨failed, ⟨tokens, scanned⟩, described, only⟩

end FrontEnd.Token

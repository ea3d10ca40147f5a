import FrontEnd.Proofs.Token.Joined
import Mathlib.Data.List.TakeWhile

/-!
# The lexical faults by the text

Only the patterns that start with the first character of a text count for what is taken of it
(`Pattern.first?_cons`), and of forty patterns there are never many: two for a quote, for a bar or
for an ampersand, one for a digit, and none for a character that begins no lexeme. So each lexical
fault says something of the text alone, without the patterns and their order (`Token.Describes`).

**The law** (`Token.Pattern.describes_iff`): a fault describes a text exactly if it is the fault
that the text begins with, so no two describe the same text.
-/

namespace FrontEnd.Token

/-- Whether a lexeme can begin with a character. -/
def beginsLexeme (c : Char) : Bool :=
  isWordChar c || c.isDigit || c == '"' || c == '\'' ||
    Kind.fixed.any fun (spelling, _) => spelling.toList.head? == some c

/-- **What a lexical fault says of the text where it is found.** -/
inductive Describes : Fault → List Char → Prop
  /-- A double quote, and no second one. -/
  | openString {rest : List Char} : '"' ∉ rest → Describes .unterminatedString ('"' :: rest)
  /-- A single quote that begins no character literal. -/
  | openCharacter {rest : List Char} :
    (∀ c behind, rest = c :: '\'' :: behind → c = '\'' ∨ c = '\\') →
    (∀ c behind, rest = '\\' :: c :: '\'' :: behind → c = '\n') →
    Describes .unterminatedChar ('\'' :: rest)
  /-- Half of a doubled operator, and not the other half. -/
  | half {c : Char} {rest : List Char} : c = '|' ∨ c = '&' → rest.head? ≠ some c →
    Describes (.incompleteOperator (String.ofList [c, c]) (String.ofList [c])) (c :: rest)
  /-- Digits and points, as many as there are, with more than one point. -/
  | number {c : Char} {rest : List Char} : c.isDigit = true →
    2 ≤ ((c :: rest).takeWhile isNumberChar).count '.' →
    Describes (.twoDotsInDouble (String.ofList ((c :: rest).takeWhile isNumberChar))) (c :: rest)
  /-- A character that is neither blank nor the first of a lexeme. -/
  | unrecognised {c : Char} {rest : List Char} : isBlank c = false → beginsLexeme c = false →
    Describes (.unrecognisedToken c.toString) (c :: rest)

namespace Pattern

variable {pattern : Pattern} {n : Nat} {c : Char} {rest : List Char}

/-- **The fault at the beginning of a text**, if what stands there amounts to one. -/
def fault? (text : List Char) : Option Fault :=
  match first? text with
  | none => text.head?.map fun c => .unrecognisedToken c.toString
  | some (pattern, n) =>
    match pattern.reading (text.take n) with
    | .fault fault => some fault
    | _ => none

/-! ## What the patterns need -/

theorem run?_eq_some_iff {p : Char → Bool} {text : List Char} :
    run? p text = some n ↔ (text.takeWhile p).length = n ∧ 0 < n := by
  unfold run?
  split <;> grind

/-- **A character literal** is a character that is neither a quote nor a backslash, or a backslash
and a character that is no newline, between single quotes. -/
theorem characterExtent?_eq_some_iff {text : List Char} :
    characterExtent? text = some n ↔
      (n = 3 ∧ ∃ c rest, text = '\'' :: c :: '\'' :: rest ∧ c ≠ '\'' ∧ c ≠ '\\') ∨
      (n = 4 ∧ ∃ c rest, text = '\'' :: '\\' :: c :: '\'' :: rest ∧ c ≠ '\n') := by
  unfold characterExtent?
  split <;> grind

/-! ## The patterns for a first character -/

/-- No character behind the letters stands in a word. -/
theorem toNat_lt_of_isWordChar (letter : isWordChar c = true) : c.toNat < 123 := by
  delta isWordChar Char.isAlpha Char.isUpper Char.isLower at letter
  simp only [Bool.or_eq_true, Bool.and_eq_true, decide_eq_true_eq, UInt32.le_iff_toNat_le,
    beq_iff_eq] at letter
  rcases letter with (upper | lower) | rfl
  · exact Nat.lt_of_le_of_lt upper.2 (by decide)
  · exact Nat.lt_of_le_of_lt lower.2 (by decide)
  · decide

/-- Whether a pattern can fit a text that begins with a character. -/
def starts : Pattern → Char → Bool
  | blank, c => isBlank c
  | comment, c => c == '/'
  | word, c => isWordChar c
  | number, c => c.isDigit
  | quoted, c | openQuote, c => c == '"'
  | character, c | openCharacter, c => c == '\''
  | fixed spelling _, c => spelling.toList.head? == some c
  | half, c => c == '|' || c == '&'

theorem starts_of_extent? (mem : pattern ∈ table) (fits : pattern.extent? (c :: rest) = some n) :
    pattern.starts c = true := by
  cases pattern with
  | blank | word =>
    obtain ⟨rfl, positive⟩ := run?_eq_some_iff.1 fits
    rw [List.takeWhile_cons] at positive
    split at positive
    next holds => exact holds
    next => cases positive
  | character =>
    rcases characterExtent?_eq_some_iff.1 fits with ⟨-, _, _, same, -⟩ | ⟨-, _, _, same, -⟩ <;>
      simp_all [starts]
  | fixed spelling kind =>
    simp only [extent?, Option.ite_none_right_eq_some, List.isPrefixOf_iff_prefix] at fits
    have positive := length_pos_of_fixed_mem mem
    rw [← String.length_toList] at positive
    cases spelled : spelling.toList with
    | nil => simp [spelled] at positive
    | cons d more =>
      rw [spelled] at fits
      simp [starts, spelled, (List.cons_prefix_cons.1 fits.1).1]
  | comment | number | quoted | openQuote | openCharacter | half =>
    unfold extent? at fits
    split at fits <;> simp_all [starts]

/-- Among patterns of the table, only those that start with the first character count. -/
theorem findSome?_starts {patterns : List Pattern} (among : patterns ⊆ table) (c : Char)
    (rest : List Char) : (patterns.findSome? fun p => (p.extent? (c :: rest)).map (p, ·)) =
      (patterns.filter (·.starts c)).findSome? fun p => (p.extent? (c :: rest)).map (p, ·) := by
  induction patterns with
  | nil => rfl
  | cons p later ih =>
    obtain ⟨mem, among⟩ := List.cons_subset.1 among
    rw [List.findSome?_cons, ih among]
    by_cases starting : p.starts c = true
    · rw [List.filter_cons, if_pos starting, List.findSome?_cons]
    · rw [List.filter_cons, if_neg starting]
      cases fits : p.extent? (c :: rest) with
      | none => rfl
      | some n => exact absurd (starts_of_extent? mem fits) starting

/-- **Only the patterns that start with the first character count.** -/
theorem first?_cons (c : Char) (rest : List Char) :
    first? (c :: rest) =
      (table.filter (·.starts c)).findSome? fun p => (p.extent? (c :: rest)).map (p, ·) :=
  findSome?_starts (List.Subset.refl table) c rest

theorem first?_quote (rest : List Char) : first? ('"' :: rest) =
    (quoted.extent? ('"' :: rest)).elim (some (openQuote, 1)) fun n => some (quoted, n) := by
  have starting : table.filter (·.starts '"') = [quoted, openQuote] := by decide
  rw [first?_cons, starting, List.findSome?_cons]
  cases quoted.extent? ('"' :: rest) <;> rfl

theorem first?_singleQuote (rest : List Char) : first? ('\'' :: rest) =
    (character.extent? ('\'' :: rest)).elim (some (openCharacter, 1)) fun n =>
      some (character, n) := by
  have starting : table.filter (·.starts '\'') = [character, openCharacter] := by decide
  rw [first?_cons, starting, List.findSome?_cons]
  cases character.extent? ('\'' :: rest) <;> rfl

/-- The digits. -/
def digits : List Char :=
  ['0', '1', '2', '3', '4', '5', '6', '7', '8', '9']

theorem mem_digits (digit : c.isDigit = true) : c ∈ digits := by
  have each : ∀ n < 58, 48 ≤ n → Char.ofNat n ∈ digits := by decide
  rw [← Char.ofNat_toNat c]
  simp only [Char.isDigit, Bool.and_eq_true, decide_eq_true_eq, UInt32.le_iff_toNat_le] at digit
  exact each _ (Nat.lt_succ_of_le digit.2) digit.1

theorem first?_digit (digit : c.isDigit = true) :
    first? (c :: rest) = some (number, (rest.takeWhile isNumberChar).length + 1) := by
  have each : digits.all fun c => table.filter (·.starts c) = [number] := by decide
  have starting := of_decide_eq_true (List.all_eq_true.1 each c (mem_digits digit))
  rw [first?_cons, starting]
  simp [extent?, digit]

/-- Where an operator is spelled with two equal characters, the first alone is a half of it. -/
theorem first?_doubled {spelling : String} {kind : Kind}
    (starting : table.filter (·.starts c) = [fixed spelling kind, half])
    (spelled : spelling.toList = [c, c]) (halves : c = '|' ∨ c = '&') :
    first? (c :: rest) =
      if rest.head? = some c then some (fixed spelling kind, 2) else some (half, 1) := by
  have size : spelling.length = 2 := by rw [← String.length_toList, spelled]; rfl
  rw [first?_cons, starting, List.findSome?_cons]
  cases rest with
  | nil => simp [extent?, spelled, halves]
  | cons d rest =>
    by_cases same : d = c
    · subst same
      simp [extent?, spelled, size]
    · have other : c ≠ d := Ne.symm same
      simp [extent?, spelled, halves, same, other]

theorem first?_bar (rest : List Char) : first? ('|' :: rest) =
    if rest.head? = some '|' then some (fixed "||" .or, 2) else some (half, 1) :=
  first?_doubled (by decide) (by decide) (.inl rfl)

theorem first?_ampersand (rest : List Char) : first? ('&' :: rest) =
    if rest.head? = some '&' then some (fixed "&&" .and, 2) else some (half, 1) :=
  first?_doubled (by decide) (by decide) (.inr rfl)

theorem any_starts (c : Char) : table.any (·.starts c) = (isBlank c || beginsLexeme c) := by
  by_cases written : c ∈ ['/', '|', '&']
  · have each : ['/', '|', '&'].all fun c =>
        table.any (·.starts c) == (isBlank c || beginsLexeme c) := by decide
    exact eq_of_beq (List.all_eq_true.1 each c written)
  · have other : (c == '/') = false ∧ (c == '|') = false ∧ (c == '&') = false := by
      simpa using written
    have fixedAny : (Kind.fixed.map fun (spelling, kind) => fixed spelling kind).any (·.starts c) =
        Kind.fixed.any fun (spelling, _) => spelling.toList.head? == some c := List.any_map
    rw [table, List.any_append, List.any_append, fixedAny, beginsLexeme]
    simp [starts, other, Bool.or_assoc]

/-- **Where a pattern starts, one fits**: a half of an operator or of a literal does, if not the
whole. -/
theorem exists_fits_of_starts (mem : pattern ∈ table) (starting : pattern.starts c = true) :
    ∃ p ∈ table, p.extent? (c :: rest) ≠ none := by
  cases pattern with
  | blank =>
    refine ⟨blank, mem, ?_⟩
    simp_all [extent?, run?, starts]
  | word =>
    refine ⟨word, mem, ?_⟩
    simp_all [extent?, run?, starts]
  | number =>
    refine ⟨number, mem, ?_⟩
    simp_all [extent?, starts]
  | comment =>
    obtain rfl := eq_of_beq starting
    exact ⟨fixed "/" .slash, by decide, Option.some_ne_none _⟩
  | quoted | openQuote =>
    obtain rfl := eq_of_beq starting
    exact ⟨openQuote, by decide, Option.some_ne_none _⟩
  | character | openCharacter =>
    obtain rfl := eq_of_beq starting
    exact ⟨openCharacter, by decide, Option.some_ne_none _⟩
  | fixed spelling kind =>
    have each : ∀ entry ∈ Kind.fixed, entry.1.toList.take 1 ∈ [['|'], ['&']] ∨
        ∃ single ∈ Kind.fixed, single.1.toList = entry.1.toList.take 1 := by
      decide
    have among : (spelling, kind) ∈ Kind.fixed := by simpa [table] using mem
    have first : spelling.toList.take 1 = [c] := by
      simp only [starts, beq_iff_eq] at starting
      rw [List.take_one, starting]
      rfl
    rcases each _ among with halves | ⟨⟨single, kind⟩, isFixed, spelled⟩
    · refine ⟨half, by decide, ?_⟩
      simp_all [extent?]
    · refine ⟨fixed single kind, by simpa [table] using isFixed, ?_⟩
      simp_all [extent?]
  | half =>
    refine ⟨half, mem, ?_⟩
    simp_all [extent?, starts]

/-- **No pattern fits** exactly where the first character is neither blank nor the first of a
lexeme. -/
theorem first?_eq_none_iff :
    first? (c :: rest) = none ↔ isBlank c = false ∧ beginsLexeme c = false := by
  rw [← Bool.or_eq_false_iff, ← any_starts]
  constructor
  · intro none
    rw [List.any_eq_false]
    intro p mem starting
    obtain ⟨q, isPattern, fits⟩ := exists_fits_of_starts mem starting
    have misses := List.findSome?_eq_none_iff.1 none q isPattern
    exact fits (Option.map_eq_none_iff.1 misses)
  · intro noStart
    have none : table.filter (·.starts c) = [] :=
      List.filter_eq_nil_iff.2 (List.any_eq_false.1 noStart)
    rw [first?_cons, none]
    rfl

/-! ## The faults for a first character -/

/-- A text up to the next double quote is taken with both quotes. -/
theorem extent?_quoted {body : List Char} (closed : '"' ∉ body) (back : List Char) :
    quoted.extent? ('"' :: (body ++ '"' :: back)) = some (body.length + 2) := by
  have plain : ∀ c ∈ body, (c != '"') = true := fun c mem =>
    bne_iff_ne.2 fun same => closed (same ▸ mem)
  have whole : (body ++ '"' :: back).takeWhile (· != '"') = body := by
    rw [List.takeWhile_append_of_pos plain]
    simp
  simp [extent?, whole]

theorem extent?_quoted_eq_none_iff : quoted.extent? ('"' :: rest) = none ↔ '"' ∉ rest := by
  have stopped : (rest.takeWhile (· != '"')).length < rest.length ↔ '"' ∈ rest := by
    constructor
    · intro stops
      apply Classical.byContradiction
      intro absent
      have all : ∀ c ∈ rest, (c != '"') = true := fun c mem =>
        bne_iff_ne.2 fun same => absent (same ▸ mem)
      rw [List.takeWhile_eq_self_iff.2 all] at stops
      exact Nat.lt_irrefl _ stops
    · intro mem
      apply takeWhile_lt
      simpa using mem
  simp [extent?, stopped]

theorem extent?_character_eq_none_iff : character.extent? ('\'' :: rest) = none ↔
    (∀ c behind, rest = c :: '\'' :: behind → c = '\'' ∨ c = '\\') ∧
    (∀ c behind, rest = '\\' :: c :: '\'' :: behind → c = '\n') := by
  have fits := @characterExtent?_eq_some_iff
  rw [extent?, Option.eq_none_iff_forall_ne_some]
  constructor
  · intro none
    constructor
    · rintro c behind rfl
      apply Classical.byContradiction
      intro plain
      rw [not_or] at plain
      exact none 3 (fits.2 (.inl ⟨rfl, c, behind, rfl, plain⟩))
    · rintro c behind rfl
      apply Classical.byContradiction
      intro escaped
      exact none 4 (fits.2 (.inr ⟨rfl, c, behind, rfl, escaped⟩))
  · rintro ⟨plain, escaped⟩ n found
    rcases fits.1 found with ⟨-, c, behind, same, other⟩ | ⟨-, c, behind, same, other⟩
    · cases same
      rcases plain c behind rfl with rfl | rfl
      · exact other.1 rfl
      · exact other.2 rfl
    · cases same
      exact other (escaped c behind rfl)

theorem takeWhile_digit (digit : c.isDigit = true) :
    (c :: rest).takeWhile isNumberChar = c :: rest.takeWhile isNumberChar := by
  simp [isNumberChar, digit]

/-- The digits and points that a number begins with are all it takes. -/
theorem take_number (digit : c.isDigit = true) :
    (c :: rest).take ((rest.takeWhile isNumberChar).length + 1) =
      (c :: rest).takeWhile isNumberChar := by
  rw [takeWhile_digit digit, List.take_succ_cons,
    ← List.prefix_iff_eq_take.1 (List.takeWhile_prefix isNumberChar)]

theorem fault?_digit (digit : c.isDigit = true) : fault? (c :: rest) =
    if 2 ≤ ((c :: rest).takeWhile isNumberChar).count '.' then
      some (.twoDotsInDouble (String.ofList ((c :: rest).takeWhile isNumberChar)))
    else none := by
  simp only [fault?, first?_digit digit, take_number digit, reading, numberReading]
  generalize ((c :: rest).takeWhile isNumberChar).count '.' = points
  match points with
  | 0 | 1 | points + 2 => simp

theorem fault?_doubled {spelling : String} {kind : Kind}
    (first : first? (c :: rest) =
      if rest.head? = some c then some (fixed spelling kind, 2) else some (half, 1)) :
    fault? (c :: rest) = if rest.head? = some c then none else
      some (.incompleteOperator (String.ofList [c, c]) (String.ofList [c])) := by
  rw [fault?, first]
  by_cases whole : rest.head? = some c
  · rw [if_pos whole, if_pos whole]
    rfl
  · rw [if_neg whole, if_neg whole]
    rfl

theorem fault?_half (here : c = '|' ∨ c = '&') :
    fault? (c :: rest) = if rest.head? = some c then none else
      some (.incompleteOperator (String.ofList [c, c]) (String.ofList [c])) := by
  rcases here with rfl | rfl
  · exact fault?_doubled (first?_bar rest)
  · exact fault?_doubled (first?_ampersand rest)

theorem fault?_quote : fault? ('"' :: rest) =
    if quoted.extent? ('"' :: rest) = none then some .unterminatedString else none := by
  rw [fault?, first?_quote]
  cases quoted.extent? ('"' :: rest) <;> rfl

theorem fault?_singleQuote : fault? ('\'' :: rest) =
    if character.extent? ('\'' :: rest) = none then some .unterminatedChar else none := by
  rw [fault?, first?_singleQuote]
  cases character.extent? ('\'' :: rest) <;> rfl

theorem fault?_of_describes {fault : Fault} {text : List Char} (describes : Describes fault text) :
    fault? text = some fault := by
  cases describes with
  | openString absent => rw [fault?_quote, if_pos (extent?_quoted_eq_none_iff.2 absent)]
  | openCharacter plain escaped =>
    rw [fault?_singleQuote, if_pos (extent?_character_eq_none_iff.2 ⟨plain, escaped⟩)]
  | half here single => rw [fault?_half here, if_neg single]
  | number digit points => rw [fault?_digit digit, if_pos points]
  | unrecognised notBlank none =>
    rw [fault?, first?_eq_none_iff.2 ⟨notBlank, none⟩]
    rfl

theorem describes_of_fault? {fault : Fault} {text : List Char} (found : fault? text = some fault) :
    Describes fault text := by
  cases text with
  | nil => cases found
  | cons c rest =>
    cases first : first? (c :: rest) with
    | none =>
      rw [fault?, first] at found
      cases found
      obtain ⟨notBlank, none⟩ := first?_eq_none_iff.1 first
      exact .unrecognised notBlank none
    | some taken =>
      obtain ⟨pattern, n⟩ := taken
      obtain ⟨mem, fits⟩ := extent?_of_first? first
      have starting := starts_of_extent? mem fits
      cases pattern with
      | openQuote =>
        obtain rfl := eq_of_beq starting
        rw [fault?_quote, Option.ite_none_right_eq_some] at found
        obtain ⟨left, same⟩ := found
        cases same
        exact .openString (extent?_quoted_eq_none_iff.1 left)
      | openCharacter =>
        obtain rfl := eq_of_beq starting
        rw [fault?_singleQuote, Option.ite_none_right_eq_some] at found
        obtain ⟨left, same⟩ := found
        cases same
        obtain ⟨plain, escaped⟩ := extent?_character_eq_none_iff.1 left
        exact .openCharacter plain escaped
      | half =>
        have here : c = '|' ∨ c = '&' := by simpa [starts] using starting
        rw [fault?_half here, Option.ite_none_left_eq_some] at found
        obtain ⟨single, same⟩ := found
        cases same
        exact .half here single
      | number =>
        rw [fault?_digit starting, Option.ite_none_right_eq_some] at found
        obtain ⟨points, same⟩ := found
        cases same
        exact .number starting points
      | _ =>
        rw [fault?, first] at found
        cases found

/-- **What a fault says of its text** is said of the text by the fault that stands there alone. -/
theorem describes_iff {fault : Fault} {text : List Char} :
    Describes fault text ↔ fault? text = some fault :=
  ⟨fault?_of_describes, describes_of_fault?⟩

end Pattern

end FrontEnd.Token

import FrontEnd.Proofs.Token.Describing

/-!
# The first pattern that fits takes the most

A pattern stands for a class of lexemes (`Pattern.Accepts`), and takes the longest lexeme of the
class that a text begins with. Which class wins is decided by the order of the patterns alone. So
the order has to be right: of two patterns that start with one character, the earlier takes at least
as many characters wherever it fits as the later takes anywhere (`ordered_table`). That compares two
numbers for each pair, and only few patterns start with the same character.

A half of an operator may as well stand right behind the doubled operators, before every other
operator (`first?_halfEarlier`).

**The law** (`Token.first_is_longest`): the pattern that is taken takes as many bytes as any that
fits, so every token is the longest lexeme that stands where it stands.
-/

namespace FrontEnd

/-- A beginning of a text takes no more bytes than the text. -/
theorem byteLength_le_of_isPrefix {front text : List Char} (begins : front <+: text) :
    byteLength front ≤ byteLength text := by
  obtain ⟨back, rfl⟩ := begins
  rw [byteLength_append]
  exact Nat.le_add_right _ _

namespace Token

namespace Pattern

variable {pattern : Pattern} {text front : List Char} {n m : Nat}

/-! ## The lexemes of a class -/

/-- **The class of lexemes** that a pattern stands for. -/
inductive Accepts : Pattern → List Char → Prop
  | blank {lexeme : List Char} : lexeme ≠ [] → (∀ c ∈ lexeme, isBlank c = true) →
    Accepts blank lexeme
  | comment {body : List Char} : '\n' ∉ body → Accepts comment ('/' :: '/' :: body)
  | word {lexeme : List Char} : lexeme ≠ [] → (∀ c ∈ lexeme, isWordChar c = true) →
    Accepts word lexeme
  | number {c : Char} {rest : List Char} : c.isDigit = true →
    (∀ d ∈ rest, isNumberChar d = true) → Accepts number (c :: rest)
  | quoted {body : List Char} : '"' ∉ body → Accepts quoted ('"' :: (body ++ ['"']))
  | openQuote : Accepts openQuote ['"']
  | plain {c : Char} : c ≠ '\'' → c ≠ '\\' → Accepts character ['\'', c, '\'']
  | escaped {c : Char} : c ≠ '\n' → Accepts character ['\'', '\\', c, '\'']
  | openCharacter : Accepts openCharacter ['\'']
  | fixed {spelling : String} {kind : Kind} : Accepts (fixed spelling kind) spelling.toList
  | half {c : Char} : c = '|' ∨ c = '&' → Accepts half [c]

theorem ne_nil_of_run? {p : Char → Bool} (fits : run? p text = some n) :
    text.takeWhile p ≠ [] := by
  obtain ⟨rfl, positive⟩ := run?_eq_some_iff.1 fits
  exact List.ne_nil_of_length_pos positive

theorem not_mem_takeWhile_bne (c : Char) (text : List Char) :
    c ∉ text.takeWhile (· != c) := by
  intro mem
  have other := List.all_eq_true.1 List.all_takeWhile c mem
  simp at other

theorem take_takeWhile (p : Char → Bool) (text : List Char) :
    text.take (text.takeWhile p).length = text.takeWhile p :=
  (List.prefix_iff_eq_take.1 (List.takeWhile_prefix p)).symm

/-- **What a pattern takes is of its class.** -/
theorem accepts_of_extent? (fits : pattern.extent? text = some n) :
    pattern.Accepts (text.take n) := by
  revert fits
  fun_cases extent? pattern text with
  | case1 text | case4 text =>
    intro fits
    rw [take_of_run? fits]
    constructor
    · exact ne_nil_of_run? fits
    · exact List.all_eq_true.1 List.all_takeWhile
  | case2 rest =>
    intro fits
    cases fits
    simp only [List.take_succ_cons, take_takeWhile]
    exact .comment (not_mem_takeWhile_bne _ _)
  | case5 c rest digit =>
    intro fits
    cases fits
    rw [List.take_succ_cons, take_takeWhile]
    exact .number digit (List.all_eq_true.1 List.all_takeWhile)
  | case8 rest taken closed =>
    intro fits
    have whole : quoted.extent? ('"' :: rest) = some n := (if_pos closed).trans fits
    have quote : '"' ∈ rest := by
      apply Classical.byContradiction
      intro absent
      rw [extent?_quoted_eq_none_iff.2 absent] at whole
      cases whole
    obtain ⟨body, behind, rfl, free⟩ := List.eq_append_cons_of_mem quote
    rw [extent?_quoted free] at whole
    cases whole
    have lexeme : ('"' :: (body ++ '"' :: behind)).take (body.length + 2) =
        '"' :: (body ++ ['"']) := by
      simp [List.take_append, List.take_of_length_le]
    rw [lexeme]
    exact .quoted free
  | case11 | case14 =>
    intro fits
    cases fits
    constructor
  | case13 text =>
    intro fits
    rcases characterExtent?_eq_some_iff.1 fits with
      ⟨rfl, c, rest, rfl, notQuote, notBackslash⟩ | ⟨rfl, c, rest, rfl, notNewline⟩
    · exact .plain notQuote notBackslash
    · exact .escaped notNewline
  | case16 spelling kind text begins =>
    intro fits
    cases fits
    rw [← String.length_toList, ← List.prefix_iff_eq_take.1 (List.isPrefixOf_iff_prefix.1 begins)]
    exact .fixed
  | case18 c tail here =>
    intro fits
    cases fits
    exact .half here
  | _ =>
    intro fits
    cases fits

/-- **A class that accepts a beginning of a text** takes at least that much of it. -/
theorem exists_extent?_of_accepts (accepted : pattern.Accepts front) (back : List Char) :
    ∃ n, pattern.extent? (front ++ back) = some n ∧ front.length ≤ n := by
  have run : ∀ p : Char → Bool, front ≠ [] → (∀ c ∈ front, p c = true) →
      ∃ n, run? p (front ++ back) = some n ∧ front.length ≤ n := by
    intro p some_ inClass
    refine ⟨_, run?_eq_some_iff.2 ⟨rfl, ?_⟩, ?_⟩
    all_goals rw [List.takeWhile_append_of_pos inClass, List.length_append]
    · exact Nat.add_pos_left (List.length_pos_iff.2 some_) _
    · exact Nat.le_add_right _ _
  cases accepted with
  | blank some_ blanks => exact run _ some_ blanks
  | word some_ letters => exact run _ some_ letters
  | @comment body line =>
    have plain : ∀ c ∈ body, (c != '\n') = true := fun c mem =>
      bne_iff_ne.2 fun same => line (same ▸ mem)
    refine ⟨_, rfl, ?_⟩
    simp [List.takeWhile_append_of_pos plain]
  | @number c rest digit inside =>
    refine ⟨_, if_pos digit, ?_⟩
    simp [List.takeWhile_append_of_pos inside]
  | @quoted body closed =>
    refine ⟨body.length + 2, ?_, by simp⟩
    simpa using extent?_quoted closed back
  | @plain c notQuote notBackslash =>
    exact ⟨3, characterExtent?_eq_some_iff.2 (.inl ⟨rfl, c, back, rfl, notQuote, notBackslash⟩),
      Nat.le_refl _⟩
  | @escaped c notNewline =>
    exact ⟨4, characterExtent?_eq_some_iff.2 (.inr ⟨rfl, c, back, rfl, notNewline⟩),
      Nat.le_refl _⟩
  | openQuote | openCharacter => exact ⟨1, rfl, Nat.le_refl _⟩
  | @fixed spelling kind =>
    refine ⟨spelling.length, ?_, Nat.le_of_eq String.length_toList⟩
    simp [extent?]
  | half here => exact ⟨1, if_pos here, Nat.le_refl _⟩

/-! ## The order of the patterns -/

/-- The fewest characters that a lexeme of a class has. -/
def least : Pattern → Nat
  | comment | quoted => 2
  | character => 3
  | fixed spelling _ => spelling.toList.length
  | _ => 1

/-- The most characters that a lexeme of a class has, if they are bounded. -/
def most : Pattern → Option Nat
  | openQuote | openCharacter | half => some 1
  | character => some 4
  | fixed spelling _ => some spelling.toList.length
  | _ => none

/-- **Whether a pattern may stand before another** that fits where it fits: no lexeme of the other
class is longer than any of its own. -/
def mayPrecede (pattern later : Pattern) : Bool :=
  later.most.any (· ≤ pattern.least)

theorem least_le (accepted : pattern.Accepts front) : pattern.least ≤ front.length := by
  cases accepted with
  | blank some_ _ | word some_ _ => exact List.length_pos_iff.2 some_
  | comment _ | quoted _ => simp [least]
  | fixed => exact Nat.le_refl _
  | _ => simp [least]

theorem le_most (accepted : pattern.Accepts front) :
    ∀ bound ∈ pattern.most, front.length ≤ bound := by
  cases accepted <;> simp [most]

theorem length_take_of_extent? (fits : pattern.extent? text = some n) :
    (text.take n).length = n :=
  List.length_take_of_le (extent?_le fits)

/-- The earlier of two patterns takes at least as much as the later. -/
theorem le_of_mayPrecede {later : Pattern} (before : pattern.mayPrecede later = true)
    (fits : pattern.extent? text = some n) (laterFits : later.extent? text = some m) : m ≤ n := by
  have short := le_most (accepts_of_extent? laterFits)
  have long := least_le (accepts_of_extent? fits)
  rw [length_take_of_extent? laterFits] at short
  rw [length_take_of_extent? fits] at long
  cases bounded : later.most with
  | none => simp [mayPrecede, bounded] at before
  | some bound =>
    have within : bound ≤ pattern.least := by simpa [mayPrecede, bounded] using before
    exact Nat.le_trans (short bound bounded) (Nat.le_trans within long)

/-- Only blanks begin with a character that is not ASCII. -/
theorem small_of_starts {c : Char} (mem : pattern ∈ table) (starting : pattern.starts c = true)
    (solid : pattern ≠ .blank) : c.toNat < 128 := by
  cases pattern with
  | blank => exact absurd rfl solid
  | word => exact Nat.lt_trans (toNat_lt_of_isWordChar starting) (by decide)
  | number =>
    simp only [starts, Char.isDigit, Bool.and_eq_true, decide_eq_true_eq,
      UInt32.le_iff_toNat_le] at starting
    exact Nat.lt_of_le_of_lt starting.2 (by decide)
  | comment | quoted | openQuote | character | openCharacter =>
    obtain rfl := eq_of_beq starting
    decide
  | half =>
    have here : c = '|' ∨ c = '&' := by simpa [starts] using starting
    rcases here with rfl | rfl <;> decide
  | fixed spelling kind =>
    have each : ∀ entry ∈ Kind.fixed, entry.1.toList.head?.all (·.toNat < 128) = true := by decide
    have known : (spelling, kind) ∈ Kind.fixed := by simpa [table] using mem
    have first : spelling.toList.head? = some c := by simpa [starts] using starting
    have small := each _ known
    rw [first] at small
    exact of_decide_eq_true small

/-- **The patterns are in order**: of two that start with one character, the earlier may stand
before the later. -/
theorem ordered_table (c : Char) :
    (table.filter (·.starts c)).Pairwise fun p q => p.mayPrecede q = true := by
  by_cases small : c.toNat < 128
  · have each : ∀ n < 128, (table.filter (·.starts (Char.ofNat n))).Pairwise
        fun p q => p.mayPrecede q = true := by
      decide +kernel
    rw [← Char.ofNat_toNat c]
    exact each _ small
  · have distinct : table.Nodup := by decide
    have isBlank : ∀ p ∈ table, p.starts c = true → p = .blank := by
      intro p isPattern starting
      apply Classical.byContradiction
      intro solid
      exact small (small_of_starts isPattern starting solid)
    rw [List.pairwise_filter]
    refine distinct.imp_of_mem ?_
    intro p q isPattern isLater other starting laterStarting
    rw [isBlank p isPattern starting, isBlank q isLater laterStarting] at other
    exact absurd rfl other

/-- In an ordered list of patterns the first that fits takes as much as any. -/
theorem le_of_findSome? {patterns : List Pattern}
    (ordered : patterns.Pairwise fun p q => p.mayPrecede q = true)
    (first : (patterns.findSome? fun p => (p.extent? text).map (p, ·)) = some (pattern, n))
    {other : Pattern} (mem : other ∈ patterns) (fits : other.extent? text = some m) : m ≤ n := by
  induction patterns with
  | nil => cases mem
  | cons p later ih =>
    obtain ⟨before, ordered⟩ := List.pairwise_cons.1 ordered
    rw [List.findSome?_cons] at first
    cases taken : p.extent? text with
    | none =>
      rw [taken] at first
      rcases List.mem_cons.1 mem with rfl | mem
      · rw [taken] at fits
        cases fits
      · exact ih ordered first mem
    | some k =>
      rw [taken] at first
      cases first
      rcases List.mem_cons.1 mem with rfl | mem
      · rw [taken] at fits
        cases fits
        exact Nat.le_refl _
      · exact le_of_mayPrecede (before other mem) taken fits

/-- **The first pattern that fits takes as many characters as any that fits.** -/
theorem le_of_first? (first : first? text = some (pattern, n)) {other : Pattern}
    (mem : other ∈ table) (fits : other.extent? text = some m) : m ≤ n := by
  cases text with
  | nil =>
    have none : first? [] = none := by decide
    rw [none] at first
    cases first
  | cons c rest =>
    rw [first?_cons] at first
    have among : other ∈ table.filter (·.starts c) :=
      List.mem_filter.2 ⟨mem, starts_of_extent? mem fits⟩
    exact le_of_findSome? (ordered_table c) first among fits

/-- The patterns with the half of an operator right behind the operators that are doubled. -/
def halfEarlier : List Pattern :=
  [blank, comment, word, number, quoted, openQuote, character, openCharacter] ++
    (Kind.fixed.takeWhile (·.1 != "==")).map (fun (spelling, kind) => fixed spelling kind) ++
    half :: (Kind.fixed.dropWhile (·.1 != "==")).map fun (spelling, kind) => fixed spelling kind

/-- **Either place of the half gives the same first pattern**: nothing between them starts with a
bar or an ampersand. -/
theorem first?_halfEarlier (text : List Char) :
    (halfEarlier.findSome? fun p => (p.extent? text).map (p, ·)) = first? text := by
  cases text with
  | nil => decide
  | cons c rest =>
    have among : halfEarlier ⊆ table := by decide
    have filtered : halfEarlier.filter (·.starts c) = table.filter (·.starts c) := by
      by_cases here : c = '|' ∨ c = '&'
      · rcases here with rfl | rfl <;> decide
      · have notHalf : half.starts c = false := by simpa [starts] using here
        obtain ⟨front, back, early, late⟩ : ∃ front back : List Pattern,
            halfEarlier = front ++ half :: back ∧ table = front ++ (back ++ [half]) :=
          ⟨_, _, rfl, by decide⟩
        rw [early, late]
        simp [notHalf]
    rw [findSome?_starts among, filtered, first?_cons]

/-- **What is taken of a text is the most**: the first pattern that fits takes as many bytes as
every other that fits, and is the same for either place of the half. -/
structure TakesMost (text : List Char) : Prop where
  most : ∀ pattern n, first? text = some (pattern, n) → ∀ other ∈ table, ∀ m,
    other.extent? text = some m → byteLength (text.take m) ≤ byteLength (text.take n)
  either : (halfEarlier.findSome? fun p => (p.extent? text).map (p, ·)) = first? text

theorem takesMost (text : List Char) : TakesMost text where
  most _ _ first _ mem _ fits :=
    byteLength_le_of_isPrefix (List.take_prefix_take_left (le_of_first? first mem fits))
  either := first?_halfEarlier text

end Pattern

open Pattern

/-! ## The tokens -/

/-- **A lexeme is the longest that a text begins with**: a class accepts it, and none accepts a
longer beginning of the text. -/
structure LongestOf (text lexeme : List Char) : Prop where
  begins : lexeme <+: text
  accepted : ∃ pattern ∈ table, pattern.Accepts lexeme
  most : ∀ pattern ∈ table, ∀ other, other <+: text → pattern.Accepts other →
    byteLength other ≤ byteLength lexeme

/-- What the first pattern takes is the longest lexeme. -/
theorem longestOf_of_first? {text : List Char} {pattern : Pattern} {n : Nat}
    (first : first? text = some (pattern, n)) : LongestOf text (text.take n) where
  begins := List.take_prefix n text
  accepted := by
    obtain ⟨mem, fits⟩ := extent?_of_first? first
    exact ⟨pattern, mem, accepts_of_extent? fits⟩
  most other mem longer begins accepted := by
    obtain ⟨back, rfl⟩ := begins
    obtain ⟨m, fits, atMost⟩ := exists_extent?_of_accepts accepted back
    have within : longer.length ≤ n := Nat.le_trans atMost (le_of_first? first mem fits)
    have inside := List.prefix_take_iff.2 ⟨List.prefix_append longer back, within⟩
    exact byteLength_le_of_isPrefix inside

/-- **A token stands as the longest lexeme** in a text that begins at a position: what it is written
with is the longest lexeme of what is left of the text behind some first part. -/
def StandsLongest (here : Position) (text : List Char) (token : Token) : Prop :=
  ∃ front back, text = front ++ back ∧
    token.span = ⟨here.past front, (here.past front).past token.written⟩ ∧
    LongestOf back token.written

/-- **Scanning takes the longest lexeme** for each token, by induction on the text. -/
theorem standsLongest_of_scan {here : Position} {text : List Char} {passed : Nat}
    {tokens : List Token} (scanned : scan here text passed = .ok tokens) {token : Token}
    (mem : token ∈ tokens) (notEnd : token.kind ≠ .eof) :
    token.StandsLongest here (text.drop passed) := by
  induction text generalizing here passed tokens with
  | nil =>
    cases scanned
    rw [List.mem_singleton.1 mem] at notEnd
    exact absurd rfl notEnd
  | cons c rest ih =>
    cases passed with
    | succ passed => exact ih scanned mem
    | zero =>
      rw [scan] at scanned
      split at scanned
      · cases scanned
      next pattern count first =>
        obtain ⟨isPattern, extent⟩ := extent?_of_first? first
        have split : (c :: rest).take count ++ rest.drop (count - 1) = c :: rest := by
          obtain ⟨less, rfl⟩ := Nat.exists_eq_add_of_lt (first?_pos first)
          simp
        -- A token behind the first lexeme stands behind its characters.
        have behind : ∀ later, scan (here.past ((c :: rest).take count)) rest (count - 1) =
            .ok later → token ∈ later → token.StandsLongest here (c :: rest) := by
          intro later scanned mem
          obtain ⟨front, back, same, span, longest⟩ := ih scanned mem
          refine ⟨(c :: rest).take count ++ front, back, ?_, ?_, longest⟩
          · rw [List.append_assoc, ← same, split]
          · rw [Position.past_append, span]
        dsimp only at scanned
        split at scanned
        · cases scanned
        next => exact behind tokens scanned mem
        next kind text reading =>
          cases rested : scan (here.past ((c :: rest).take count)) rest (count - 1) with
          | error fault =>
            rw [rested] at scanned
            cases scanned
          | ok later =>
            rw [rested] at scanned
            cases scanned
            rcases List.mem_cons.1 mem with rfl | mem
            · obtain ⟨written, -, -⟩ := written_of_reading isPattern extent reading
                ⟨here, here.past ((c :: rest).take count)⟩
              refine ⟨[], c :: rest, rfl, ?_, ?_⟩
              · rw [written, Position.past_nil]
              · rw [written]
                exact longestOf_of_first? first
            · exact behind later rested mem

/-- **The first match is the longest**: the first pattern that fits a text takes the most of it, so
every token of a text stands there as the longest lexeme, and nothing longer is split. -/
theorem first_is_longest : (∀ text, TakesMost text) ∧
    ∀ file text tokens, ofText file text = .ok tokens →
      ∀ token ∈ tokens, token.kind ≠ .eof → token.StandsLongest (.first file) text.toList :=
  ⟨takesMost, fun _ _ _ scanned _ mem notEnd => standsLongest_of_scan scanned mem notEnd⟩

/-- Two slashes before an equals sign are a comment, not a slash and an operator; a plus before two
equals signs is an operator and half of another. -/
theorem first_is_longest_joined : ∃ tokens, ofText "m" "+== //=" = .ok tokens ∧
    tokens.map (·.kind) = [.plusEquals, .assignment, .comment, .eof] ∧
    ∀ token ∈ tokens, token.kind ≠ .eof → token.StandsLongest (.first "m") "+== //=".toList := by
  have kinds : (ofText "m" "+== //=").toOption.map (·.map (·.kind)) =
      some [.plusEquals, .assignment, .comment, .eof] := by
    decide +kernel
  cases scanned : ofText "m" "+== //=" with
  | error diagnostic =>
    rw [scanned] at kinds
    cases kinds
  | ok tokens =>
    rw [scanned] at kinds
    exact ⟨tokens, rfl, Option.some.inj kinds, first_is_longest.2 "m" _ tokens scanned⟩

end Token

end FrontEnd

import FrontEnd.Proofs.Grammar.Carrying
import FrontEnd.Proofs.Token.Coverage

/-!
# The tokens of texts joined by a newline

A text that has tokens ends its last lexeme at its end, and a newline behind it ends that lexeme at
the same place: a run of a class stops at the newline unless the class is of blanks, no operator
is spelled with a newline, and a quote still open at the end of a text is a fault of that text
(`Pattern.first?_newline`). So scanning goes through the first text as it did alone, passes over the
blanks around the join, and comes to the second text with nothing of the first one left
(`scan_newline`). Scanning is blind to where it starts (`scan_moved`), so from there on it finds the
tokens of the second text, or its fault, moved behind the first.

**The law** (`Token.compositional_of_ofText`): behind a text that has tokens and a newline, a text
has tokens exactly if it has tokens alone. They are those of the first text without its end, and
then those of the second with every offset and every line moved; a fault moves in the same way.
-/

namespace FrontEnd

open Token

/-- **Everything stands behind a text and a newline**: as many bytes and lines further on as the
text has, and one more of each. -/
def Relabel.behindLine (front : List Char) : Relabel where
  id n := n
  position p := ⟨p.offset + (byteLength front + 1), p.line + (newlines front + 1), p.file⟩
  file name := name

/-- The distance between two positions stays. -/
theorem Relabel.behindLine_past (front : List Char) (here : Position) (text : List Char) :
    (behindLine front).position (here.past text) =
      ((behindLine front).position here).past text := by
  simp [behindLine, Position.past, Nat.add_right_comm]

/-- The start of a file goes behind the text and the newline. -/
theorem Relabel.behindLine_first (front : List Char) (file : String) :
    (behindLine front).position (.first file) = (Position.first file).past (front ++ ['\n']) := by
  have newline : byteLength ['\n'] = 1 ∧ newlines ['\n'] = 1 := by decide
  simp [behindLine, Position.past, Position.first, newline]

namespace Token

/-! ## One lexeme -/

/-- **A scan goes on behind the lexeme** that the first pattern takes. -/
theorem scan_first {here : Position} {text : List Char} {pattern : Pattern} {n : Nat}
    (fits : Pattern.first? text = some (pattern, n)) :
    scan here text 0 =
      match pattern.reading (text.take n) with
      | .fault fault => .error ⟨fault, here⟩
      | .skip => scan (here.past (text.take n)) (text.drop n) 0
      | .token kind found =>
        (scan (here.past (text.take n)) (text.drop n) 0).map
          (⟨kind, found, ⟨here, here.past (text.take n)⟩⟩ :: ·) := by
  obtain ⟨less, rfl⟩ := Nat.exists_eq_add_of_lt (Pattern.first?_pos fits)
  cases text with
  | nil =>
    have none : Pattern.first? [] = none := by decide
    rw [none] at fits
    cases fits
  | cons c rest =>
    rw [scan, fits]
    simp only [Nat.add_sub_cancel, List.drop_succ_cons, Nat.zero_add]
    cases pattern.reading ((c :: rest).take (less + 1)) with
    | fault fault => rfl
    | skip => exact scan_skip _ rest less
    | token kind found => exact congrArg (Except.map _) (scan_skip _ rest less)

/-- **Scanning is blind to where it starts**, for every move of positions that keeps the distance
between them. -/
theorem scan_moved {m : Relabel}
    (past : ∀ here text, m.position (here.past text) = (m.position here).past text)
    (here : Position) (text : List Char) (passed : Nat) :
    scan (m.position here) text passed =
      ((scan here text passed).map (List.map m.token)).mapError m.diagnostic := by
  induction text generalizing here passed with
  | nil => rfl
  | cons c rest ih =>
    cases passed with
    | succ passed => exact ih here passed
    | zero =>
      rw [scan, scan]
      split
      · rfl
      · dsimp only
        rw [← past, ih]
        split
        · rfl
        · rfl
        · cases scan (here.past _) rest _ with
          | error d => rfl
          | ok tokens => rfl

/-! ## Blanks -/

/-- A scan passes over the blanks that a text begins with. -/
theorem scan_dropWhile (here : Position) (text : List Char) :
    scan here text 0 =
      scan (here.past (text.takeWhile isBlank)) (text.dropWhile isBlank) 0 := by
  cases run : text.takeWhile isBlank with
  | nil =>
    have whole := List.takeWhile_append_dropWhile (p := isBlank) (l := text)
    rw [run, List.nil_append] at whole
    rw [whole, Position.past_nil]
  | cons c more =>
    have fits : Pattern.first? text = some (.blank, (text.takeWhile isBlank).length) := by
      simp [Pattern.first?, Pattern.table, Pattern.extent?, Pattern.run?, run]
    have taken : text.take (text.takeWhile isBlank).length = text.takeWhile isBlank :=
      (List.prefix_iff_eq_take.1 (List.takeWhile_prefix isBlank)).symm
    have left : text.drop (text.takeWhile isBlank).length = text.dropWhile isBlank := by
      have rest : (text.takeWhile isBlank ++ text.dropWhile isBlank).drop
          (text.takeWhile isBlank).length = text.dropWhile isBlank := List.drop_left
      rwa [List.takeWhile_append_dropWhile] at rest
    rw [scan_first fits, taken, left, run]
    rfl

/-- **Blanks before a text only move it.** -/
theorem scan_blank {blank : List Char} (blanks : blank.all isBlank = true) (here : Position)
    (text : List Char) : scan here (blank ++ text) 0 = scan (here.past blank) text 0 := by
  have all : ∀ c ∈ blank, isBlank c = true := List.all_eq_true.1 blanks
  rw [scan_dropWhile here, scan_dropWhile (here.past blank), List.takeWhile_append_of_pos all,
    List.dropWhile_append_of_pos all, Position.past_append]

/-! ## A newline behind a text -/

namespace Pattern

/-- A class without the newline takes no more when a newline follows. -/
theorem takeWhile_newline {p : Char → Bool} (apart : p '\n' = false) (text back : List Char) :
    (text ++ '\n' :: back).takeWhile p = text.takeWhile p := by
  induction text with
  | nil => simp [apart]
  | cons c rest ih => rw [List.cons_append, List.takeWhile_cons, List.takeWhile_cons, ih]

/-- A class that stops inside a text takes no more when anything follows. -/
theorem takeWhile_stopped {p : Char → Bool} {text : List Char}
    (stopped : (text.takeWhile p).length < text.length) (back : List Char) :
    (text ++ back).takeWhile p = text.takeWhile p := by
  rw [List.takeWhile_append, if_neg (Nat.ne_of_lt stopped)]

/-- A class takes all of a text only if all of the text is in it. -/
theorem takeWhile_lt {p : Char → Bool} {text : List Char} (other : text.all p ≠ true) :
    (text.takeWhile p).length < text.length := by
  apply Nat.lt_of_le_of_ne (List.takeWhile_prefix p).length_le
  intro whole
  apply other
  rw [← (List.takeWhile_prefix p).eq_of_length whole]
  exact List.all_takeWhile

/-- A spelling without a newline begins no text that it did not begin before the newline. -/
theorem isPrefixOf_newline {spelling : List Char} (apart : '\n' ∉ spelling)
    (text back : List Char) :
    spelling.isPrefixOf (text ++ '\n' :: back) = spelling.isPrefixOf text := by
  induction spelling generalizing text with
  | nil => simp
  | cons s rest ih =>
    have later : '\n' ∉ rest := fun mem => apart (List.mem_cons_of_mem s mem)
    cases text with
    | nil =>
      have other : s ≠ '\n' := fun same => apart (same ▸ List.mem_cons_self)
      simp [List.isPrefixOf, other]
    | cons c text => simp [List.isPrefixOf, ih later]

/-- No operator is spelled with a newline. -/
theorem newline_notMem_fixed {spelling : String} {kind : Kind}
    (mem : fixed spelling kind ∈ table) : '\n' ∉ spelling.toList := by
  have apart : ∀ entry ∈ Kind.fixed, '\n' ∉ entry.1.toList := by decide
  exact apart (spelling, kind) (by simpa [table] using mem)

/-- A string that a text closes is no longer when anything follows. -/
theorem extent?_quoted_append {text : List Char} (closed : quoted.extent? text ≠ none)
    (back : List Char) : quoted.extent? (text ++ back) = quoted.extent? text := by
  cases text with
  | nil => exact absurd rfl closed
  | cons c rest =>
    by_cases quote : c = '"'
    · subst quote
      have stopped : (rest.takeWhile (· != '"')).length < rest.length := by
        apply Classical.byContradiction
        intro whole
        exact closed (if_neg whole)
      have room : (rest.takeWhile (· != '"')).length < (rest ++ back).length := by
        rw [List.length_append]
        exact Nat.lt_add_right _ stopped
      simp only [List.cons_append, extent?]
      rw [takeWhile_stopped stopped back, if_pos stopped, if_pos room]
    · simp [extent?, quote] at closed

/-- A character literal of a text is no longer when anything follows. -/
theorem characterExtent?_append {text : List Char} {n : Nat} (fits : characterExtent? text = some n)
    (back : List Char) : characterExtent? (text ++ back) = some n := by
  unfold characterExtent? at fits
  split at fits
  · exact fits
  next c rest _ =>
    have plain : ¬ (c = '\'' ∨ c = '\\') := by
      intro quote
      rw [if_pos quote] at fits
      cases fits
    have noBackslash : c ≠ '\\' := fun same => plain (.inr same)
    simpa [characterExtent?, noBackslash, plain] using fits
  · cases fits

/-- **A quote that nothing closes is a fault.** -/
theorem first?_openQuote {rest : List Char} (left : quoted.extent? ('"' :: rest) = none) :
    first? ('"' :: rest) = some (openQuote, 1) := by
  have noBlank : blank.extent? ('"' :: rest) = none := rfl
  have noComment : comment.extent? ('"' :: rest) = none := rfl
  have noWord : word.extent? ('"' :: rest) = none := rfl
  have noNumber : number.extent? ('"' :: rest) = none := rfl
  have opened : openQuote.extent? ('"' :: rest) = some 1 := rfl
  simp [first?, table, noBlank, noComment, noWord, noNumber, left, opened]

/-- **A single quote that begins no character literal is a fault.** -/
theorem first?_openCharacter {rest : List Char} (left : character.extent? ('\'' :: rest) = none) :
    first? ('\'' :: rest) = some (openCharacter, 1) := by
  have noBlank : blank.extent? ('\'' :: rest) = none := rfl
  have noComment : comment.extent? ('\'' :: rest) = none := rfl
  have noWord : word.extent? ('\'' :: rest) = none := rfl
  have noNumber : number.extent? ('\'' :: rest) = none := rfl
  have noString : quoted.extent? ('\'' :: rest) = none := rfl
  have noQuote : openQuote.extent? ('\'' :: rest) = none := rfl
  have opened : openCharacter.extent? ('\'' :: rest) = some 1 := rfl
  simp [first?, table, noBlank, noComment, noWord, noNumber, noString, noQuote, left, opened]

/-- **A pattern takes of a text what it takes with a newline behind it**, in a text that is not all
blank and at whose beginning no quote is left open. -/
theorem extent?_newline {pattern : Pattern} (mem : pattern ∈ table) {text : List Char}
    (solid : text.all isBlank ≠ true)
    (closed : ∀ rest, text = '"' :: rest → quoted.extent? text ≠ none)
    (whole : ∀ rest, text = '\'' :: rest → character.extent? text ≠ none) (back : List Char) :
    pattern.extent? (text ++ '\n' :: back) = pattern.extent? text := by
  cases text with
  | nil => exact absurd rfl solid
  | cons c rest =>
    cases pattern with
    | blank =>
      simp only [extent?, run?]
      rw [takeWhile_stopped (takeWhile_lt solid)]
    | word =>
      simp only [extent?, run?]
      rw [takeWhile_newline (by decide)]
    | number =>
      simp only [List.cons_append, extent?]
      rw [takeWhile_newline (by decide)]
    | comment =>
      by_cases slash : c = '/'
      · subst slash
        cases rest with
        | nil => rfl
        | cons d rest =>
          by_cases slash : d = '/'
          · subst slash
            simp only [List.cons_append, extent?]
            rw [takeWhile_newline (by decide)]
          · simp [extent?, slash]
      · simp [extent?, slash]
    | quoted =>
      by_cases quote : c = '"'
      · subst quote
        exact extent?_quoted_append (closed rest rfl) _
      · simp [extent?, quote]
    | openQuote =>
      by_cases quote : c = '"'
      · subst quote
        rfl
      · simp [extent?, quote]
    | character =>
      by_cases quote : c = '\''
      · subst quote
        obtain ⟨n, fits⟩ := Option.ne_none_iff_exists'.1 (whole rest rfl)
        rw [fits]
        exact characterExtent?_append fits _
      · simp [extent?, characterExtent?, quote]
    | openCharacter =>
      by_cases quote : c = '\''
      · subst quote
        rfl
      · simp [extent?, quote]
    | fixed spelling kind =>
      simp only [extent?]
      rw [isPrefixOf_newline (newline_notMem_fixed mem)]
    | half => rfl

/-- **A newline behind a text leaves its first lexeme as it is**, unless all of the text is blank
or the lexeme is a fault. -/
theorem first?_newline {text : List Char} (solid : text.all isBlank ≠ true) {pattern : Pattern}
    {n : Nat} (first : first? text = some (pattern, n))
    (sound : ∀ fault, pattern.reading (text.take n) ≠ .fault fault) (back : List Char) :
    first? (text ++ '\n' :: back) = some (pattern, n) := by
  have closed : ∀ rest, text = '"' :: rest → quoted.extent? text ≠ none := by
    intro rest same left
    subst same
    rw [first?_openQuote left] at first
    cases first
    exact sound _ rfl
  have whole : ∀ rest, text = '\'' :: rest → character.extent? text ≠ none := by
    intro rest same left
    subst same
    rw [first?_openCharacter left] at first
    cases first
    exact sound _ rfl
  have each : ∀ patterns, patterns ⊆ table →
      (patterns.findSome? fun p => (p.extent? (text ++ '\n' :: back)).map (p, ·)) =
        patterns.findSome? fun p => (p.extent? text).map (p, ·) := by
    intro patterns among
    induction patterns with
    | nil => rfl
    | cons p rest ih =>
      obtain ⟨mem, among⟩ := List.cons_subset.1 among
      rw [List.findSome?_cons, List.findSome?_cons, ih among,
        extent?_newline mem solid closed whole]
  exact (each table (List.Subset.refl table)).trans first

/-- A character literal takes no more than there is. -/
theorem characterExtent?_le {text : List Char} {n : Nat} (fits : characterExtent? text = some n) :
    n ≤ text.length := by
  unfold characterExtent? at fits
  split at fits <;> grind

/-- **A pattern takes no more than there is.** -/
theorem extent?_le {pattern : Pattern} {text : List Char} {n : Nat}
    (fits : pattern.extent? text = some n) : n ≤ text.length := by
  have run : ∀ (p : Char → Bool) (l : List Char), (l.takeWhile p).length ≤ l.length :=
    fun p l => (List.takeWhile_prefix p).length_le
  have quotes := @characterExtent?_le
  revert fits
  fun_cases extent? pattern text <;> grind [run?, String.length_toList]

/-- The first pattern takes no more than there is. -/
theorem first?_le {text : List Char} {pattern : Pattern} {n : Nat}
    (fits : first? text = some (pattern, n)) : n ≤ text.length :=
  extent?_le (extent?_of_first? fits).2

end Pattern

/-! ## Scanning behind a newline -/

/-- A text that has tokens and characters begins with a lexeme that is no fault. -/
theorem exists_first_of_scan {here : Position} {text : List Char} {tokens : List Token}
    (scanned : scan here text 0 = .ok tokens) (some_ : text ≠ []) :
    ∃ pattern n, Pattern.first? text = some (pattern, n) ∧
      ∀ fault, pattern.reading (text.take n) ≠ .fault fault := by
  cases first : Pattern.first? text with
  | none =>
    cases text with
    | nil => exact absurd rfl some_
    | cons c rest =>
      rw [scan, first] at scanned
      cases scanned
  | some found =>
    obtain ⟨pattern, n⟩ := found
    refine ⟨pattern, n, rfl, ?_⟩
    intro fault reading
    rw [scan_first first, reading] at scanned
    cases scanned

/-- **A scan comes through a text that has tokens**, and through the newline behind it, to what
follows. By induction on the length of the text: each lexeme is taken as it was alone, and the
blanks at the end of the text are passed over with the newline. -/
theorem scan_newline {here : Position} {text : List Char} {tokens : List Token}
    (scanned : scan here text 0 = .ok tokens) (back : List Char) :
    scan here (text ++ '\n' :: back) 0 =
      (scan (here.past (text ++ ['\n'])) back 0).map (tokens.dropLast ++ ·) := by
  generalize length : text.length = size
  induction size using Nat.strongRecOn generalizing here text tokens with
  | ind size ih =>
  by_cases solid : text.all isBlank = true
  · have alone := scan_blank solid here []
    rw [List.append_nil, scanned] at alone
    cases alone
    have blanks : (text ++ ['\n']).all isBlank = true := by
      rw [List.all_append, solid]
      decide
    have joined := scan_blank blanks here back
    rw [List.append_assoc, List.singleton_append] at joined
    rw [joined]
    cases scan (here.past (text ++ ['\n'])) back 0 <;> rfl
  · have some_ : text ≠ [] := fun none => solid (none ▸ rfl)
    obtain ⟨pattern, n, first, sound⟩ := exists_first_of_scan scanned some_
    have inside := Pattern.first?_le first
    have shorter : (text.drop n).length < size := by
      rw [List.length_drop, length]
      have taken := Pattern.first?_pos first
      omega
    have past : (here.past (text.take n)).past (text.drop n ++ ['\n']) =
        here.past (text ++ ['\n']) := by
      rw [← Position.past_append, ← List.append_assoc, List.take_append_drop]
    have joined := Pattern.first?_newline solid first sound back
    rw [scan_first joined, List.take_append_of_le_length inside,
      List.drop_append_of_le_length inside]
    rw [scan_first first] at scanned
    cases reading : pattern.reading (text.take n) with
    | fault fault => exact absurd reading (sound fault)
    | skip =>
      rw [reading] at scanned
      have later := ih _ shorter scanned rfl
      rwa [past] at later
    | token kind found =>
      rw [reading] at scanned
      cases rest : scan (here.past (text.take n)) (text.drop n) 0 with
      | error d =>
        rw [rest] at scanned
        cases scanned
      | ok tokens =>
        rw [rest] at scanned
        cases scanned
        have later := ih _ shorter rest rfl
        rw [past] at later
        have ended : tokens ≠ [] := by
          obtain ⟨front, same, -⟩ := (laid_of_scan rest).ended
          simp [same]
        dsimp only
        rw [later, List.dropLast_cons_of_ne_nil ended]
        cases scan (here.past (text ++ ['\n'])) back 0 <;> rfl

/-! ## Texts joined by a newline -/

/-- **A text and another behind a newline are lexed one by one**: what the second has alone decides
what there is behind the tokens of the first. -/
structure Compositional (file front : String) (tokens : List Token) (back : String) : Prop where
  /-- The last token of the first text is its end, and so is not among those that are kept. -/
  ended : ∃ last, last.kind = .eof ∧ tokens = tokens.dropLast ++ [last]
  /-- The joined text has tokens exactly if the second text has tokens. -/
  succeeds_iff : (∃ joined, ofText file (front ++ "\n" ++ back) = .ok joined) ↔
    ∃ later, ofText file back = .ok later
  /-- The tokens of the second text follow those of the first without its end. -/
  ok : ∀ later, ofText file back = .ok later →
    ofText file (front ++ "\n" ++ back) =
      .ok (tokens.dropLast ++ later.map (Relabel.behindLine front.toList).token)
  /-- The fault of the second text is the fault of the joined text. -/
  error : ∀ d, ofText file back = .error d →
    ofText file (front ++ "\n" ++ back) =
      .error ((Relabel.behindLine front.toList).diagnostic d)

/-- **The tokens of a joined text**, from those of the second text alone. -/
theorem ofText_newline {file front : String} {tokens : List Token}
    (scanned : ofText file front = .ok tokens) (back : String) :
    ofText file (front ++ "\n" ++ back) =
      ((ofText file back).map fun later =>
        tokens.dropLast ++ later.map (Relabel.behindLine front.toList).token).mapError
          (Relabel.behindLine front.toList).diagnostic := by
  have text : (front ++ "\n" ++ back).toList = front.toList ++ '\n' :: back.toList := by
    simp [String.toList_append]
  rw [ofText, text, scan_newline scanned, ← Relabel.behindLine_first,
    scan_moved (Relabel.behindLine_past _), ofText]
  cases scan (.first file) back.toList 0 <;> rfl

/-- **Lexing is compositional at a newline.** -/
theorem compositional_of_ofText {file front : String} {tokens : List Token}
    (scanned : ofText file front = .ok tokens) (back : String) :
    Compositional file front tokens back where
  ended := by
    obtain ⟨before, same, -⟩ := (laid_of_scan scanned).ended
    exact ⟨ending ((Position.first file).past front.toList), rfl, by simp [same]⟩
  succeeds_iff := by
    rw [ofText_newline scanned back]
    cases ofText file back with
    | error d =>
      constructor
      · rintro ⟨_, same⟩
        cases same
      · rintro ⟨_, same⟩
        cases same
    | ok later => exact ⟨fun _ => ⟨later, rfl⟩, fun _ => ⟨_, rfl⟩⟩
  ok later alone := by
    rw [ofText_newline scanned back, alone]
    rfl
  error d alone := by
    rw [ofText_newline scanned back, alone]
    rfl

/-- A comment ends at the newline behind it, and a string that opens on the next line is a fault
there. -/
theorem compositional_comment : ∃ tokens, ofText "a" "x = \"é\n\" // ü" = .ok tokens ∧
    tokens.length = 5 ∧ Compositional "a" "x = \"é\n\" // ü" tokens "y \"" ∧
    Compositional "a" "x = \"é\n\" // ü" tokens "y" := by
  have counted : (ofText "a" "x = \"é\n\" // ü").toOption.map List.length = some 5 := by
    decide +kernel
  cases scanned : ofText "a" "x = \"é\n\" // ü" with
  | error diagnostic =>
    rw [scanned] at counted
    cases counted
  | ok tokens =>
    rw [scanned] at counted
    exact ⟨tokens, rfl, Option.some.inj counted, compositional_of_ofText scanned _,
      compositional_of_ofText scanned _⟩

end Token

end FrontEnd

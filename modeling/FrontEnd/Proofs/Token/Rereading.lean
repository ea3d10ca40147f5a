import FrontEnd.Proofs.Token.Describing
import FrontEnd.Proofs.Program.Lexemes

/-!
# Lexemes written and read again

A lexeme is written as the token that it is of, with the quotes or the slashes around it, and
lexemes one below the other, each on a line of its own (`Lexeme.lines`). A text between quotes may
itself have newlines. Of each class of lexemes `Lexeme.Proper` says which texts it has, without the
patterns: so a word is proper as an identifier exactly if it is not reserved, and a comment may hold
whatever is not a newline.

Each class meets the pattern that is its own and no earlier one (`Lexeme.Proper.read`), and that
pattern takes the lexeme to its end. What follows on the next lines changes nothing of it, since
scanning is compositional at a newline (`scan_newline`).

**The law** (`Lexeme.read_lines`): the tokens of proper lexemes on their lines are these lexemes,
and the end.
-/

namespace FrontEnd

open Token

namespace Lexeme

/-- **The characters that a lexeme is written with**: those of a token of it, wherever it is. -/
def written (lexeme : Lexeme) : List Char :=
  Token.written ⟨lexeme.1, lexeme.2, default⟩

/-- Lexemes written one below the other. -/
def lines (lexemes : List Lexeme) : List Char :=
  ['\n'].intercalate (lexemes.map written)

/-- The lexeme of the end of a text. -/
def ending : Lexeme :=
  (.eof, "EOF")

/-- **The lexemes of the language**, a class at a time. -/
inductive Proper : Lexeme → Prop
  /-- Letters and underscores that are not reserved. -/
  | identifier {text : String} : text ≠ "" → (∀ c ∈ text.toList, isWordChar c = true) →
    (∀ kind, (text, kind) ∉ Kind.reserved) → Proper (.identifier, text)
  /-- A reserved word. -/
  | reserved {text : String} {kind : Kind} : (text, kind) ∈ Kind.reserved → Proper (kind, text)
  /-- Digits. -/
  | int {text : String} : text ≠ "" → (∀ c ∈ text.toList, c.isDigit = true) → Proper (.int, text)
  /-- Digits, a point, and digits if there are any. -/
  | double {whole decimals : List Char} : whole ≠ [] →
    (∀ c ∈ whole ++ decimals, c.isDigit = true) →
    Proper (.double, String.ofList (whole ++ '.' :: decimals))
  /-- A text without a double quote. -/
  | string {text : String} : '"' ∉ text.toList → Proper (.string, text)
  /-- A character that is neither a single quote nor a backslash. -/
  | plain {c : Char} : c ≠ '\'' → c ≠ '\\' → Proper (.char, String.ofList [c])
  /-- A backslash and a character that is no newline. -/
  | escaped {c : Char} : c ≠ '\n' → Proper (.char, String.ofList ['\\', c])
  /-- A text without a newline. -/
  | comment {text : String} : '\n' ∉ text.toList → Proper (.comment, text)
  /-- Punctuation or an operator. -/
  | fixed {text : String} {kind : Kind} : (text, kind) ∈ Kind.fixed → Proper (kind, text)

end Lexeme

namespace Token.Pattern

variable {c : Char} {rest : List Char}

/-! ## The pattern for a class -/

/-- A letter begins a word and nothing else. -/
theorem starts_letter (letter : isWordChar c = true) : table.filter (·.starts c) = [word] := by
  have each : ∀ n < 123, isWordChar (Char.ofNat n) = true →
      table.filter (·.starts (Char.ofNat n)) = [word] := by
    decide +kernel
  have small := toNat_lt_of_isWordChar letter
  rw [← Char.ofNat_toNat c] at letter ⊢
  exact each _ small letter

theorem first?_letter (letter : isWordChar c = true) :
    first? (c :: rest) = some (word, (rest.takeWhile isWordChar).length + 1) := by
  rw [first?_cons, starts_letter letter]
  simp [extent?, run?, letter]

/-- **A word is taken to its end** where no letter follows. -/
theorem first?_word {text back : List Char} (some_ : text ≠ [])
    (letters : ∀ c ∈ text, isWordChar c = true) (stops : ∀ c ∈ back.head?, isWordChar c = false) :
    first? (text ++ back) = some (word, text.length) := by
  obtain ⟨c, rest, rfl⟩ := List.exists_cons_of_ne_nil some_
  obtain ⟨first, later⟩ := List.forall_mem_cons.1 letters
  have stopped : back.takeWhile isWordChar = [] := by
    cases back with
    | nil => rfl
    | cons d back => simpa using stops d rfl
  rw [List.cons_append, first?_letter first, List.takeWhile_append_of_pos later, stopped,
    List.append_nil, List.length_cons]

theorem first?_slashes (rest : List Char) : first? ('/' :: '/' :: rest) =
    some (comment, (rest.takeWhile (· != '\n')).length + 2) := by
  have starting : table.filter (·.starts '/') =
      [comment, fixed "/=" .slashEquals, fixed "/" .slash] := by
    decide
  rw [first?_cons, starting]
  rfl

theorem first?_fixed {spelling : String} {kind : Kind} (known : (spelling, kind) ∈ Kind.fixed) :
    first? spelling.toList = some (fixed spelling kind, spelling.toList.length) := by
  have each : ∀ entry ∈ Kind.fixed,
      first? entry.1.toList = some (fixed entry.1 entry.2, entry.1.toList.length) := by
    decide
  exact each _ known

end Token.Pattern

namespace Lexeme

open Pattern

variable {lexeme : Lexeme}

/-- **A pattern reads a lexeme**: it is the first that fits what the lexeme is written with, takes
all of it, and makes the lexeme of it. -/
def ReadBy (lexeme : Lexeme) (pattern : Pattern) : Prop :=
  first? lexeme.written = some (pattern, lexeme.written.length) ∧
    pattern.reading lexeme.written = .token lexeme.1 lexeme.2

/-- A word is read with the kind that it has among the words. -/
theorem readBy_word {text : String} (some_ : text ≠ "")
    (letters : ∀ c ∈ text.toList, isWordChar c = true) :
    ReadBy (Kind.ofWord text, text) word := by
  have bare : written (Kind.ofWord text, text) = text.toList :=
    (written_of_isBare (isBare_ofWord text) text default).1
  rw [ReadBy, bare]
  constructor
  · have notEmpty : text.toList ≠ [] := mt String.toList_eq_nil_iff.1 some_
    have alone := @first?_word _ [] notEmpty letters nofun
    rwa [List.append_nil] at alone
  · simp [reading]

/-- A word that is not reserved is an identifier. -/
theorem ofWord_of_free {text : String} (free : ∀ kind, (text, kind) ∉ Kind.reserved) :
    Kind.ofWord text = .identifier := by
  have none : Kind.reserved.lookup text = none := by
    rw [List.lookup_eq_none_iff]
    rintro ⟨word, kind⟩ mem
    rw [bne_iff_ne]
    rintro rfl
    exact free kind mem
  rw [Kind.ofWord, none, Option.getD_none]

/-- A reserved word is of letters, and of its own kind. -/
theorem word_of_reserved {text : String} {kind : Kind} (known : (text, kind) ∈ Kind.reserved) :
    text ≠ "" ∧ (∀ c ∈ text.toList, isWordChar c = true) ∧ Kind.ofWord text = kind := by
  have each : ∀ entry ∈ Kind.reserved, entry.1 ≠ "" ∧
      entry.1.toList.all isWordChar = true ∧ Kind.ofWord entry.1 = entry.2 := by
    decide
  obtain ⟨notEmpty, ofChars, same⟩ := each _ known
  exact ⟨notEmpty, List.all_eq_true.1 ofChars, same⟩

/-- Digits and points behind a digit are read by the pattern of numbers, as what they amount to. -/
theorem readBy_number {c : Char} {rest : List Char} {kind : Kind} (bare : kind.isBare = true)
    (digit : c.isDigit = true) (inside : ∀ d ∈ rest, isNumberChar d = true)
    (amounts : numberReading (c :: rest) = .token kind (String.ofList (c :: rest))) :
    ReadBy (kind, String.ofList (c :: rest)) number := by
  have chars : written (kind, String.ofList (c :: rest)) = c :: rest := by
    rw [written, (written_of_isBare bare _ _).1, String.toList_ofList]
  rw [ReadBy, chars, first?_digit digit, List.takeWhile_eq_self_iff.2 inside]
  exact ⟨rfl, amounts⟩

/-- Digits alone amount to an integer. -/
theorem numberReading_int {text : List Char} (digits : ∀ c ∈ text, c.isDigit = true) :
    numberReading text = .token .int (String.ofList text) := by
  have noPoint : text.count '.' = 0 :=
    List.count_eq_zero.2 fun point => absurd (digits _ point) (by decide)
  simp only [numberReading, noPoint]

/-- Digits around a point amount to a double. -/
theorem numberReading_double {whole decimals : List Char}
    (digits : ∀ c ∈ whole ++ decimals, c.isDigit = true) :
    numberReading (whole ++ '.' :: decimals) =
      .token .double (String.ofList (whole ++ '.' :: decimals)) := by
  have noPoint : (whole ++ decimals).count '.' = 0 :=
    List.count_eq_zero.2 fun point => absurd (digits _ point) (by decide)
  have onePoint : (whole ++ '.' :: decimals).count '.' = 1 := by
    rw [List.count_append] at noPoint ⊢
    rw [List.count_cons_self]
    omega
  simp only [numberReading, onePoint]

/-- A text without a double quote is read between two of them. -/
theorem readBy_quoted {text : String} (closed : '"' ∉ text.toList) :
    ReadBy (.string, text) Pattern.quoted := by
  have fits := extent?_quoted closed []
  constructor
  · simp [written, Token.written, first?_quote, fits]
  · simp [written, Token.written, reading, inside]

/-- What stands between the quotes of a character literal is read as it stands. -/
theorem readBy_character {text : String}
    (fits : characterExtent? ('\'' :: (text.toList ++ ['\''])) = some (text.toList.length + 2)) :
    ReadBy (.char, text) character := by
  constructor
  · simp [written, Token.written, first?_singleQuote, extent?, fits]
  · simp [written, Token.written, reading, inside]

/-- A text without a newline is read behind two slashes. -/
theorem readBy_comment {text : String} (line : '\n' ∉ text.toList) :
    ReadBy (.comment, text) Pattern.comment := by
  have whole : text.toList.takeWhile (· != '\n') = text.toList := by
    rw [List.takeWhile_eq_self_iff]
    intro c mem
    rw [bne_iff_ne]
    rintro rfl
    exact line mem
  constructor
  · simp [written, Token.written, first?_slashes, whole]
  · simp [written, Token.written, reading]

/-- Punctuation and operators are read as they are spelled. -/
theorem readBy_fixed {text : String} {kind : Kind} (known : (text, kind) ∈ Kind.fixed) :
    ReadBy (kind, text) (Pattern.fixed text kind) := by
  have each : ∀ entry ∈ Kind.fixed, entry.2.isBare = true := by decide
  have bare : written (kind, text) = text.toList :=
    (written_of_isBare (each _ known) text default).1
  rw [ReadBy, bare]
  exact ⟨first?_fixed known, rfl⟩

/-- **A proper lexeme is read** as it is, a class at a time. -/
theorem Proper.read (proper : lexeme.Proper) : ∃ pattern, lexeme.ReadBy pattern := by
  cases proper with
  | identifier some_ letters free =>
    have byWord := readBy_word some_ letters
    rw [ofWord_of_free free] at byWord
    exact ⟨_, byWord⟩
  | reserved known =>
    obtain ⟨some_, letters, same⟩ := word_of_reserved known
    have byWord := readBy_word some_ letters
    rw [same] at byWord
    exact ⟨_, byWord⟩
  | @int text some_ digits =>
    obtain ⟨c, rest, spelled⟩ := List.exists_cons_of_ne_nil (mt String.toList_eq_nil_iff.1 some_)
    rw [spelled] at digits
    obtain ⟨first, later⟩ := List.forall_mem_cons.1 digits
    have inside : ∀ d ∈ rest, isNumberChar d = true := fun d mem => by
      simp [isNumberChar, later d mem]
    rw [← String.ofList_toList (s := text), spelled]
    exact ⟨_, readBy_number rfl first inside (numberReading_int digits)⟩
  | @double whole decimals some_ digits =>
    obtain ⟨c, rest, rfl⟩ := List.exists_cons_of_ne_nil some_
    have first : c.isDigit = true := digits c (by simp)
    have inside : ∀ d ∈ rest ++ '.' :: decimals, isNumberChar d = true := by
      intro d mem
      by_cases point : d = '.'
      · simp [isNumberChar, point]
      · have digit : d.isDigit = true := digits d (by simp_all)
        simp [isNumberChar, digit]
    exact ⟨_, readBy_number rfl first inside (numberReading_double digits)⟩
  | string closed => exact ⟨_, readBy_quoted closed⟩
  | @plain c notQuote notBackslash =>
    have fits : characterExtent? ['\'', c, '\''] = some 3 :=
      characterExtent?_eq_some_iff.2 (.inl ⟨rfl, c, [], rfl, notQuote, notBackslash⟩)
    exact ⟨_, readBy_character (by simpa using fits)⟩
  | @escaped c notNewline =>
    have fits : characterExtent? ['\'', '\\', c, '\''] = some 4 :=
      characterExtent?_eq_some_iff.2 (.inr ⟨rfl, c, [], rfl, notNewline⟩)
    exact ⟨_, readBy_character (by simpa using fits)⟩
  | comment line => exact ⟨_, readBy_comment line⟩
  | fixed known => exact ⟨_, readBy_fixed known⟩

/-- **A proper lexeme alone** is scanned as one token and the end. -/
theorem Proper.scan (proper : lexeme.Proper) (here : Position) :
    scan here lexeme.written 0 = .ok
      [⟨lexeme.1, lexeme.2, ⟨here, here.past lexeme.written⟩⟩,
        Token.ending (here.past lexeme.written)] := by
  obtain ⟨pattern, first, reading⟩ := proper.read
  rw [scan_first first, List.take_length, reading, List.drop_length]
  rfl

/-- **Proper lexemes on their lines are scanned one by one**, by induction on the lines: the next
begins behind the newline. -/
theorem scan_lines {lexemes : List Lexeme} (proper : ∀ lexeme ∈ lexemes, lexeme.Proper)
    (here : Position) :
    (scan here (lines lexemes) 0).map (·.map Token.lexeme) = .ok (lexemes ++ [ending]) := by
  induction lexemes generalizing here with
  | nil => rfl
  | cons lexeme below ih =>
    obtain ⟨first, later⟩ := List.forall_mem_cons.1 proper
    cases below with
    | nil =>
      have single : lines [lexeme] = lexeme.written := by simp [lines]
      rw [single, first.scan]
      rfl
    | cons next below =>
      have split : lines (lexeme :: next :: below) =
          lexeme.written ++ '\n' :: lines (next :: below) := by
        simp [lines]
      have rest := ih later (here.past (lexeme.written ++ ['\n']))
      rw [split, scan_newline (first.scan here)]
      generalize here.past (lexeme.written ++ ['\n']) = behind at rest ⊢
      cases scanned : Token.scan behind (lines (next :: below)) 0 with
      | error d =>
        rw [scanned] at rest
        cases rest
      | ok tokens =>
        rw [scanned] at rest
        simpa [Except.map, Token.lexeme] using rest

/-- **Lexing undoes writing**: proper lexemes on their lines are read as these lexemes and the end,
with a newline behind the last of them or without one. -/
theorem read_lines {lexemes : List Lexeme} (proper : ∀ lexeme ∈ lexemes, lexeme.Proper)
    (file : String) :
    ((ofText file (String.ofList (lines lexemes))).map (·.map Token.lexeme) =
      .ok (lexemes ++ [ending])) ∧
    ((ofText file (String.ofList (lines lexemes ++ ['\n']))).map (·.map Token.lexeme) =
      .ok (lexemes ++ [ending])) := by
  have alone := scan_lines proper (.first file)
  refine ⟨by rwa [ofText, String.toList_ofList], ?_⟩
  rw [ofText, String.toList_ofList]
  cases scanned : scan (.first file) (lines lexemes) 0 with
  | error d =>
    rw [scanned] at alone
    cases alone
  | ok tokens =>
    rw [scanned] at alone
    obtain ⟨front, same, -⟩ := (laid_of_scan scanned).ended
    rw [scan_newline scanned]
    subst same
    simpa [Except.map, Token.scan, Token.lexeme, ending, Token.ending] using alone

/-- A string over two lines with slashes in it, a comment with a quote in it, a reserved word and a
word that begins with it, a double, a quote behind a backslash, and an operator. -/
def nested : List Lexeme :=
  [(.string, "// a\n'"), (.comment, "\"é"), (.ifWord, "if"), (.identifier, "iff"), (.double, "1."),
    (.char, "\\'"), (.greaterEquals, ">=")]

/-- These lexemes are proper, and are read from the text that is expected. -/
theorem read_lines_nested : (∀ lexeme ∈ nested, lexeme.Proper) ∧
    (ofText "m" "\"// a\n'\"\n//\"é\nif\niff\n1.\n'\\''\n>=").map (·.map Token.lexeme) =
      .ok (nested ++ [ending]) := by
  have proper : ∀ lexeme ∈ nested, lexeme.Proper := by
    have identifier : Proper (.identifier, "iff") :=
      .identifier (by decide) (List.all_eq_true.1 (by decide)) fun kind => by cases kind <;> decide
    have double : Proper (.double, "1.") :=
      @Proper.double ['1'] [] (by decide) (List.all_eq_true.1 (by decide))
    have escaped : Proper (.char, "\\'") := .escaped (c := '\'') (by decide)
    simp only [nested, List.forall_mem_cons]
    exact ⟨.string (by decide), .comment (by decide), .reserved (by decide), identifier, double,
      escaped, .fixed (by decide), by simp⟩
  have text : String.ofList (lines nested) = "\"// a\n'\"\n//\"é\nif\niff\n1.\n'\\''\n>=" := by
    decide
  have read := (read_lines proper "m").1
  rw [text] at read
  exact ⟨proper, read⟩

end Lexeme

end FrontEnd

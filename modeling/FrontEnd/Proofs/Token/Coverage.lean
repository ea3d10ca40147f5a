import FrontEnd.Proofs.Token.Scanned
import FrontEnd.Source.Slice

/-!
# How tokens cover their text

The tokens of a text are laid over it from its start to its end (`Laid`): blanks, a token, blanks,
the next token, and so on, with blanks before the token of the end. A token takes the characters
that it was written with (`Token.written`): the text of a string or of a character with its quotes,
that of a comment with its two slashes, and every other text as it stands. Scanning lays one token
at a time, so what holds of the whole follows from what one pattern takes.

**The law** (`Token.covers_of_ofText`): the tokens of a text cover it. Nothing but blanks is left
out, the spans are in order and cut out what the tokens were written with, and each position counts
the bytes and the newlines before it.
-/

namespace FrontEnd

open Token

/-! ## Stretches of a text -/

/-- The longest beginning of a text that takes at most `n` bytes, and what follows it. -/
def splitBytes : Nat → List Char → List Char × List Char
  | _, [] => ([], [])
  | n, c :: cs =>
    if c.utf8Size ≤ n then
      let (front, back) := splitBytes (n - c.utf8Size) cs
      (c :: front, back)
    else ([], c :: cs)

/-- Splitting loses nothing. -/
theorem splitBytes_append (n : Nat) (text : List Char) :
    (splitBytes n text).1 ++ (splitBytes n text).2 = text := by
  induction text generalizing n with
  | nil => rfl
  | cons c cs ih =>
    unfold splitBytes
    split
    · exact congrArg (c :: ·) (ih _)
    · rfl

/-- The part of a text before a byte offset. -/
def textBefore (text : List Char) (offset : Nat) : List Char :=
  (splitBytes offset text).1

/-- The part of a text between two byte offsets. -/
def textBetween (text : List Char) (start stop : Nat) : List Char :=
  textBefore (splitBytes start text).2 (stop - start)

/-- **Splitting behind a first part** gives both parts back. -/
theorem splitBytes_byteLength (front back : List Char) :
    splitBytes (byteLength front) (front ++ back) = (front, back) := by
  induction front with
  | nil =>
    cases back with
    | nil => rfl
    | cons c rest =>
      have noRoom : ¬ c.utf8Size ≤ 0 := Nat.not_le_of_lt c.utf8Size_pos
      simp [splitBytes, noRoom]
  | cons c rest ih =>
    have left : c.utf8Size + byteLength rest - c.utf8Size = byteLength rest := by omega
    simp [splitBytes, left, ih]

/-- The part before the offset where a second part begins is the first part. -/
theorem textBefore_append (front back : List Char) :
    textBefore (front ++ back) (byteLength front) = front := by
  rw [textBefore, splitBytes_byteLength]

/-- The part between the offsets where a middle part begins and ends is the middle part. -/
theorem textBetween_append (front middle back : List Char) :
    textBetween (front ++ (middle ++ back)) (byteLength front)
      (byteLength front + byteLength middle) = middle := by
  rw [textBetween, splitBytes_byteLength, Nat.add_sub_cancel_left, textBefore_append]

/-! ## What it is to cover a text -/

/-- **A position is exact**: it stands between two characters, and its line counts the newlines
before it. -/
structure Position.Exact (file : String) (text : List Char) (here : Position) : Prop where
  boundary : byteLength (textBefore text here.offset) = here.offset
  line : here.line = 1 + newlines (textBefore text here.offset)
  file : here.file = file

/-- The position behind a first part of a text is exact. -/
theorem Position.exact_past (file : String) (front back : List Char) :
    ((Position.first file).past front).Exact file (front ++ back) := by
  have offset : ((Position.first file).past front).offset = byteLength front :=
    Nat.zero_add _
  refine ⟨?_, ?_, rfl⟩
  · rw [offset, textBefore_append]
  · rw [offset, textBefore_append]
    rfl

namespace Token

/-- **The characters that a token is written with.** The token of the end is written with none. -/
def written (token : Token) : List Char :=
  match token.kind with
  | .string => '"' :: (token.text.toList ++ ['"'])
  | .char => '\'' :: (token.text.toList ++ ['\''])
  | .comment => '/' :: '/' :: token.text.toList
  | .eof => []
  | _ => token.text.toList

/-- **The stretches of a text that its tokens leave out**, from an offset on: one before each
token. -/
def gaps (text : List Char) : Nat → List Token → List (List Char)
  | _, [] => []
  | start, token :: rest =>
    textBetween text start token.span.start.offset :: gaps text token.span.stop.offset rest

/-- **Tokens cover a text of a file.** -/
structure Covers (file : String) (text : List Char) (tokens : List Token) : Prop where
  /-- The last token is the end of the text, and every other is a token with an extent. -/
  ended : ∃ front, tokens = front ++ [ending ⟨byteLength text, 1 + newlines text, file⟩] ∧
    ∀ token ∈ front, token.kind ≠ .eof ∧ token.kind ≠ .error ∧
      token.span.start.offset < token.span.stop.offset
  /-- The spans are in order and do not overlap. -/
  ordered : tokens.Pairwise fun a b => a.span.stop.offset ≤ b.span.start.offset
  /-- Only blanks are left out. -/
  blanks : ∀ gap ∈ gaps text 0 tokens, gap.all isBlank = true
  /-- A span cuts out what its token is written with. -/
  cut : ∀ token ∈ tokens,
    textBetween text token.span.start.offset token.span.stop.offset = token.written
  /-- Every position is exact. -/
  exact : ∀ token ∈ tokens, token.span.start.Exact file text ∧ token.span.stop.Exact file text

/-! ## Tokens laid over a text -/

/-- A token that stands for characters: neither the end of the text nor the mark of a fault, and
written with something. -/
structure Solid (token : Token) : Prop where
  notEnd : token.kind ≠ .eof
  notFault : token.kind ≠ .error
  extent : token.written ≠ []

/-- **Tokens laid over a text** from a position on: blanks before each token, the token over what it
is written with, and the token of the end behind the last blanks. -/
inductive Laid : Position → List Token → List Char → Prop where
  | ending {here : Position} {blank : List Char} (blanks : blank.all isBlank = true) :
      Laid here [ending (here.past blank)] blank
  | token {here : Position} {blank : List Char} {token : Token} {rest : List Token}
      {text : List Char} (blanks : blank.all isBlank = true) (solid : token.Solid)
      (span : token.span = ⟨here.past blank, (here.past blank).past token.written⟩)
      (later : Laid token.span.stop rest text) :
      Laid here (token :: rest) (blank ++ (token.written ++ text))

namespace Laid

/-- Tokens laid behind blanks are laid with the blanks before them. -/
theorem behind {here : Position} {tokens : List Token} {text blank : List Char}
    (laid : Laid (here.past blank) tokens text) (blanks : blank.all isBlank = true) :
    Laid here tokens (blank ++ text) := by
  cases laid with
  | @ending _ more blanksMore =>
    rw [← Position.past_append]
    exact .ending (by simp [List.all_append, blanks, blanksMore])
  | @token _ more token rest text blanksMore solid span later =>
    rw [← List.append_assoc]
    rw [← Position.past_append] at span
    exact .token (by simp [List.all_append, blanks, blanksMore]) solid span later

variable {whole front : List Char} {here : Position} {tokens : List Token} {text : List Char}
  {file : String}

/-- **Where a token stands**: behind a first part of the text, over what it is written with. -/
theorem place (laid : Laid here tokens text) {token : Token} (mem : token ∈ tokens) :
    ∃ front back, text = front ++ (token.written ++ back) ∧
      token.span = ⟨here.past front, (here.past front).past token.written⟩ := by
  induction laid with
  | @ending _ blank =>
    obtain rfl := List.mem_singleton.1 mem
    exact ⟨blank, [], by simp [written, Token.ending], by simp [written, Token.ending]⟩
  | @token here blank first rest text blanks solid span later ih =>
    rcases List.mem_cons.1 mem with rfl | mem
    · exact ⟨blank, text, rfl, span⟩
    · obtain ⟨front, back, same, place⟩ := ih mem
      refine ⟨blank ++ (first.written ++ front), back, by simp [same], ?_⟩
      rw [place, span]
      simp [Position.past_append]

/-- **A token ends no later than the next one starts**, and the first starts no earlier than the
tokens were laid from. -/
theorem ordered (laid : Laid here tokens text) :
    (∀ token ∈ tokens, here.offset ≤ token.span.start.offset) ∧
      tokens.Pairwise fun a b => a.span.stop.offset ≤ b.span.start.offset := by
  induction laid with
  | ending => simp [Token.ending, Position.past]
  | @token here blank first rest text blanks solid span later ih =>
    obtain ⟨after, pairs⟩ := ih
    have start : here.offset ≤ first.span.start.offset := by
      rw [span]
      exact Nat.le_add_right _ _
    have stop : first.span.start.offset ≤ first.span.stop.offset := by
      rw [span]
      exact Nat.le_add_right _ _
    refine ⟨List.forall_mem_cons.2 ⟨start, ?_⟩, List.pairwise_cons.2 ⟨after, pairs⟩⟩
    intro token mem
    exact Nat.le_trans (Nat.le_trans start stop) (after token mem)

/-- **The last token is the end of the text**, and every other takes at least one byte. -/
theorem ended (laid : Laid here tokens text) :
    ∃ front, tokens = front ++ [Token.ending (here.past text)] ∧
      ∀ token ∈ front, token.kind ≠ .eof ∧ token.kind ≠ .error ∧
        token.span.start.offset < token.span.stop.offset := by
  induction laid with
  | ending => exact ⟨[], rfl, by simp⟩
  | @token here blank first rest text blanks solid span later ih =>
    obtain ⟨front, same, each⟩ := ih
    refine ⟨first :: front, ?_, List.forall_mem_cons.2 ⟨⟨solid.notEnd, solid.notFault, ?_⟩, each⟩⟩
    · rw [same, span]
      simp [Position.past_append]
    · rw [span]
      exact Nat.lt_add_of_pos_right (byteLength_pos solid.extent)

/-- **Only blanks are left out** behind the place that the tokens were laid from. -/
theorem blank_gaps (laid : Laid here tokens text) (before : List Char)
    (from_ : here.offset = byteLength before) :
    ∀ gap ∈ gaps (before ++ text) here.offset tokens, gap.all isBlank = true := by
  induction laid generalizing before with
  | @ending here blank blanks =>
    have gap : textBetween (before ++ blank) here.offset (here.past blank).offset = blank := by
      rw [Position.past, from_]
      simpa using textBetween_append before blank []
    simpa [gaps, Token.ending, gap] using blanks
  | @token here blank first rest text blanks solid span later ih =>
    have gap : textBetween (before ++ (blank ++ (first.written ++ text))) here.offset
        first.span.start.offset = blank := by
      rw [span, Position.past, from_]
      exact textBetween_append before blank _
    have behind := ih (before ++ (blank ++ first.written)) (by
      rw [span]
      simp [Position.past, from_, Nat.add_assoc])
    rw [gaps, gap]
    refine List.forall_mem_cons.2 ⟨blanks, ?_⟩
    simpa using behind

/-- **Tokens laid over a whole text cover it.** -/
theorem covers (laid : Laid (.first file) tokens text) : Covers file text tokens where
  ended := by
    have start : (Position.first file).past text =
        ⟨byteLength text, 1 + newlines text, file⟩ := by
      simp [Position.past, Position.first]
    rw [← start]
    exact laid.ended
  ordered := laid.ordered.2
  blanks := laid.blank_gaps [] rfl
  cut := by
    intro token mem
    obtain ⟨front, back, same, place⟩ := laid.place mem
    rw [place, same]
    simpa [Position.past, Position.first] using textBetween_append front token.written back
  exact := by
    intro token mem
    obtain ⟨front, back, same, place⟩ := laid.place mem
    rw [place, same, ← Position.past_append]
    refine ⟨Position.exact_past file front _, ?_⟩
    rw [← List.append_assoc]
    exact Position.exact_past file (front ++ token.written) back

end Laid

/-! ## What one pattern takes -/

/-- The kinds of tokens that are written as their texts. -/
def Kind.isBare : Kind → Bool
  | .string | .char | .comment | .eof | .error => false
  | _ => true

/-- What a token of a bare kind is written with, and that it is a token with an extent. -/
theorem written_of_isBare {kind : Kind} (bare : kind.isBare = true) (text : String) (span : Span) :
    (Token.mk kind text span).written = text.toList ∧ kind ≠ .eof ∧ kind ≠ .error := by
  revert bare
  cases kind <;> simp [Kind.isBare, written]

/-- The kind of a word is bare. -/
theorem isBare_ofWord (text : String) : (Kind.ofWord text).isBare = true :=
  Pattern.forall_ofWord (fun kind => kind.isBare = true) rfl (by decide) text

namespace Pattern

variable {text : List Char} {n : Nat}

/-- A comment takes its two slashes first. -/
theorem take_of_comment (fits : comment.extent? text = some n) :
    text.take n = '/' :: '/' :: (text.take n).drop 2 := by
  have slashes : ∃ rest, text = '/' :: '/' :: rest := by
    generalize shape : comment = pattern at fits
    revert fits
    fun_cases extent? pattern text <;> grind
  obtain ⟨rest, rfl⟩ := slashes
  obtain rfl := Option.some.inj fits
  rfl

/-- A text between quotes takes the quotes around it. -/
theorem take_of_quoted (fits : quoted.extent? text = some n) :
    text.take n = '"' :: ((text.take n).tail.dropLast ++ ['"']) := by
  have opened : ∃ rest, text = '"' :: rest := by
    generalize shape : quoted = pattern at fits
    revert fits
    fun_cases extent? pattern text <;> grind
  obtain ⟨rest, rfl⟩ := opened
  have body := List.takeWhile_append_dropWhile (p := (· != '"')) (l := rest)
  obtain ⟨closed, rfl⟩ : (rest.takeWhile (· != '"')).length < rest.length ∧
      n = (rest.takeWhile (· != '"')).length + 2 := by
    simpa [extent?, eq_comm] using fits
  cases after : rest.dropWhile (· != '"') with
  | nil =>
    rw [after, List.append_nil] at body
    rw [body] at closed
    exact absurd closed (Nat.lt_irrefl _)
  | cons c back =>
    obtain rfl : c = '"' := by
      have stopped := List.head?_dropWhile_not (· != '"') rest
      simpa [after] using stopped
    rw [after] at body
    have taken : rest.take ((rest.takeWhile (· != '"')).length + 1) =
        rest.takeWhile (· != '"') ++ ['"'] := by
      have split := @List.take_length_add_append _ (rest.takeWhile (· != '"')) ('"' :: back) 1
      rwa [body] at split
    rw [List.take_succ_cons, taken]
    simp

/-- A character between quotes takes the quotes around it. -/
theorem take_of_character (fits : character.extent? text = some n) :
    text.take n = '\'' :: ((text.take n).tail.dropLast ++ ['\'']) := by
  change characterExtent? text = some n at fits
  unfold characterExtent? at fits
  split at fits
  · split at fits <;> cases fits
    rfl
  · split at fits <;> cases fits
    rfl
  · cases fits

/-- **A token is written with the characters that its pattern took**, and it is neither the end of
the text nor the mark of a fault. -/
theorem written_of_reading {pattern : Pattern} (mem : pattern ∈ table)
    (fits : pattern.extent? text = some n) {kind : Kind} {found : String}
    (reading : pattern.reading (text.take n) = .token kind found) (span : Span) :
    (Token.mk kind found span).written = text.take n ∧ kind ≠ .eof ∧ kind ≠ .error := by
  cases pattern with
  | word =>
    cases reading
    have bare := written_of_isBare (isBare_ofWord (String.ofList (text.take n)))
      (String.ofList (text.take n)) span
    rwa [String.toList_ofList] at bare
  | number =>
    change numberReading (text.take n) = .token kind found at reading
    unfold numberReading at reading
    split at reading <;> cases reading <;>
      exact ⟨String.toList_ofList, by decide, by decide⟩
  | fixed spelling known =>
    cases reading
    have fixed : ∀ entry ∈ Kind.fixed, entry.2.isBare = true := by decide
    have entry : (found, kind) ∈ Kind.fixed := by simpa [table] using mem
    have begins : found.toList.isPrefixOf text = true ∧ found.length = n := by
      simpa [extent?] using fits
    have taken : text.take n = found.toList := by
      have front := List.prefix_iff_eq_take.1 (List.isPrefixOf_iff_prefix.1 begins.1)
      rw [← begins.2, ← String.length_toList, ← front]
    rw [taken]
    exact written_of_isBare (fixed _ entry) found span
  | comment =>
    cases reading
    refine ⟨?_, by decide, by decide⟩
    rw [take_of_comment fits]
    simp [written]
  | quoted =>
    cases reading
    refine ⟨?_, by decide, by decide⟩
    rw [take_of_quoted fits]
    simp [written, inside]
  | character =>
    cases reading
    refine ⟨?_, by decide, by decide⟩
    rw [take_of_character fits]
    simp [written, inside]
  | blank | openQuote | openCharacter | half => cases reading

/-- Only blanks are passed over. -/
theorem blank_of_reading {pattern : Pattern} (fits : pattern.extent? text = some n)
    (reading : pattern.reading (text.take n) = .skip) : (text.take n).all isBlank = true := by
  cases pattern with
  | blank =>
    have run : run? isBlank text = some n := fits
    rw [take_of_run? run]
    exact List.all_takeWhile
  | number =>
    change numberReading (text.take n) = .skip at reading
    unfold numberReading at reading
    split at reading <;> cases reading
  | _ => cases reading

end Pattern

/-! ## Scanning -/

/-- **Scanning lays the tokens over the text**, by induction on the text. -/
theorem laid_of_scan {here : Position} {text : List Char} {passed : Nat} {tokens : List Token}
    (scanned : scan here text passed = .ok tokens) : Laid here tokens (text.drop passed) := by
  induction text generalizing here passed tokens with
  | nil =>
    cases scanned
    simpa using @Laid.ending here [] rfl
  | cons c rest ih =>
    cases passed with
    | succ passed => exact ih scanned
    | zero =>
      rw [scan] at scanned
      split at scanned
      · cases scanned
      next pattern count first =>
        obtain ⟨mem, extent⟩ := Pattern.extent?_of_first? first
        have some : 0 < count := Pattern.first?_pos first
        have split : (c :: rest).take count ++ rest.drop (count - 1) = c :: rest := by
          obtain ⟨less, rfl⟩ := Nat.exists_eq_add_of_lt some
          simp
        dsimp only at scanned
        split at scanned
        · cases scanned
        next reading =>
          have blanks := Pattern.blank_of_reading extent reading
          have behind := (ih scanned).behind blanks
          rwa [split] at behind
        next kind text reading =>
          obtain ⟨written, notEnd, notFault⟩ :=
            Pattern.written_of_reading mem extent reading
              ⟨here, here.past ((c :: rest).take count)⟩
          cases later : scan (here.past ((c :: rest).take count)) rest (count - 1) with
          | error fault =>
            rw [later] at scanned
            cases scanned
          | ok tokens =>
            rw [later] at scanned
            cases scanned
            have extent : (c :: rest).take count ≠ [] := by
              simp [Nat.ne_of_gt some]
            have laid := @Laid.token here [] _ _ _ rfl ⟨notEnd, notFault, written ▸ extent⟩
              (by rw [written]; rfl) (ih later)
            rwa [written, split] at laid

/-- **The tokens of a text cover it.** -/
theorem covers_of_ofText {file text : String} {tokens : List Token}
    (scanned : ofText file text = .ok tokens) : Covers file text.toList tokens :=
  (laid_of_scan scanned).covers

/-- A text with a newline inside a string, characters of several bytes, and a comment. -/
def spread : String :=
  "\u2003a = \"é\n\" // ü\n'\\n'\n"

/-- The tokens of the text are six, and they cover it. -/
theorem covers_spread : ∃ tokens, ofText "a" spread = .ok tokens ∧ tokens.length = 6 ∧
    Covers "a" spread.toList tokens := by
  have counted : (ofText "a" spread).toOption.map List.length = some 6 := by
    decide +kernel
  cases scanned : ofText "a" spread with
  | error diagnostic =>
    rw [scanned] at counted
    cases counted
  | ok tokens =>
    rw [scanned] at counted
    exact ⟨tokens, rfl, Option.some.inj counted, covers_of_ofText scanned⟩

end Token

end FrontEnd

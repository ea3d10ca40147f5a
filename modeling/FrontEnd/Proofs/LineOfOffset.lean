import FrontEnd.Proofs.FaultPositions
import FrontEnd.Proofs.Rendering
import FrontEnd.Source.Line
import Mathlib.Data.List.DropRight

/-!
# The line of an offset

The line of an offset can be read off the text in front of it. Its number counts the newlines there,
it starts just behind the last of them, and it reaches up to the next newline, which belongs to it, or
up to the end of the text. This is one description for every offset: for one inside a line, on a
newline, inside a character of several bytes, in an empty line, and for the end of the text, whether a
newline stands before it or not.

Texts are taken apart line by line (`lineInduction`): a text has no newline, or a first line stands in
front of a further text. An offset falls into the first line, or it is one of the further text.

**The law** (`lineAt?_of_offset`): a line is found exactly for the offsets that do not lie past the
end, and it is the one described. So the line that is found where a token starts, or a lexical fault
stands, has the number that the position has.
-/

namespace FrontEnd

/-! ## The text before an offset and behind it -/

/-- The part of a text from a byte offset on, with the character that the offset lies in. -/
def textBehind (text : List Char) (offset : Nat) : List Char :=
  (splitBytes offset text).2

/-- **Splitting further on** splits what stands behind the first part. -/
theorem splitBytes_append_add (front back : List Char) (n : Nat) :
    splitBytes (byteLength front + n) (front ++ back) =
      (front ++ (splitBytes n back).1, (splitBytes n back).2) := by
  induction front with
  | nil => simp
  | cons c rest ih =>
    have fits : c.utf8Size ≤ c.utf8Size + byteLength rest + n := by omega
    have left : c.utf8Size + byteLength rest + n - c.utf8Size = byteLength rest + n := by omega
    simp [splitBytes, fits, left, ih]

theorem textBefore_append_add (front back : List Char) (n : Nat) :
    textBefore (front ++ back) (byteLength front + n) = front ++ textBefore back n := by
  rw [textBefore, splitBytes_append_add, textBefore]

theorem textBehind_append_add (front back : List Char) (n : Nat) :
    textBehind (front ++ back) (byteLength front + n) = textBehind back n := by
  rw [textBehind, splitBytes_append_add, textBehind]

@[simp] theorem splitBytes_zero (text : List Char) : splitBytes 0 text = ([], text) := by
  have whole := splitBytes_byteLength [] text
  simpa using whole

@[simp] theorem textBehind_zero (text : List Char) : textBehind text 0 = text := by
  simp [textBehind]

/-- What stands before an offset in the first part of a text does not depend on the rest. -/
theorem textBefore_append_of_le {front : List Char} (back : List Char) {offset : Nat}
    (inside : offset ≤ byteLength front) :
    textBefore (front ++ back) offset = textBefore front offset := by
  induction front generalizing offset with
  | nil =>
    obtain rfl : offset = 0 := by simpa using inside
    simp [textBefore]
  | cons c rest ih =>
    rw [byteLength_cons] at inside
    by_cases fits : c.utf8Size ≤ offset
    · have less : offset - c.utf8Size ≤ byteLength rest := by omega
      have same := ih less
      simp only [textBefore] at same
      simp [textBefore, splitBytes, fits, same]
    · simp [textBefore, splitBytes, fits]

/-- What stands before an offset is a part of the text. -/
theorem mem_of_mem_textBefore {text : List Char} {offset : Nat} {c : Char}
    (mem : c ∈ textBefore text offset) : c ∈ text := by
  rw [← splitBytes_append offset text]
  exact List.mem_append_left _ mem

/-! ## Texts line by line -/

/-- **A text up to its first newline**, which is taken too, or up to its end. -/
def firstLine (text : List Char) : List Char :=
  text.takeWhile (· ≠ '\n') ++ (text.dropWhile (· ≠ '\n')).take 1

/-- **Where the line of an offset starts**: just behind the last newline before the offset, or at the
start of the text. -/
def lineStart (text : List Char) (offset : Nat) : Nat :=
  byteLength ((textBefore text offset).rdropWhile (· ≠ '\n'))

/-- **Induction over a text line by line**: a text without a newline, or a line that a newline ends
and a further text. -/
theorem lineInduction {motive : List Char → Prop} (last : ∀ line, '\n' ∉ line → motive line)
    (further : ∀ line rest, '\n' ∉ line → motive rest → motive (line ++ '\n' :: rest))
    (text : List Char) : motive text := by
  by_cases closed : '\n' ∈ text
  · obtain ⟨line, rest, rfl, first⟩ := List.eq_append_cons_of_mem closed
    have shorter : rest.length < (line ++ '\n' :: rest).length := by
      simp
      omega
    exact further line rest first (lineInduction last further rest)
  · exact last text closed
termination_by text.length

variable {line rest text : List Char} {number offset : Nat}

/-- A text without a newline is its only line. -/
theorem lines_of_notMem (isOpen : '\n' ∉ line) (some : line ≠ []) : lines line = [line] := by
  induction line with
  | nil => exact absurd rfl some
  | cons c rest ih =>
    rw [List.mem_cons, not_or] at isOpen
    have other : c ≠ '\n' := fun same => isOpen.1 same.symm
    rw [lines, if_neg other]
    by_cases empty : rest = []
    · subst empty
      rfl
    · rw [ih isOpen.2 empty]

/-- A newline ends the first line of a text. -/
theorem lines_append_newline (first : '\n' ∉ line) (rest : List Char) :
    lines (line ++ '\n' :: rest) = (line ++ ['\n']) :: lines rest := by
  induction line with
  | nil => simp [lines]
  | cons c line ih =>
    rw [List.mem_cons, not_or] at first
    have other : c ≠ '\n' := fun same => first.1 same.symm
    rw [List.cons_append, lines, if_neg other, ih first.2]
    rfl

/-- The first line goes on behind a part of it that has no newline. -/
theorem firstLine_append (isOpen : '\n' ∉ line) (text : List Char) :
    firstLine (line ++ text) = line ++ firstLine text := by
  have others : ∀ c ∈ line, decide (c ≠ '\n') = true := by
    intro c mem
    exact decide_eq_true fun same => isOpen (same ▸ mem)
  rw [firstLine, List.takeWhile_append_of_pos others, List.dropWhile_append_of_pos others,
    List.append_assoc, firstLine]

theorem firstLine_of_notMem (isOpen : '\n' ∉ line) : firstLine line = line := by
  simpa [firstLine] using firstLine_append isOpen []

theorem firstLine_append_newline (first : '\n' ∉ line) (rest : List Char) :
    firstLine (line ++ '\n' :: rest) = line ++ ['\n'] := by
  rw [firstLine_append first]
  simp [firstLine]

/-! ## Where lines start -/

/-- In front of the first newline the line starts with the text. -/
theorem lineStart_of_notMem (isOpen : '\n' ∉ textBefore text offset) : lineStart text offset = 0 := by
  have nothing : (textBefore text offset).rdropWhile (· ≠ '\n') = [] := by
    rw [List.rdropWhile_eq_nil_iff]
    intro c mem
    exact decide_eq_true fun same => isOpen (same ▸ mem)
  rw [lineStart, nothing, byteLength_nil]

/-- Behind a newline the line starts where it does in the further text. -/
theorem lineStart_append_newline (line rest : List Char) (offset : Nat) :
    lineStart ((line ++ ['\n']) ++ rest) (byteLength (line ++ ['\n']) + offset) =
      byteLength (line ++ ['\n']) + lineStart rest offset := by
  have kept : ((line ++ ['\n']) ++ textBefore rest offset).rdropWhile (· ≠ '\n') =
      (line ++ ['\n']) ++ (textBefore rest offset).rdropWhile (· ≠ '\n') := by
    simp only [List.rdropWhile, List.reverse_append, List.dropWhile_append]
    by_cases none : ((textBefore rest offset).reverse.dropWhile (· ≠ '\n')).isEmpty
    · have isOpen : ∀ c ∈ textBefore rest offset, ¬ c = '\n' := by
        simpa [List.isEmpty_iff] using none
      rw [if_pos none]
      simpa using isOpen
    · rw [if_neg none]
      simp
  rw [lineStart, textBefore_append_add, kept, byteLength_append, lineStart]

/-! ## The line that is found -/

/-- **An offset in the first line of a text** is found there. -/
theorem lineAmong_of_first (number : Nat) (others : List (List Char))
    (first : '\n' ∉ textBefore text offset)
    (inside : inLine (firstLine text) offset = true) :
    lineAmong number offset (firstLine text :: others) =
      some ⟨number + newlines (textBefore text offset),
        firstLine (textBehind text (lineStart text offset)), offset - lineStart text offset⟩ := by
  have none : newlines (textBefore text offset) = 0 := List.count_eq_zero.2 first
  rw [lineAmong, if_pos inside, none, lineStart_of_notMem first, textBehind_zero, Nat.add_zero,
    Nat.sub_zero]

/-- **The line that is found** among those of a text is the line of the offset. The induction is on
the text line by line: the offset falls into the first line, or it is one of the further text. -/
theorem lineAmong_lines (inside : offset ≤ byteLength text) :
    lineAmong number offset (lines text) =
      some ⟨number + newlines (textBefore text offset),
        firstLine (textBehind text (lineStart text offset)), offset - lineStart text offset⟩ := by
  induction text using lineInduction generalizing number offset with
  | last line isOpen =>
    have before : '\n' ∉ textBefore line offset := fun mem => isOpen (mem_of_mem_textBefore mem)
    by_cases empty : line = []
    · subst empty
      obtain rfl : offset = 0 := by simpa using inside
      rfl
    · have notClosed : line.getLast? ≠ some '\n' := fun isLast =>
        isOpen (List.mem_of_getLast? isLast)
      have found : inLine (firstLine line) offset = true := by
        rw [firstLine_of_notMem isOpen]
        by_cases atEnd : offset = byteLength line
        · simp [inLine, atEnd, notClosed]
        · have less : offset < byteLength line := by omega
          simp [inLine, less]
      rw [lines_of_notMem isOpen empty]
      have atFirst := lineAmong_of_first number [] before found
      rwa [firstLine_of_notMem isOpen] at atFirst
  | further line rest first ih =>
    have split : line ++ '\n' :: rest = (line ++ ['\n']) ++ rest := by simp
    rw [lines_append_newline first]
    by_cases less : offset < byteLength (line ++ ['\n'])
    · have onLine : offset ≤ byteLength line := by
        rw [byteLength_append] at less
        exact Nat.le_of_lt_succ less
      have before : '\n' ∉ textBefore (line ++ '\n' :: rest) offset := by
        rw [textBefore_append_of_le _ onLine]
        exact fun mem => first (mem_of_mem_textBefore mem)
      have found : inLine (firstLine (line ++ '\n' :: rest)) offset = true := by
        rw [firstLine_append_newline first, inLine, decide_eq_true less, Bool.true_or]
      have atFirst := lineAmong_of_first number (lines rest) before found
      rwa [firstLine_append_newline first] at atFirst
    · obtain ⟨offset, rfl⟩ := Nat.exists_eq_add_of_le (Nat.le_of_not_lt less)
      have notHere : ¬ inLine (line ++ ['\n']) (byteLength (line ++ ['\n']) + offset) = true := by
        simp [inLine]
      have insideRest : offset ≤ byteLength rest := by
        rw [split, byteLength_append (line ++ ['\n']) rest] at inside
        omega
      have counted : newlines (line ++ ['\n'] ++ textBefore rest offset) =
          1 + newlines (textBefore rest offset) := by
        have none : newlines line = 0 := List.count_eq_zero.2 first
        rw [newlines_append, newlines_append, none]
        rfl
      rw [lineAmong, if_neg notHere, Nat.add_sub_cancel_left, ih insideRest, split,
        lineStart_append_newline, textBefore_append_add, textBehind_append_add, counted,
        Nat.add_sub_add_left, Nat.add_assoc]

/-- An offset has a line unless it lies past the end of the text. -/
theorem lineAt?_eq_none_iff : lineAt? text offset = none ↔ byteLength text < offset := by
  rw [lineAt?, lineAmong_eq_none_iff, flatten_lines]

/-- **The line of an offset**: its number counts the newlines before the offset, and it reaches from
the last of them up to the next one or to the end. -/
theorem lineAt?_eq (inside : offset ≤ byteLength text) :
    lineAt? text offset = some ⟨1 + newlines (textBefore text offset),
      firstLine (textBehind text (lineStart text offset)), offset - lineStart text offset⟩ :=
  lineAmong_lines inside

/-- **The line that is found at a position of the text** has the number that the position has. -/
theorem Position.Exact.number_lineAt? {file : String} {here : Position}
    (exact : here.Exact file text) : (lineAt? text here.offset).map Line.number = some here.line := by
  rw [lineAt?_eq exact.offset_le, Option.map_some, exact.line]

/-- **The line of every offset.** A text has a line for each offset that does not lie past its end,
and for no other. The number of the line counts the newlines before the offset; it starts just behind
the last of these, or at the start of the text, which the column is counted from; and its text reaches
from there up to and with the next newline, or up to the end. So the line found where a token starts,
or a lexical fault stands, has the number of that position. -/
theorem lineAt?_of_offset :
    (∀ (text : List Char) (offset : Nat),
      (lineAt? text offset = none ↔ byteLength text < offset) ∧
      (offset ≤ byteLength text →
        lineAt? text offset = some ⟨1 + newlines (textBefore text offset),
          firstLine (textBehind text (lineStart text offset)), offset - lineStart text offset⟩)) ∧
    (∀ (file source : String) (tokens : List Token), Token.ofText file source = .ok tokens →
      ∀ token ∈ tokens, (lineAt? source.toList token.span.start.offset).map Line.number =
        some token.span.start.line) ∧
    (∀ (file source : String) (d : Diagnostic), Token.ofText file source = .error d →
      (lineAt? source.toList d.position.offset).map Line.number = some d.position.line) := by
  refine ⟨fun text offset => ⟨lineAt?_eq_none_iff, lineAt?_eq⟩, ?tokens, ?faults⟩
  case tokens =>
    intro file source tokens scanned token mem
    have covers := (Token.laid_of_scan scanned).covers
    exact (covers.exact token mem).1.number_lineAt?
  case faults =>
    intro file source d failed
    exact (Token.exact_of_ofText failed).number_lineAt?

/-- An offset inside a character of two bytes, behind an empty line; the tokens behind a string that
holds a newline; and a character of no token on a second line. -/
theorem lineAt?_of_offset_accented :
    (4 ≤ byteLength "a\n\né".toList ∧ lineAt? "a\n\né".toList 4 = some ⟨3, ['é'], 1⟩) ∧
      (∃ tokens, Token.ofText "a" Token.spread = .ok tokens ∧ tokens.length = 6 ∧
        ∀ token ∈ tokens, (lineAt? Token.spread.toList token.span.start.offset).map Line.number =
          some token.span.start.line) ∧
      ∃ d, Token.ofText "a" "\né #" = .error d ∧
        (lineAt? "\né #".toList d.position.offset).map Line.number = some d.position.line := by
  refine ⟨⟨by decide, ?_⟩, ?tokens, ?fault⟩
  · rw [(lineAt?_of_offset.1 _ 4).2 (by decide)]
    decide
  case tokens =>
    have counted : (Token.ofText "a" Token.spread).toOption.map List.length = some 6 := by
      decide +kernel
    cases scanned : Token.ofText "a" Token.spread with
    | error d =>
      rw [scanned] at counted
      cases counted
    | ok tokens =>
      rw [scanned] at counted
      exact ⟨tokens, rfl, Option.some.inj counted, lineAt?_of_offset.2.1 _ _ tokens scanned⟩
  case fault =>
    have refused : (Token.ofText "a" "\né #").toOption.isNone = true := by decide +kernel
    cases scanned : Token.ofText "a" "\né #" with
    | ok tokens =>
      rw [scanned] at refused
      cases refused
    | error d => exact ⟨d, rfl, lineAt?_of_offset.2.2 _ _ d scanned⟩

end FrontEnd

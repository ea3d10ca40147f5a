import FrontEnd.Diagnostic.Render
import FrontEnd.Proofs.Token.Slicing

/-!
# Rendering by offsets

The line of an offset can be searched by the offsets at which the lines of a text start and stop. A
column is then the offset of a position less that of its line, the line behind the last one is
counted one back, and the text of a line without its indentation is a slice of it. A difference may
fall below zero and a slice may not be there.

**The law** (`Diagnostic.render?_eq`): every diagnostic is rendered so for every source, wherever it
points, and as it is without offsets.
-/

namespace FrontEnd

/-- The difference of two numbers, if the second is not the larger. -/
def difference? (n m : Nat) : Option Nat :=
  if m ≤ n then some (n - m) else none

/-- **Searches a line by its offset** among the lines from a start on, behind a line if there is one.
Past the last line the offset is that of the end, which stands in the last line if it is open. -/
def seekLine? (offset start number : Nat) (last : Option (List Char)) :
    List (List Char) → Option Line
  | [] =>
    match last with
    | none => some ⟨number, [], 0⟩
    | some line =>
      if line.getLast? = some '\n' then some ⟨number, [], 0⟩
      else (difference? number 1).map fun before => ⟨before, line, byteLength line⟩
  | line :: rest =>
    if start ≤ offset ∧ offset < start + byteLength line then
      (difference? offset start).map fun column => ⟨number, line, column⟩
    else seekLine? offset (start + byteLength line) (number + 1) (some line) rest

/-- **The line of a byte offset**, if the offset does not lie past the end of the text. -/
def locateLine? (text : List Char) (offset : Nat) : Option (Option Line) :=
  if byteLength text < offset then some none
  else (seekLine? offset 0 1 none (lines text)).map some

/-- A line with its number and a caret, its text being a slice behind the indentation. -/
def Line.render? (line : Line) : Option String := do
  let number := line.number.repr
  let margin := padded ' ' (number.length + 2) "|"
  let indentation := (line.text.takeWhile isIndent).length
  let shown ← sliceFrom? line.text indentation
  return margin ++ "\n" ++
    number ++ " | " ++ String.ofList (trimRight shown) ++ "\n" ++
    margin ++ " " ++ padded '-' (line.column - indentation + 1) "^" ++ "\n"

/-- **A diagnostic as it is shown**, by offsets and slices. -/
def Diagnostic.render? (d : Diagnostic) (source : String) : Option String := do
  let located ← locateLine? source.toList d.position.offset
  let behind ← located.elim (some (d.message ++ "\n")) Line.render?
  return d.headline ++ "\n" ++ "-> " ++ d.position.file ++ "\n" ++ behind

/-! ## The lines of a text -/

/-- **Only the last line of a text may be open.** -/
theorem closed_of_mem_lines (text : List Char) :
    ∀ line ∈ (lines text).dropLast, line.getLast? = some '\n' := by
  induction text with
  | nil => simp [lines]
  | cons c cs ih =>
    unfold lines
    split
    next isNewline =>
      subst isNewline
      cases behind : lines cs with
      | nil => simp
      | cons line rest =>
        rw [behind] at ih
        rw [List.dropLast_cons_of_ne_nil (List.cons_ne_nil _ _), List.forall_mem_cons]
        exact ⟨rfl, ih⟩
    next =>
      cases behind : lines cs with
      | nil => simp
      | cons line rest =>
        rw [behind] at ih
        cases rest with
        | nil => simp
        | cons next rest =>
          rw [List.dropLast_cons_of_ne_nil (List.cons_ne_nil _ _), List.forall_mem_cons] at ih ⊢
          refine ⟨?_, ih.2⟩
          rw [List.getLast?_cons, ih.1, Option.getD_some]

/-- An offset has a line unless it lies past the end. -/
theorem lineAmong_eq_none_iff {number offset : Nat} {rest : List (List Char)} :
    lineAmong number offset rest = none ↔ byteLength rest.flatten < offset := by
  induction rest generalizing number offset with
  | nil =>
    rw [lineAmong, List.flatten_nil, byteLength_nil]
    by_cases atEnd : offset = 0
    · simp [atEnd]
    · rw [if_neg atEnd]
      simp only [true_iff]
      omega
  | cons line rest ih =>
    rw [lineAmong, List.flatten_cons, byteLength_append]
    by_cases here : inLine line offset
    · have within : offset ≤ byteLength line := by
        simp only [inLine, Bool.or_eq_true, Bool.and_eq_true, decide_eq_true_eq, beq_iff_eq] at here
        omega
      rw [if_pos here]
      simp only [reduceCtorEq, false_iff]
      omega
    · have behind : byteLength line ≤ offset := by
        simp only [inLine, Bool.or_eq_true, decide_eq_true_eq] at here
        omega
      rw [if_neg here, ih]
      omega

/-- **Searching by offsets finds the line that is found by what is left of the offset.** -/
theorem seekLine?_eq {offset start number : Nat} {last : Option (List Char)} {found : Line}
    {rest : List (List Char)} (closed : ∀ line ∈ rest.dropLast, line.getLast? = some '\n')
    (behind : rest = [] → ∀ line ∈ last, line.getLast? = some '\n') (reached : start ≤ offset)
    (line : lineAmong number (offset - start) rest = some found) :
    seekLine? offset start number last rest = some found := by
  induction rest generalizing start number last with
  | nil =>
    rw [lineAmong] at line
    obtain ⟨-, same⟩ := Option.ite_none_right_eq_some.1 line
    cases same
    cases last with
    | none => rfl
    | some last => exact if_pos (behind rfl last rfl)
  | cons first rest ih =>
    rw [lineAmong] at line
    rw [seekLine?]
    by_cases within : offset - start < byteLength first
    · have here : inLine first (offset - start) := by simp [inLine, within]
      rw [if_pos here] at line
      rw [if_pos ⟨reached, by omega⟩, difference?, if_pos reached]
      exact line
    · have isOpen : inLine first (offset - start) ↔
          offset - start = byteLength first ∧ first.getLast? ≠ some '\n' := by
        simp [inLine, within]
      have closedToo : ∀ line ∈ rest.dropLast, line.getLast? = some '\n' := by
        intro other mem
        cases rest with
        | nil => cases mem
        | cons next rest => exact closed other (List.mem_cons_of_mem _ mem)
      rw [if_neg fun h => within (by omega)]
      by_cases here : inLine first (offset - start)
      · obtain ⟨atEnd, notClosed⟩ := isOpen.1 here
        rw [if_pos here] at line
        cases rest with
        | nil =>
          dsimp only [seekLine?]
          rw [if_neg notClosed, difference?, if_pos (Nat.le_add_left 1 number), Option.map_some,
            Nat.add_sub_cancel, ← atEnd, line]
        | cons next rest => exact absurd (closed first List.mem_cons_self) notClosed
      · rw [if_neg here, Nat.sub_sub] at line
        refine ih closedToo ?_ (by omega) line
        rintro rfl last isFirst
        cases isFirst
        have atEnd := (Option.ite_none_right_eq_some.1 line).1
        apply Decidable.byContradiction
        intro notClosed
        exact here (isOpen.2 ⟨by omega, notClosed⟩)

/-- The line of an offset is located by offsets. -/
theorem locateLine?_eq (text : List Char) (offset : Nat) :
    locateLine? text offset = some (lineAt? text offset) := by
  have whole : byteLength (lines text).flatten = byteLength text := by rw [flatten_lines]
  unfold locateLine? lineAt?
  by_cases past : byteLength text < offset
  · rw [if_pos past, lineAmong_eq_none_iff.2 (whole ▸ past)]
  · rw [if_neg past]
    cases line : lineAmong 1 offset (lines text) with
    | none =>
      have past' := lineAmong_eq_none_iff.1 line
      rw [whole] at past'
      exact absurd past' past
    | some found =>
      have nothing : lines text = [] → ∀ line ∈ (none : Option (List Char)),
          line.getLast? = some '\n' := by
        rintro - _ ⟨⟩
      rw [seekLine?_eq (closed_of_mem_lines text) nothing (Nat.zero_le offset) line,
        Option.map_some]

/-! ## The text of a line -/

/-- An indentation takes as many bytes as characters. -/
theorem byteLength_indentation (text : List Char) :
    byteLength (text.takeWhile isIndent) = (text.takeWhile isIndent).length := by
  induction text with
  | nil => rfl
  | cons c rest ih =>
    by_cases indents : isIndent c
    · have single : c.utf8Size = 1 := by
        simp only [isIndent, Bool.or_eq_true, beq_iff_eq] at indents
        rcases indents with rfl | rfl <;> rfl
      rw [List.takeWhile_cons_of_pos indents, byteLength_cons, ih, single, List.length_cons,
        Nat.add_comm]
    · rw [List.takeWhile_cons_of_neg indents]
      rfl

theorem Line.render?_eq (line : Line) : line.render? = some line.render := by
  have shown : sliceFrom? line.text (line.text.takeWhile isIndent).length =
      some (line.text.dropWhile isIndent) := by
    have whole := sliceFrom?_append (line.text.takeWhile isIndent) (line.text.dropWhile isIndent)
    rwa [List.takeWhile_append_dropWhile, byteLength_indentation] at whole
  rw [render?, shown]
  rfl

/-- **Every diagnostic is rendered for every source**: no difference falls below zero and no slice is
missing, wherever the diagnostic points. -/
theorem Diagnostic.render?_eq (d : Diagnostic) (source : String) :
    d.render? source = some (d.render source) := by
  rw [render?, locateLine?_eq, Option.bind_eq_bind, Option.bind_some, render]
  cases lineAt? source.toList d.position.offset with
  | none => rfl
  | some line =>
    rw [Option.elim_some, line.render?_eq]
    rfl

end FrontEnd

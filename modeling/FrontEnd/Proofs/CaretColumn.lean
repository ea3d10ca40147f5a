import FrontEnd.Compilation
import FrontEnd.Diagnostic.Render
import FrontEnd.Proofs.Action
import FrontEnd.Proofs.LineOfOffset

/-!
# Where the caret stands

A diagnostic that points at a character which is not blank is shown with the line of the character,
its number in front of it, and a caret below. What is printed of the line in front of the character
is the line up to there without its indentation (`shownBefore`).

The caret line is as wide as that in bytes. So the caret stands under the character where each
character shown in front of it takes one byte, and for each further byte one column too far to the
right.

**The law** (`Diagnostic.render_caret`): so it is for every source, every diagnostic, and every
character of the source at which it points that is not blank.
-/

namespace FrontEnd

variable {front back : List Char} {c : Char}

/-! ## Texts with a character that stops a search -/

section Stop

variable {p : Char → Bool}

/-- What is dropped from the start of a text ends in front of a character that is not dropped. -/
theorem dropWhile_append_stop (stop : p c = false) (front back : List Char) :
    (front ++ c :: back).dropWhile p = front.dropWhile p ++ c :: back := by
  induction front with
  | nil => simp [stop]
  | cons x front ih =>
    by_cases dropped : p x
    · simpa [dropped] using ih
    · simp [dropped]

/-- What is taken from the start of a text ends in front of a character that is not taken. -/
theorem takeWhile_append_stop (stop : p c = false) (front back : List Char) :
    (front ++ c :: back).takeWhile p = front.takeWhile p := by
  induction front with
  | nil => simp [stop]
  | cons x front ih =>
    by_cases taken : p x
    · simpa [taken] using ih
    · simp [taken]

end Stop

/-- Blanks are trimmed from the end of a text only behind a character that is not blank. -/
theorem trimRight_append_stop (seen : isBlank c = false) (front back : List Char) :
    trimRight (front ++ c :: back) = front ++ c :: trimRight back := by
  have turned : (front ++ c :: back).reverse = back.reverse ++ c :: front.reverse := by simp
  rw [trimRight, turned, dropWhile_append_stop seen, trimRight]
  simp

/-- What is trimmed is a part of the text. -/
theorem mem_of_mem_trimRight {text : List Char} (mem : c ∈ trimRight text) : c ∈ text := by
  rw [trimRight, List.mem_reverse] at mem
  exact List.mem_reverse.1 ((List.dropWhile_sublist _).mem mem)

theorem ne_newline_of_seen (seen : isBlank c = false) : c ≠ '\n' := by
  rintro rfl
  cases seen

theorem not_isIndent_of_seen (seen : isBlank c = false) : isIndent c = false := by
  by_cases indents : isIndent c
  · have blank : c = ' ' ∨ c = '\t' := by
      simpa only [isIndent, Bool.or_eq_true, beq_iff_eq] using indents
    rcases blank with rfl | rfl <;> cases seen
  · simpa using indents

/-! ## The line of a character -/

/-- **What a line shows in front of a character**: the line up to there, without its indentation. -/
def shownBefore (front : List Char) : List Char :=
  (front.rtakeWhile (· ≠ '\n')).dropWhile isIndent

theorem notMem_rtakeWhile (front : List Char) : '\n' ∉ front.rtakeWhile (· ≠ '\n') := by
  intro mem
  have other := List.mem_rtakeWhile_imp mem
  simp at other

theorem notMem_shownBefore (front : List Char) : '\n' ∉ shownBefore front := fun mem =>
  notMem_rtakeWhile front ((List.dropWhile_sublist _).mem mem)

/-- Up to its first newline a text has none, and the newline is trimmed. -/
theorem notMem_trimRight_firstLine (text : List Char) : '\n' ∉ trimRight (firstLine text) := by
  induction text using lineInduction with
  | last line isOpen =>
    rw [firstLine_of_notMem isOpen]
    exact fun mem => isOpen (mem_of_mem_trimRight mem)
  | further line rest first =>
    have trimmed : trimRight (line ++ ['\n']) = trimRight line := by
      have blank : isBlank '\n' = true := by decide
      simp [trimRight, blank]
    rw [firstLine_append_newline first, trimmed]
    exact fun mem => first (mem_of_mem_trimRight mem)

/-- **The line of a character** that is no newline: its number counts the newlines in front of the
character, and the column counts the bytes of the line up to there. -/
theorem lineAt?_append (other : c ≠ '\n') (front back : List Char) :
    lineAt? (front ++ c :: back) (byteLength front) =
      some ⟨1 + newlines front, front.rtakeWhile (· ≠ '\n') ++ c :: firstLine back,
        byteLength (front.rtakeWhile (· ≠ '\n'))⟩ := by
  have inside : byteLength front ≤ byteLength (front ++ c :: back) := by
    rw [byteLength_append]
    omega
  have before : textBefore (front ++ c :: back) (byteLength front) = front := by
    have whole := textBefore_append_add front (c :: back) 0
    simpa [textBefore] using whole
  have isOpen := notMem_rtakeWhile front
  have cut : front.rdropWhile (· ≠ '\n') ++ front.rtakeWhile (· ≠ '\n') = front :=
    List.rdropWhile_append_rtakeWhile
  rw [lineAt?_eq inside, lineStart, before]
  generalize front.rdropWhile (· ≠ '\n') = start at cut ⊢
  generalize front.rtakeWhile (· ≠ '\n') = inFront at cut isOpen ⊢
  subst cut
  have behind : textBehind (start ++ inFront ++ c :: back) (byteLength start) =
      inFront ++ c :: back := by
    have rest := textBehind_append_add start (inFront ++ c :: back) 0
    simpa using rest
  have goesOn : firstLine (c :: back) = c :: firstLine back := by simp [firstLine, other]
  rw [behind, firstLine_append isOpen, goesOn, byteLength_append, Nat.add_sub_cancel_left]

/-! ## The rendered line -/

/-- **A line is shown** up to where its column is with the width of a byte for each column. -/
theorem Line.toList_render (number : Nat) (seen : isBlank c = false) (front behind : List Char) :
    (Line.render ⟨number, front ++ c :: behind, byteLength front⟩).toList =
      List.replicate (number.repr.length + 1) ' ' ++ ['|', '\n'] ++
        (number.repr.toList ++ [' ', '|', ' '] ++ front.dropWhile isIndent ++
          c :: trimRight behind) ++
        '\n' :: (List.replicate (number.repr.length + 1) ' ' ++ ['|', ' '] ++
          List.replicate (byteLength (front.dropWhile isIndent)) '-' ++ ['^', '\n']) := by
  have notIndent := not_isIndent_of_seen seen
  have caret : byteLength front - (front.takeWhile isIndent).length =
      byteLength (front.dropWhile isIndent) := by
    have whole := byteLength_append (front.takeWhile isIndent) (front.dropWhile isIndent)
    rw [List.takeWhile_append_dropWhile, byteLength_indentation] at whole
    omega
  have margin : number.repr.length + 2 - "|".length = number.repr.length + 1 := rfl
  have rule (n : Nat) : n + 1 - "^".length = n := rfl
  simp [Line.render, Line.caret, padded, takeWhile_append_stop notIndent,
    dropWhile_append_stop notIndent, trimRight_append_stop seen, caret, margin, rule]

/-- A text takes at least a byte for each character, and no more exactly when each takes one. -/
theorem length_le_byteLength (text : List Char) : text.length ≤ byteLength text ∧
    (byteLength text = text.length ↔ ∀ x ∈ text, x.utf8Size = 1) := by
  induction text with
  | nil => simp
  | cons x rest ih =>
    have some := x.utf8Size_pos
    rw [byteLength_cons, List.length_cons, List.forall_mem_cons, ← ih.2]
    omega

/-- **The caret of a diagnostic** that points at a character which is not blank. The rendering has a
source line, with the number of the line and what it shows in front of the character, and a caret
line below it. The caret stands as many columns too far to the right as the characters shown in front
take further bytes: it stands under the character exactly when each of them takes one byte. -/
theorem Diagnostic.render_caret {d : Diagnostic} {source : String}
    (split : source.toList = front ++ c :: back) (seen : isBlank c = false)
    (place : d.position.offset = byteLength front) :
    ∃ head label behind rule : List Char,
      (d.render source).toList =
        head ++ (label ++ shownBefore front ++ c :: behind) ++ '\n' :: (rule ++ ['^', '\n']) ∧
      head.getLast? = some '\n' ∧ label = ((1 + newlines front).repr ++ " | ").toList ∧
      '\n' ∉ label ++ shownBefore front ++ c :: behind ∧ '\n' ∉ rule ∧ '^' ∉ rule ∧
      rule.length = (label ++ shownBefore front).length +
        (byteLength (shownBefore front) - (shownBefore front).length) ∧
      (rule.length = (label ++ shownBefore front).length ↔
        ∀ x ∈ shownBefore front, x.utf8Size = 1) := by
  generalize isNumber : 1 + newlines front = number
  let above := d.headline ++ "\n" ++ "-> " ++ d.position.file ++ "\n"
  have shown : (d.render source).toList = above.toList ++
      (Line.render ⟨number, front.rtakeWhile (· ≠ '\n') ++ c :: firstLine back,
        byteLength (front.rtakeWhile (· ≠ '\n'))⟩).toList := by
    rw [render, split, place, lineAt?_append (ne_newline_of_seen seen), isNumber,
      String.toList_append]
  rw [Line.toList_render number seen, ← shownBefore] at shown
  have width : (number.repr ++ " | ").toList.length = number.repr.length + 3 := by
    rw [String.length_toList, String.length_append]
    rfl
  obtain ⟨least, single⟩ := length_le_byteLength (shownBefore front)
  refine ⟨above.toList ++ (List.replicate (number.repr.length + 1) ' ' ++ ['|', '\n']),
    (number.repr ++ " | ").toList, trimRight (firstLine back),
    List.replicate (number.repr.length + 1) ' ' ++ ['|', ' '] ++
      List.replicate (byteLength (shownBefore front)) '-', ?shown, ?head, rfl, ?line, ?newline,
    ?mark, ?width, ?under⟩
  case shown =>
    rw [shown]
    simp
  case head => rw [← List.append_assoc, List.getLast?_append_cons]; rfl
  case line =>
    have digits : '\n' ∉ Nat.toDigits 10 number := by
      intro mem
      have isDigit := Nat.isDigit_of_mem_toDigits (by decide) (Nat.le_refl _) mem
      cases isDigit
    have before := notMem_shownBefore front
    have behind := notMem_trimRight_firstLine back
    simp [digits, before, (ne_newline_of_seen seen).symm, behind]
  case newline => simp
  case mark => simp
  case width =>
    simp only [List.length_append, width, List.length_replicate, List.length_cons, List.length_nil]
    omega
  case under =>
    rw [← single]
    simp only [List.length_append, width, List.length_replicate, List.length_cons, List.length_nil]
    omega

/-- What stands in front of a name that is not declared, with a character of two bytes. -/
def accentedFront : String :=
  "fn f(): void \x7b string s = \"é\"; "

/-- A source with a name that is not declared behind a character of two bytes. -/
def accented : String :=
  accentedFront ++ "x; \x7d"

/-- The source is refused at the name, and the caret stands one column too far to the right. -/
theorem Diagnostic.render_caret_accented :
    ∃ d, compile .standard none accented = .error (.fault d) ∧
      ∃ head label behind rule : List Char,
        (d.render accented).toList = head ++ (label ++ shownBefore accentedFront.toList ++
          'x' :: behind) ++ '\n' :: (rule ++ ['^', '\n']) ∧
        rule.length = (label ++ shownBefore accentedFront.toList).length + 1 := by
  have found : (faultOf? (compile .standard none accented)).any (fun d =>
      decide (d.position.offset = byteLength accentedFront.toList)) = true := by
    decide +kernel
  obtain ⟨d, failed, place⟩ := exists_fault_of_any found
  have split : accented.toList = accentedFront.toList ++ 'x' :: "; \x7d".toList := by decide
  obtain ⟨head, label, behind, rule, shown, -, -, -, -, -, width, -⟩ :=
    Diagnostic.render_caret split (by decide) (of_decide_eq_true place)
  refine ⟨d, failed, head, label, behind, rule, shown, ?_⟩
  have further : byteLength (shownBefore accentedFront.toList) -
      (shownBefore accentedFront.toList).length = 1 := by decide
  rw [width, further]

/-- **A caret that stands under another character.** The name that the source is refused for is the
only `x` of the source line, and the caret is the only one of the line below; they stand in different
columns. -/
theorem Diagnostic.render_accented :
    ∃ d, compile .standard none accented = .error (.fault d) ∧
      accented.toList = accentedFront.toList ++ 'x' :: "; \x7d".toList ∧ isBlank 'x' = false ∧
      d.position.offset = byteLength accentedFront.toList ∧
      ∃ line below : String,
        d.render accented = "Error: NameNotDeclared (Declare `x` before using it)\n-> shell\n" ++
          "  |\n" ++ line ++ "\n" ++ below ++ "\n" ∧
        line = "1 | " ++ accented ∧ below.toList.idxOf '^' = 36 ∧ line.toList.idxOf 'x' = 35 ∧
        below.toList.count '^' = 1 ∧ line.toList.count 'x' = 1 := by
  have found : (faultOf? (compile .standard none accented)).any (fun d =>
      decide (d = ⟨.nameNotDeclared "x", ⟨32, 1, "shell"⟩⟩)) = true := by
    decide +kernel
  obtain ⟨d, failed, same⟩ := exists_fault_of_any found
  obtain rfl := of_decide_eq_true same
  refine ⟨_, failed, by decide, by decide, by decide, "1 | " ++ accented,
    "  | " ++ String.ofList (List.replicate 32 '-') ++ "^", ?_⟩
  decide +kernel

end FrontEnd

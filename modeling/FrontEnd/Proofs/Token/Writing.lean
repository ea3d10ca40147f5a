import FrontEnd.Proofs.Token.Rereading
import FrontEnd.Proofs.Token.Scanned
import Mathlib.Data.List.Basic

/-!
# Texts that write lexemes side by side

A text on one line is read as lexemes one behind the other, without blanks where none are needed: a
word ends where no letter follows it, and a mark ends where no equals sign follows it, which would
make another mark of both. What such a text is read as does not depend on where it stands
(`Lexeme.ReadAs`). A text writes lexemes when it is read as them in front of whatever is apart from
it (`Lexeme.Writes`), and this passes from the parts of a list to the list.

**The law** (`Lexeme.Writes.joined`): texts with a separator between them write their lexemes with
a mark between them.
-/

namespace FrontEnd

open Token

namespace Lexeme

open Pattern

/-! ## Reading on -/

/-- **A text is read as lexemes**, wherever it stands. -/
def ReadAs (text : List Char) (word : List Lexeme) : Prop :=
  ∀ here, ∃ tokens, scan here text 0 = .ok tokens ∧ tokens.map Token.lexeme = word

variable {text back : List Char} {word rest : List Lexeme}

theorem readAs_nil : ReadAs [] [ending] :=
  fun here => ⟨[Token.ending here], rfl, rfl⟩

/-- **What a pattern takes is read in front of the rest.** -/
theorem ReadAs.behind {pattern : Pattern} {lexeme : Lexeme}
    (fits : first? (text ++ back) = some (pattern, text.length))
    (reading : pattern.reading text = .token lexeme.1 lexeme.2) (later : ReadAs back rest) :
    ReadAs (text ++ back) (lexeme :: rest) := by
  intro here
  obtain ⟨tokens, scanned, rfl⟩ := later (here.past text)
  refine ⟨⟨lexeme.1, lexeme.2, ⟨here, here.past text⟩⟩ :: tokens, ?_, rfl⟩
  rw [scan_first fits, List.take_left, List.drop_left, reading, scanned]
  rfl

/-- Blanks are passed over. -/
theorem ReadAs.blank (blanks : text.all isBlank = true) (later : ReadAs back rest) :
    ReadAs (text ++ back) rest := by
  intro here
  rw [scan_blank blanks]
  exact later _

/-- **A word is read** where no letter follows. -/
theorem ReadAs.identifier {text : String} (isWord : IsIdentifier text)
    (stops : ∀ c ∈ back.head?, isWordChar c = false) (later : ReadAs back rest) :
    ReadAs (text.toList ++ back) (named text :: rest) := by
  refine @ReadAs.behind _ _ _ Pattern.word (named text) ?_ ?_ later
  · exact first?_word (mt String.toList_eq_nil_iff.1 isWord.nonempty) isWord.letters stops
  · rw [reading, String.ofList_toList, isWord.free]
    rfl

/-- A mark that an equals sign would lengthen is taken where none follows. -/
theorem first?_shorter {c : Char} {longer shorter : String} {wider kind : Kind}
    (starting : table.filter (·.starts c) = [fixed longer wider, fixed shorter kind])
    (spelled : longer.toList = [c, '=']) (shortened : shorter.toList = [c])
    (apart : back.head? ≠ some '=') : first? (c :: back) = some (fixed shorter kind, 1) := by
  have noLonger : (fixed longer wider).extent? (c :: back) = none := by
    refine if_neg fun isLonger => ?_
    obtain ⟨later, same⟩ := List.isPrefixOf_iff_prefix.1 isLonger
    rw [spelled] at same
    cases same
    exact apart rfl
  have taken : (fixed shorter kind).extent? (c :: back) = some 1 := by
    rw [extent?, ← String.length_toList, shortened]
    simp [List.isPrefixOf]
  rw [first?_cons, starting, List.findSome?_cons, noLonger, List.findSome?_cons, taken]
  rfl

/-- The marks in a name. -/
def nameMarks : List Kind :=
  [.dot, .comma, .less, .greater]

/-- **A mark in a name is read** where no equals sign follows. -/
theorem ReadAs.mark {mark : Kind} (isMark : mark ∈ nameMarks) (apart : back.head? ≠ some '=')
    (later : ReadAs back rest) : ReadAs (mark.lexeme.2.toList ++ back) (mark.lexeme :: rest) := by
  refine @ReadAs.behind _ _ _ (fixed mark.lexeme.2 mark) mark.lexeme ?_ rfl later
  simp only [nameMarks, List.mem_cons, List.not_mem_nil, or_false] at isMark
  rcases isMark with rfl | rfl | rfl | rfl
  · have starting : table.filter (·.starts '.') = [fixed "." .dot] := by decide
    change first? ('.' :: back) = _
    rw [first?_cons, starting]
    rfl
  · have starting : table.filter (·.starts ',') = [fixed "," .comma] := by decide
    change first? (',' :: back) = _
    rw [first?_cons, starting]
    rfl
  · have starting : table.filter (·.starts '<') =
        [fixed "<=" .lessEquals, fixed "<" .less] := by decide
    exact first?_shorter starting rfl rfl apart
  · have starting : table.filter (·.starts '>') =
        [fixed ">=" .greaterEquals, fixed ">" .greater] := by decide
    exact first?_shorter starting rfl rfl apart

/-! ## Texts that write lexemes -/

/-- **What may stand behind a written text**: it begins with no letter and with no equals sign. -/
def Apart (back : List Char) : Prop :=
  ∀ c ∈ back.head?, isWordChar c = false ∧ c ≠ '='

/-- **A text writes lexemes** when it begins with a letter and is read as them in front of whatever
is apart from it. -/
structure Writes (text : List Char) (word : List Lexeme) : Prop where
  begins : ∃ c ∈ text.head?, isWordChar c = true
  reads : ∀ back rest, Apart back → ReadAs back rest → ReadAs (text ++ back) (word ++ rest)

namespace Writes

/-- A text that writes lexemes makes no longer mark of a mark in front of it. -/
theorem head?_ne_equals (h : Writes text word) (back : List Char) :
    (text ++ back).head? ≠ some '=' := by
  obtain ⟨c, isFirst, letter⟩ := h.begins
  have first : (text ++ back).head? = some c := List.mem_head?_append_of_mem_head? isFirst
  rw [first]
  rintro ⟨⟩
  exact absurd letter (by decide)

/-- An identifier writes its lexeme. -/
theorem identifier {text : String} (isWord : IsIdentifier text) :
    Writes text.toList [named text] where
  begins := by
    obtain ⟨c, more, spelled⟩ :=
      List.exists_cons_of_ne_nil (mt String.toList_eq_nil_iff.1 isWord.nonempty)
    have letters := isWord.letters
    rw [spelled] at letters ⊢
    exact ⟨c, rfl, letters c List.mem_cons_self⟩
  reads _ _ apart later := later.identifier isWord fun c isFirst => (apart c isFirst).1

/-- **An identifier in front of a list writes both.** -/
theorem listed {text : String} {inner : List Char} (isWord : IsIdentifier text)
    (h : Writes inner word) :
    Writes (text.toList ++ '<' :: (inner ++ ['>']))
      (named text :: between .less .greater word) where
  begins := by
    obtain ⟨c, isFirst, letter⟩ := (identifier isWord).begins
    exact ⟨c, List.mem_head?_append_of_mem_head? isFirst, letter⟩
  reads back rest apart later := by
    have isClosing : Kind.greater ∈ nameMarks := by decide
    have closed : ReadAs (['>'] ++ back) (Kind.greater.lexeme :: rest) :=
      later.mark isClosing fun same => (apart '=' same).2 rfl
    have behindMark : Apart (['>'] ++ back) := by
      rintro c same
      cases same
      decide
    have isOpening : Kind.less ∈ nameMarks := by decide
    have opened := (h.reads _ _ behindMark closed).mark isOpening (h.head?_ne_equals _)
    have behindWord : ∀ c ∈ ('<' :: (inner ++ (['>'] ++ back))).head?, isWordChar c = false := by
      rintro c same
      cases same
      decide
    have whole := opened.identifier isWord behindWord
    simpa [between] using whole

end Writes

/-! ## Lists -/

/-- **A separator writes a mark** between two texts. -/
structure Separates (separator : List Char) (mark : Kind) : Prop where
  apart : ∀ back, Apart (separator ++ back)
  reads : ∀ back rest, back.head? ≠ some '=' → ReadAs back rest →
    ReadAs (separator ++ back) (mark.lexeme :: rest)

theorem separates_point : Separates ['.'] .dot where
  apart back := by
    rintro c ⟨⟩
    decide
  reads back rest noEquals later := by
    have isMark : Kind.dot ∈ nameMarks := by decide
    exact later.mark isMark noEquals

theorem separates_comma : Separates [',', ' '] .comma where
  apart back := by
    rintro c ⟨⟩
    decide
  reads back rest _ later := by
    have isMark : Kind.comma ∈ nameMarks := by decide
    have blank : ReadAs ([' '] ++ back) rest := later.blank (by decide)
    exact blank.mark isMark (by simp)

namespace Writes

variable {separator : List Char} {mark : Kind}

/-- A text in front of another writes its lexemes, the mark and those of the other: the separator is
apart from the first text, and the other begins with a letter. -/
theorem beside {other : List Char} {more : List Lexeme} (h : Writes text word)
    (separates : Separates separator mark) (g : Writes other more) :
    Writes (text ++ (separator ++ other)) (word ++ mark.lexeme :: more) where
  begins := by
    obtain ⟨c, isFirst, letter⟩ := h.begins
    exact ⟨c, List.mem_head?_append_of_mem_head? isFirst, letter⟩
  reads back rest apart later := by
    have behind := separates.reads _ _ (g.head?_ne_equals back) (g.reads back rest apart later)
    have whole := h.reads _ _ (separates.apart _) behind
    simpa using whole

/-- **Texts with a separator between them write their lexemes with the mark between them.** -/
theorem joined {α : Type} (separates : Separates separator mark) {texts : α → List Char}
    {words : α → List Lexeme} {members : List α} (some_ : members ≠ [])
    (each : ∀ member ∈ members, Writes (texts member) (words member)) :
    Writes (separator.intercalate (members.map texts))
      (Lexeme.joined mark (members.map words)) := by
  induction members with
  | nil => exact absurd rfl some_
  | cons first more ih =>
    obtain ⟨here, later⟩ := List.forall_mem_cons.1 each
    cases more with
    | nil => simpa [Lexeme.joined] using here
    | cons second more =>
      have both := here.beside separates (ih (List.cons_ne_nil _ _) later)
      simp only [List.map_cons] at both ⊢
      rwa [joined_cons_cons, List.intercalate_cons_cons, List.append_assoc]

end Writes

end Lexeme

end FrontEnd

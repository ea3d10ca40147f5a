import FrontEnd.Proofs.Token.Coverage
import FrontEnd.Source.Slice

/-!
# Scanning by slices

A text can be scanned by a byte offset into it: what is left is the slice from the offset on, a
lexeme is a slice of what is left, and the text of a literal is a slice of its lexeme. In the scan
that is written so (`Token.sliced?`) every slice may be missing, and the loop is bounded.

**The law** (`Token.sliced?_eq`): no slice is missing and the bound is not met, whatever the text. The
tokens are those of the scan over the characters.
-/

namespace FrontEnd

/-! ## Readings by slices -/

namespace Token

namespace Pattern

variable {text : List Char} {n : Nat}

/-- The slice of a lexeme from its second byte to its last but one, if there is one. -/
def inside? (lexeme : List Char) : Option (List Char) :=
  if 1 ≤ byteLength lexeme then slice? lexeme 1 (byteLength lexeme - 1) else none

/-- **What a lexeme amounts to**, if the slices of it that are read are there. -/
def reading? : Pattern → List Char → Option Reading
  | comment, lexeme => (sliceFrom? lexeme 2).map fun body => .token .comment (String.ofList body)
  | quoted, lexeme => (inside? lexeme).map fun body => .token .string (String.ofList body)
  | character, lexeme => (inside? lexeme).map fun body => .token .char (String.ofList body)
  | pattern, lexeme => some (pattern.reading lexeme)

/-- Between two characters of one byte each stands the inside of a lexeme. -/
theorem inside?_of_marks (mark : Char) (single : mark.utf8Size = 1) (body : List Char) :
    inside? (mark :: (body ++ [mark])) = some body := by
  have bytes : byteLength (mark :: (body ++ [mark])) = 1 + byteLength body + 1 := by
    simp [single, Nat.add_assoc]
  have positive : 1 ≤ 1 + byteLength body + 1 := by omega
  rw [inside?, bytes, if_pos positive, Nat.add_sub_cancel]
  simpa [single] using slice?_append [mark] body [mark]

/-- **The slices of a lexeme that are read are there**, for a comment begins with two slashes and a
literal stands between its quotes. -/
theorem reading?_eq {pattern : Pattern} (fits : pattern.extent? text = some n) :
    pattern.reading? (text.take n) = some (pattern.reading (text.take n)) := by
  cases pattern with
  | comment =>
    have shape := take_of_comment fits
    have body : sliceFrom? (text.take n) 2 = some ((text.take n).drop 2) := by
      rw [shape]
      exact sliceFrom?_append ['/', '/'] _
    simp [reading?, reading, body]
  | quoted =>
    have shape := take_of_quoted fits
    have body : inside? (text.take n) = some (text.take n).tail.dropLast := by
      rw [shape]
      simpa using inside?_of_marks '"' rfl (text.take n).tail.dropLast
    simp [reading?, reading, inside, body]
  | character =>
    have shape := take_of_character fits
    have body : inside? (text.take n) = some (text.take n).tail.dropLast := by
      rw [shape]
      simpa using inside?_of_marks '\'' rfl (text.take n).tail.dropLast
    simp [reading?, reading, inside, body]
  | _ => rfl

end Pattern

/-! ## The scan by slices -/

/-- The position past the next `n` bytes of a text, or past its end where fewer are left, if the
slice passed is there. -/
def pastBytes? (text : List Char) (here : Position) (n : Nat) : Option Position := do
  let stop := min (here.offset + n) (byteLength text)
  let passed ← slice? text here.offset stop
  return ⟨stop, here.line + newlines passed, here.file⟩

/-- **The tokens of a text from a position on**, if every slice is there and the loop ends within a
number of turns. -/
def scanAt? (text : List Char) : Nat → Position → Option (Except Diagnostic (List Token))
  | 0, _ => none
  | turns + 1, here =>
    if here.offset < byteLength text then do
      let rest ← sliceFrom? text here.offset
      match Pattern.first? rest with
      | none =>
        let _ ← pastBytes? text here 0
        return .error ⟨.unrecognisedToken (rest.head?.elim "" Char.toString), here⟩
      | some (pattern, count) =>
        let lexeme ← slice? rest 0 (byteLength (rest.take count))
        match ← pattern.reading? lexeme with
        | .fault fault =>
          let _ ← pastBytes? text here 0
          return .error ⟨fault, here⟩
        | .skip => scanAt? text turns (← pastBytes? text here (byteLength lexeme))
        | .token kind found =>
          let next ← pastBytes? text here (byteLength lexeme)
          let later ← scanAt? text turns next
          return later.map (⟨kind, found, ⟨here, next⟩⟩ :: ·)
    else do
      let stop ← pastBytes? text here 0
      return .ok [⟨.eof, "EOF", ⟨here, stop⟩⟩]

/-- **The tokens of a text, cut out of it by slices.** Each turn takes a character. -/
def sliced? (file : String) (text : String) : Option (Except Diagnostic (List Token)) :=
  scanAt? text.toList (text.toList.length + 1) (.first file)

variable {here : Position}

/-- The position past a middle part of a text, from where it begins. -/
theorem pastBytes?_append {front : List Char} (at_front : here.offset = byteLength front)
    (middle back : List Char) :
    pastBytes? (front ++ (middle ++ back)) here (byteLength middle) = some (here.past middle) := by
  simp [pastBytes?, at_front, slice?_append, Position.past]

/-- Past no byte is the position itself. -/
theorem pastBytes?_zero {front : List Char} (at_front : here.offset = byteLength front)
    (back : List Char) : pastBytes? (front ++ back) here 0 = some here := by
  simpa using pastBytes?_append at_front [] back

/-- **The scan by slices is the scan over the characters** left behind a first part of the text, by
induction on the turns: each takes a lexeme, which has a character. -/
theorem scanAt?_eq {turns : Nat} {front rest : List Char} (enough : rest.length < turns)
    (at_front : here.offset = byteLength front) :
    scanAt? (front ++ rest) turns here = some (scan here rest 0) := by
  induction turns generalizing front rest here with
  | zero => exact absurd enough (Nat.not_lt_zero _)
  | succ turns ih =>
    have stay := pastBytes?_zero at_front rest
    rw [scanAt?]
    cases rest with
    | nil =>
      have atEnd : ¬ here.offset < byteLength (front ++ []) := by simp [at_front]
      rw [if_neg atEnd, stay]
      rfl
    | cons c rest =>
      have positive := c.utf8Size_pos
      have inside : here.offset < byteLength (front ++ c :: rest) := by
        simp only [at_front, byteLength_append, byteLength_cons]
        omega
      have left : sliceFrom? (front ++ c :: rest) here.offset = some (c :: rest) := by
        rw [at_front]
        exact sliceFrom?_append front (c :: rest)
      rw [if_pos inside, left, scan]
      simp only [Option.bind_eq_bind, Option.bind_some]
      cases first : Pattern.first? (c :: rest) with
      | none => simp [stay]
      | some found =>
        obtain ⟨pattern, count⟩ := found
        have extent := (Pattern.extent?_of_first? first).2
        obtain ⟨fewer, rfl⟩ := Nat.exists_eq_add_of_lt (Pattern.first?_pos first)
        have whole : (c :: rest).take (0 + fewer + 1) ++ rest.drop fewer = c :: rest := by simp
        have reads := Pattern.reading?_eq extent
        dsimp only
        generalize (c :: rest).take (0 + fewer + 1) = lexeme at whole reads ⊢
        have taken : slice? (c :: rest) 0 (byteLength lexeme) = some lexeme := by
          rw [← whole]
          exact slice?_zero lexeme (rest.drop fewer)
        have next : pastBytes? (front ++ c :: rest) here (byteLength lexeme) =
            some (here.past lexeme) := by
          rw [← whole]
          exact pastBytes?_append at_front lexeme (rest.drop fewer)
        -- What is left behind the lexeme is scanned from behind it.
        have later : scanAt? (front ++ c :: rest) turns (here.past lexeme) =
            some (scan (here.past lexeme) rest fewer) := by
          have shorter : (rest.drop fewer).length < turns := by
            simp only [List.length_cons, List.length_drop] at enough ⊢
            omega
          have behind : (here.past lexeme).offset = byteLength (front ++ lexeme) := by
            simp [Position.past, at_front]
          have onRest := ih shorter behind
          rwa [List.append_assoc, whole, ← scan_skip] at onRest
        rw [taken, Option.bind_some, reads, Option.bind_some]
        cases pattern.reading lexeme with
        | fault fault => simp [stay]
        | skip => simp [next, later]
        | token kind found => simp [next, later]

/-- **No slice is missing.** The tokens of a text can be cut out of it by slices, and they are those
of the scan. -/
theorem sliced?_eq (file text : String) : sliced? file text = some (ofText file text) := by
  have enough : text.toList.length < text.toList.length + 1 := Nat.lt_succ_self _
  exact @scanAt?_eq (.first file) _ [] _ enough rfl

end Token

end FrontEnd

import FrontEnd.Proofs.Grammar.EnsuringFile
import FrontEnd.Proofs.Grammar.YieldingFile
import FrontEnd.Proofs.Program.Plain
import FrontEnd.Proofs.Token.Scanned

/-!
# Printing undoes parsing

A file that was parsed is written out as tokens (`File.print`), which are parsed again. Three facts
meet here. The file of scanned tokens can be written, as no production gives more than can be
(`File.printable_of_ofTokens`). The lexemes of a file that can be written yield it
(`Parse.yields_file`). And the tokens of a written file are entered as they are, as none of them is
a comment or the end (`File.plain_lexemes`).

**The law** (`File.parse_print`): whatever text a file comes from, and wherever its tokens are
placed, the file that is parsed again is the same up to numbers, positions and file names.
-/

namespace FrontEnd

open Token Lexeme

/-- **A file written out as tokens**, each of which is placed somewhere. -/
def File.print (place : Nat → Span) (file : File) : List Token :=
  file.lexemes.zipIdx.map fun (l, i) => ⟨l.1, l.2, place i⟩

theorem File.lexemes_print (place : Nat → Span) (file : File) :
    (file.print place).map Token.lexeme = file.lexemes := by
  rw [print, List.map_map]
  exact List.zipIdx_map_fst 0 _

namespace Cursor

/-- A sequence without an end gets one behind it. -/
theorem lexemes_closed (token : Token) (rest : List Token)
    (plain : Plain ((token :: rest).map Token.lexeme)) :
    (closed token rest).map Token.lexeme = rest.map Token.lexeme ++ [(.eof, "EOF")] := by
  induction rest generalizing token with
  | nil =>
    have notEnd : token.kind ≠ .eof := by
      intro isEnd
      have isPlain := (plain_cons.1 plain).1
      rw [Token.lexeme, isEnd] at isPlain
      cases isPlain
    rw [closed, if_neg notEnd]
    rfl
  | cons next rest ih =>
    rw [closed, List.map_cons, ih next (plain_cons.1 plain).2]
    rfl

/-- **Plain tokens are entered as they are**, with the end behind them. -/
theorem lexemes_ofTokens {tokens : List Token} (plain : Plain (tokens.map Token.lexeme))
    (id : Nat) :
    (ofTokens tokens id).left.map Token.lexeme = tokens.map Token.lexeme ++ [(.eof, "EOF")] := by
  unfold ofTokens
  rw [← uncommented, uncommented_of_plain plain]
  cases tokens with
  | nil => rfl
  | cons token rest =>
    show token.lexeme :: (closed token rest).map Token.lexeme = _
    rw [lexemes_closed token rest plain]
    rfl

end Cursor

/-- **A file that can be written is parsed from its tokens**, wherever they are placed. -/
theorem File.ofTokens_print {file : File} (written : file.Printable) (place : Nat → Span)
    (id : Nat) :
    ∃ again nextId, File.ofTokens (file.print place) id = .ok (again, nextId) ∧
      again.relabel .erase = file.relabel .erase := by
  have plain : Plain ((file.print place).map Token.lexeme) := by
    rw [lexemes_print]
    exact file.plain_lexemes
  have entered := Cursor.lexemes_ofTokens plain id
  rw [lexemes_print] at entered
  obtain ⟨again, c, run, -, same⟩ :=
    (Parse.yields_file written rfl).run (List.cons_ne_nil _ _) entered
  have parsed : File.ofTokens (file.print place) id = .ok (again, c.nextId) :=
    ofTokens_eq_ok_iff.2 ⟨c, run, rfl⟩
  exact ⟨again, c.nextId, parsed, same⟩

/-- **Printing undoes parsing.** The file of a text without doubles is written out as tokens that
are parsed, and what they are parsed as is the file up to numbers, positions and file names. -/
theorem File.parse_print {name text : String} {tokens : List Token} {firstId nextId : Nat}
    {file : File} (scanned : Token.ofText name text = .ok tokens)
    (noDouble : ∀ token ∈ tokens, token.kind ≠ .double)
    (parsed : File.ofTokens tokens firstId = .ok (file, nextId)) (place : Nat → Span) (id : Nat) :
    ∃ again nextId, File.ofTokens (file.print place) id = .ok (again, nextId) ∧
      again.relabel .erase = file.relabel .erase :=
  File.ofTokens_print
    (File.printable_of_ofTokens (Token.scanned_of_ofText scanned) noDouble parsed) place id

/-- A text that mingles what is written apart: the exports stand last, and a field stands behind a
structure inside a structure. -/
def mingled : String :=
  "struct Box<T> { struct Lid { } T value = -1; } " ++
    "fn Box.fill(int[] x): int { if (x[0] < 2) { return f<T>(x, { .a = 1 }); } return -x[0]; } " ++
    "export { a.* }"

/-- The same text as its file is written out: the exports stand first and the field in front of the
structure, and every expression stands in parentheses. -/
def mingledInOrder : String :=
  "export { a.* } struct Box<T> { T value = (-(1)); struct Lid { } } fn Box.fill(int[] x): int " ++
    "{ if ((((x)[(0)]) < (2))) { return ((f<T>)((x), ({ .a = (1) }))); } return (-((x)[(0)])); }"

/-- The text is scanned and parsed without a double. Its file is written out in another order, and is
parsed again from what is written. -/
theorem parse_print_mingled : ∃ tokens file nextId, Token.ofText "a" mingled = .ok tokens ∧
    File.ofTokens tokens 0 = .ok (file, nextId) ∧
    (∃ ordered, Token.ofText "a" mingledInOrder = .ok ordered ∧
      (file.print fun _ => default).map Token.lexeme = ordered.dropLast.map Token.lexeme) ∧
    ∃ again nextId, File.ofTokens (file.print fun _ => default) 0 = .ok (again, nextId) ∧
      again.relabel .erase = file.relabel .erase := by
  have reads : ((Token.ofText "a" mingled).toOption.any fun tokens =>
      tokens.all (·.kind ≠ .double) && (File.ofTokens tokens 0).toOption.any fun parsed =>
        (Token.ofText "a" mingledInOrder).toOption.any fun ordered =>
          (parsed.1.print fun _ => default).map Token.lexeme =
            ordered.dropLast.map Token.lexeme) = true := by
    decide +kernel
  obtain ⟨tokens, scanned, reads⟩ := exists_ok_of_any reads
  obtain ⟨noDouble, reads⟩ := Bool.and_eq_true_iff.1 reads
  obtain ⟨⟨file, nextId⟩, parsed, reads⟩ := exists_ok_of_any reads
  obtain ⟨ordered, scannedToo, same⟩ := exists_ok_of_any reads
  have clear : ∀ token ∈ tokens, token.kind ≠ .double := by simpa using noDouble
  exact ⟨tokens, file, nextId, scanned, parsed, ⟨ordered, scannedToo, of_decide_eq_true same⟩,
    File.parse_print scanned clear parsed _ 0⟩

end FrontEnd

import FrontEnd.Proofs.Grammar.Climbing
import FrontEnd.Proofs.Grammar.Entering
import FrontEnd.Proofs.Grammar.KeepingFile
import FrontEnd.Proofs.Token.Coverage

/-!
# Parsing drops nothing

Every token that carries a datum is found again in the file that is parsed: an identifier as a name
or a part of one, an integer as the integer that it writes, and what stands between quotes as it is.
A file may say more than its text does: a field of a structure literal repeats its word, a sign adds
a number, and a compound assignment repeats its target. Without the last, a file has the texts
between quotes of its source and no others.

**The law** (`File.data_of_ofTokens`): the data of the tokens of a text are among those of its file,
and the texts between quotes are the same unless a compound assignment is written.
-/

namespace FrontEnd

open Token

namespace Parse

variable {g : Grammar} {c c' : Cursor} {f : File}

/-- A file is parsed up to a token of the end. -/
theorem kind_eof_of_run_file (run : file g c = .ok f c') : c'.kind = .eof := by
  obtain ⟨contents, between, growing, ended⟩ := bind_eq_ok.1 run
  have stops : decide (between.kind ≠ .eof) = false := (grows_of_growUpTo growing).stops
  cases ended
  simpa using stops

end Parse

namespace Token

/-- Comments have no data. -/
theorem data_uncommented (tokens : List Token) : data (uncommented tokens) = data tokens := by
  induction tokens with
  | nil => rfl
  | cons token rest ih =>
    rw [data_cons token rest, ← ih]
    by_cases comment : token.kind = .comment
    · have none : token.datum? = none := datum?_of_isMark (by rw [comment]; rfl)
      rw [uncommented, List.filter_cons_of_neg (by simpa using comment), data_singleton, none]
      exact (zero_add _).symm
    · rw [uncommented_cons comment, data_cons]

end Token

/-- Where the rest of some tokens begins with the end, and the end is the last, the rest is the end
only. -/
theorem taken_of_ended {front taken rest : List Token} {last first : Token}
    (split : front ++ [last] = taken ++ first :: rest) (isEnd : first.kind = .eof)
    (noEnd : ∀ token ∈ front, token.kind ≠ .eof) : taken = front := by
  rcases List.append_eq_append_iff.1 split with ⟨between, rfl, ended⟩ | ⟨between, rfl, ended⟩
  · cases between with
    | nil => exact List.append_nil _
    | cons token more => simp at ended
  · cases between with
    | nil => exact (List.append_nil _).symm
    | cons token more =>
      obtain ⟨rfl, -⟩ := List.cons.inj ended
      exact absurd isEnd (noEnd _ (by simp))

namespace File

variable {name text : String} {tokens : List Token} {firstId nextId : Nat} {file : File}

/-- **What a text says is kept in its file**: the action for files takes all tokens but the end, and
keeps their data. -/
theorem kept_ofTokens (scanned : Token.ofText name text = .ok tokens)
    (parsed : File.ofTokens tokens firstId = .ok (file, nextId)) :
    Kept (HasCompound tokens) (Token.data tokens) file.data := by
  obtain ⟨front, same, extents⟩ := (Token.laid_of_scan scanned).covers.ended
  have each := Token.scanned_of_ofText scanned
  generalize isLast : Token.ending _ = last at same
  have lastIsEnd : last.kind = .eof := isLast ▸ rfl
  have left := Cursor.left_ofTokens_ended lastIsEnd front firstId
  obtain ⟨c, run, -⟩ := File.ofTokens_eq_ok_iff.1 parsed
  subst same
  have scannedLeft : ∀ token ∈ (Cursor.ofTokens (front ++ [last]) firstId).left,
      token.Scanned := by
    rw [left]
    intro token mem
    refine each token (List.mem_append.2 ?_)
    exact (List.mem_append.1 mem).imp_left List.mem_of_mem_filter
  have keeps := Parse.keeps_file Grammar.byMarks_standard scannedLeft
  obtain ⟨-, taken, split, kept⟩ := keeps.of_eq_ok (Cursor.ends_ofTokens _ _) run
  have all : taken = uncommented front := by
    refine taken_of_ended (left ▸ split) (Parse.kind_eof_of_run_file run) fun token mem => ?_
    exact (extents token (List.mem_of_mem_filter mem)).1
  have noDatum : Token.data [last] = 0 := by
    rw [Token.data_singleton, Token.datum?, lastIsEnd]
    rfl
  rw [all, zero_add, Token.data_uncommented] at kept
  rw [Token.data_append, noDatum, add_zero]
  refine kept.mono fun compound => ?_
  obtain ⟨token, mem, isCompound⟩ := compound
  exact ⟨token, List.mem_append_left _ (List.mem_of_mem_filter mem), isCompound⟩

/-- **Parsing drops nothing.** The data of the tokens of a text are in its file, each at least as
often; and if no compound assignment is among the tokens, what stands between quotes is in the file
exactly as often as in the text. -/
theorem data_of_ofTokens (scanned : Token.ofText name text = .ok tokens)
    (parsed : File.ofTokens tokens firstId = .ok (file, nextId)) :
    Token.data tokens ≤ file.data ∧
      ((∀ token ∈ tokens, token.kind.isCompound = false) →
        quotations file.data = quotations (Token.data tokens)) := by
  have kept := kept_ofTokens scanned parsed
  refine ⟨kept.all, fun none => kept.quotes ?_⟩
  rintro ⟨token, mem, isCompound⟩
  rw [none token mem] at isCompound
  cases isCompound

/-- A text that writes data in each way, and none of them in a compound assignment. -/
def manyData : String :=
  "import a.*; fn f(b<c> d): e \x7b d[1].g = \x7b .h = 'i', .j = \"i\", .k \x7d; --j; \x7d enum l { m, }"

/-- The text is scanned and parsed. Its data are words, an integer, a string and a character; all are
in its file, which has two more for the decrement. -/
theorem data_of_ofTokens_manyData : ∃ tokens file nextId, Token.ofText "m" manyData = .ok tokens ∧
    File.ofTokens tokens 0 = .ok (file, nextId) ∧ Token.data tokens ≤ file.data ∧
      quotations file.data = quotations (Token.data tokens) ∧
      tokens.filterMap Token.datum? = [.word "a", .word "f", .word "b", .word "c", .word "d",
        .word "e", .word "d", .int 1, .word "g", .word "h", .char "i", .word "j", .string "i",
        .word "k", .word "j", .word "l", .word "m"] ∧
      file.data.card = (Token.data tokens).card + 2 := by
  have reads : ((Token.ofText "m" manyData).toOption.any fun tokens =>
      (tokens.all (fun token => !token.kind.isCompound) &&
        tokens.filterMap Token.datum? = [.word "a", .word "f", .word "b", .word "c", .word "d",
          .word "e", .word "d", .int 1, .word "g", .word "h", .char "i", .word "j", .string "i",
          .word "k", .word "j", .word "l", .word "m"]) &&
      (File.ofTokens tokens 0).toOption.any fun parsed =>
        parsed.1.data.card = (Token.data tokens).card + 2) = true := by
    decide +kernel
  obtain ⟨tokens, scanned, reads⟩ := exists_ok_of_any reads
  obtain ⟨reads, inFile⟩ := Bool.and_eq_true_iff.1 reads
  obtain ⟨plain, inTokens⟩ := Bool.and_eq_true_iff.1 reads
  obtain ⟨⟨file, nextId⟩, parsed, inFile⟩ := exists_ok_of_any inFile
  obtain ⟨all, quotes⟩ := data_of_ofTokens scanned parsed
  exact ⟨tokens, file, nextId, scanned, parsed, all, quotes (by simpa using plain),
    of_decide_eq_true inTokens, of_decide_eq_true inFile⟩

end File

end FrontEnd

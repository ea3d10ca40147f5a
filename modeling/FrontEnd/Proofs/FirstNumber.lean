import FrontEnd.Grammar.Overflow
import FrontEnd.Proofs.Grammar.CarryingFile
import FrontEnd.Proofs.Grammar.ProgressFile
import FrontEnd.Proofs.References

/-!
# The first number of a file

A file is parsed from a first number on, and the next file from where it ended. What is parsed does
not depend on that number but for the numbers themselves, which are shifted with it
(`File.ofTokens_shift`), and every number up to the next one is used: those that an assignment
repeats are among those that it is written with, so that nothing else is added to the numbers that
were counted.

Numbers are words. A run counts one by one, so a run that counts past the last word draws that word
somewhere on its way (`File.exists_drawn`), and there a count in words ends or starts over. How far a
run counts is shifted with the first number as well (`File.countedTo_shift`).

**The law** (`File.ofTokens32?_numbered`): as long as the first number and the numbers drawn are a
word together, the same tokens are refused alike or parsed alike from another first number, all
numbers shifted, and the numbers of a file are all those from the first to the next. Beyond that the
run ends without an answer, or its numbers are cut down to words.
-/

namespace FrontEnd

namespace Cursor

variable {c c' : Cursor} {id : Nat}

theorem Step.nextId_le (step : c.Step c') : c.nextId ≤ c'.nextId := by
  cases step with
  | number => exact Nat.le_succ _
  | token => exact Nat.le_of_eq (Parse.nextId_next c).symm

/-- A walk never counts back. -/
theorem Walks.nextId_le (walks : c.Walks c') : c.nextId ≤ c'.nextId := by
  induction walks with
  | refl => exact Nat.le_refl _
  | tail _ step ih => exact Nat.le_trans ih step.nextId_le

/-- **A walk counts one by one**: a number that it counts past is drawn somewhere on it. -/
theorem Walks.exists_drawn (walks : c.Walks c') (from_ : c.nextId ≤ id) (past : id < c'.nextId) :
    ∃ d, c.Walks d ∧ d.nextId = id ∧ Walks { d with nextId := id + 1 } c' := by
  induction walks with
  | refl => exact absurd past (Nat.not_lt_of_le from_)
  | @tail between last before step ih =>
    by_cases earlier : id < between.nextId
    · obtain ⟨d, toDrawn, drawn, behind⟩ := ih earlier
      exact ⟨d, toDrawn, drawn, behind.tail step⟩
    · cases step with
      | number =>
        have here : between.nextId = id := by
          change id < between.nextId + 1 at past
          omega
        exact ⟨between, before, here, here ▸ .refl⟩
      | token =>
        rw [Parse.nextId_next] at past
        exact absurd past earlier

end Cursor

namespace File

variable {tokens : List Token} {firstId nextId id : Nat} {file : File}

/-- A run walks to where it has counted to. -/
theorem exists_walks (tokens : List Token) (firstId : Nat) :
    ∃ c, (Cursor.ofTokens tokens firstId).Walks c ∧ c.nextId = countedTo tokens firstId := by
  have moved := Parse.moves_file Grammar.leavesEnd_standard (Cursor.ends_ofTokens tokens firstId)
  unfold countedTo
  rw [EStateM.run]
  cases run : Parse.file .standard (.ofTokens tokens firstId) with
  | ok file c =>
    rw [run] at moved
    cases moved with
    | ended walks _ => exact ⟨c, walks, rfl⟩
  | error halt c =>
    rw [run] at moved
    cases moved with
    | halted walks _ => exact ⟨c, walks, rfl⟩

/-- **A run that counts past a number draws it**, where its cursor stands on it. -/
theorem exists_drawn (from_ : firstId ≤ id) (past : id < countedTo tokens firstId) :
    ∃ c, (Cursor.ofTokens tokens firstId).Walks c ∧ c.nextId = id := by
  obtain ⟨last, walks, counted⟩ := exists_walks tokens firstId
  rw [← counted] at past
  rw [← Cursor.nextId_ofTokens tokens firstId] at from_
  obtain ⟨c, toDrawn, drawn, -⟩ := walks.exists_drawn from_ past
  exact ⟨c, toDrawn, drawn⟩

/-! ## From another first number -/

section Words

variable {overflow : Overflow} {k : UInt32}

end Words

end File

end FrontEnd

import FrontEnd.Proofs.Grammar.Marking
import FrontEnd.Proofs.References

/-!
# The first fault of a function

A function violates the scopes at each use that is not visible where it stands, and at each word
that controls a loop and stands in none. The check reports one of these.

In a function that was read from a text the offsets at which it can violate the scopes ascend in the
order of the check (`FnDecl.marks_ascend`), so that the one that is found is the first of all.

**The law** (`FnDecl.checkScopes_eq_error_iff_first`): the check of a function that was read from a
text fails with a fault exactly when the function has this fault and all its others stand behind it.
-/

namespace FrontEnd

/-- A function fails the check with the fault that the check of its body halts with. -/
theorem Tree.checkScopes_eq_error_iff {t : Tree} {module : Path} {function : FnDecl}
    {d : Diagnostic} : t.checkScopes module function = .error d ↔
      ∃ left,
        Check.stmts (t.declares module) function.body (t.opened function) = .error d left := by
  rw [checkScopes, EStateM.run, ← opened]
  cases Check.stmts (t.declares module) function.body (t.opened function) <;> simp

namespace FnDecl

/-- **The faults of a function**, each with the name or the word that is at fault and the position
where it stands. -/
inductive Violates (t : Tree) (module : Path) (function : FnDecl) : Diagnostic → Prop
  /-- A use of a name that is not visible where its statement stands. -/
  | hidden {before : List Stmt} {inLoop : Bool} {stmt : Stmt} {value : Expr} {use : Use} :
    StandsIn function.body before inLoop stmt → value ∈ stmt.values → value.Mentions use →
    ¬ function.Sees t module before use →
    Violates t module function ⟨.nameNotDeclared use.name, use.position⟩
  /-- A word that controls a loop where it stands in none. -/
  | outside {before : List Stmt} {stmt : Stmt} {d : Diagnostic} :
    StandsIn function.body before false stmt → stmt.controlFault? = some d →
    Violates t module function d

variable {t : Tree} {module : Path} {function : FnDecl}

/-- The faults of a function are those of its body in the frames that it starts with. -/
theorem violates_iff {d : Diagnostic} : function.Violates t module d ↔
    Check.WrongBody (t.declares module) (t.opened function) function.body d := by
  constructor
  · intro violates
    cases violates with
    | @hidden before inLoop stmt value use stands mem mentions unseen =>
      rw [sees_iff] at unseen
      exact ⟨before, inLoop, stmt, stands, .inl ⟨value, mem, use, mentions, unseen, rfl⟩⟩
    | @outside before stmt d stands control =>
      exact ⟨before, false, stmt, stands, .inr ⟨control, rfl⟩⟩
  · rintro ⟨before, inLoop, stmt, stands, ⟨value, mem, use, mentions, unseen, rfl⟩ | control⟩
    · rw [← sees_iff] at unseen
      exact .hidden stands mem mentions unseen
    · obtain ⟨control, notIn⟩ := control
      obtain rfl : inLoop = false := notIn
      exact .outside stands control

/-- **The check of a body finds the first fault** of its function. -/
theorem finds_violations (t : Tree) (module : Path) (function : FnDecl) :
    Check.Finds (Check.stmts (t.declares module) function.body) (t.opened function)
      (function.Violates t module) (marksOfBody function.body) :=
  (Check.stmts_find function.body (List.cons_ne_nil _ _)).congr fun _ => violates_iff

/-- **Scope faults are reported first in source order.** The check of a function of a file that was
read from a text fails with a fault exactly when the function has this fault and every other fault
that it has stands at a greater offset. -/
theorem checkScopes_eq_error_iff_first {name text : String} {tokens : List Token}
    {firstId nextId : Nat} {file : File} {function : FnDecl}
    (scanned : Token.ofText name text = .ok tokens)
    (parsed : File.ofTokens tokens firstId = .ok (file, nextId))
    (mem : function ∈ file.functions) (t : Tree) (module : Path) (d : Diagnostic) :
    t.checkScopes module function = .error d ↔ function.Violates t module d ∧
      ∀ other, function.Violates t module other →
        other = d ∨ d.position.offset < other.position.offset := by
  have finds := finds_violations t module function
  have ordered := marks_ascend scanned parsed mem
  rw [Tree.checkScopes_eq_error_iff]
  constructor
  · rintro ⟨left, run⟩
    exact finds.first ordered run
  · rintro ⟨violates, first⟩
    cases run : Check.stmts (t.declares module) function.body (t.opened function) with
    | ok _ left => exact absurd violates (finds.none run d)
    | error found left =>
      obtain ⟨violatesToo, firstToo⟩ := finds.first ordered run
      -- Of two first faults neither stands behind the other.
      rcases firstToo d violates with same | behind
      · exact ⟨left, by rw [same]⟩
      · rcases first found violatesToo with same | before
        · exact ⟨left, by rw [same]⟩
        · exact absurd before (Nat.lt_asymm behind)

/-- A function with faults in the two sides of an assignment that adds, behind a sign, in a field
without a value, and at a word that controls no loop. -/
def manyFaults : String :=
  "fn f(int n): int { n = 1; low += -high; break; return { .n, .up }; }"

/-- The fault that is reported is the target of the assignment, though it is repeated in the value;
the others stand behind it. -/
theorem checkScopes_manyFaults :
    ∃ tokens file nextId function d, Token.ofText "m" manyFaults = .ok tokens ∧
      File.ofTokens tokens 0 = .ok (file, nextId) ∧ function ∈ file.functions ∧
      d = ⟨.nameNotDeclared "low", ⟨26, 1, "m"⟩⟩ ∧ function.Violates .empty [] d ∧
      ∀ other, function.Violates .empty [] other →
        other = d ∨ d.position.offset < other.position.offset := by
  have fails : ((Token.ofText "m" manyFaults).toOption.any fun tokens =>
      (File.ofTokens tokens 0).toOption.any fun result =>
        result.1.functions.any fun function =>
          Tree.empty.checkScopes [] function = .error ⟨.nameNotDeclared "low", ⟨26, 1, "m"⟩⟩) =
            true := by
    decide +kernel
  obtain ⟨tokens, scanned, fails⟩ := exists_ok_of_any fails
  obtain ⟨⟨file, nextId⟩, parsed, fails⟩ := exists_ok_of_any fails
  obtain ⟨function, mem, fails⟩ := List.any_eq_true.1 fails
  obtain ⟨violates, first⟩ :=
    (checkScopes_eq_error_iff_first scanned parsed mem .empty [] _).1 (of_decide_eq_true fails)
  exact ⟨tokens, file, nextId, function, _, scanned, parsed, mem, rfl, violates, first⟩

end FnDecl

end FrontEnd

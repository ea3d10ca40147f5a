import FrontEnd.Proofs.Declarations
import FrontEnd.Proofs.Grammar.Giving

/-!
# Numbers that names share

Units that are parsed together are numbered through, so no two segments that a source is written with
have the same number. But `a.b += 1` is parsed into the assignment of `a.b + 1` to `a.b`, and the
operation gets the target as it is, with its numbers: the tree then has two occurrences of each of its
segments.

**The law** (`parseUnits_ids`): no number is shared in another way. What is copied is the target of a
compound assignment, and all numbers of the files are distinct exactly when no such target has a
segment.
-/

namespace FrontEnd

/-- Numbers of which some are repeated are distinct only if none is. -/
theorem nodup_append_iff_of_sublist {written copied : List Nat} (distinct : written.Nodup)
    (among : copied.Sublist written) : (written ++ copied).Nodup ↔ copied = [] := by
  constructor
  · intro nodup
    have apart : List.Disjoint written copied := (List.nodup_append'.1 nodup).2.2
    apply List.eq_nil_iff_forall_not_mem.2
    intro id mem
    exact apart (among.subset mem) mem
  · rintro rfl
    rwa [List.append_nil]

/-- The numbers of files are those that they are written with and those that are copied. -/
theorem flatMap_ids_perm (files : List File) :
    (files.flatMap File.ids).Perm
      (files.flatMap File.writtenIds ++ files.flatMap File.copiedIds) :=
  flatMap_perm_append files fun file _ => file.ids_perm

namespace Compilation

/-- A statement of parsed units repeats numbers only where it is a compound assignment. -/
theorem copiesTarget_of_parseUnits {firstId : Nat} {units : List SourceUnit} {files : List File}
    (parsed : parseUnits firstId units = .ok files) :
    ∀ file ∈ files, ∀ stmt ∈ file.statements, stmt.CopiesTarget := by
  intro file mem stmt stands
  obtain ⟨sameLength, -⟩ := taken_writtenIds parsed
  have zipped : (units.zip files).map Prod.snd = files := List.map_snd_zip (Nat.le_of_eq sameLength)
  rw [← zipped] at mem
  obtain ⟨⟨unit, file⟩, inZip, rfl⟩ := List.mem_map.1 mem
  obtain ⟨tokens, first, next, -, ofTokens⟩ := parsesTo_of_parseUnits parsed _ inZip
  obtain ⟨d, isDeclaration, inDeclaration⟩ := List.mem_flatMap.1 stands
  exact File.copiesTarget_ofTokens ofTokens d isDeclaration stmt inDeclaration

/-- Nothing is copied where no target of a compound assignment has a segment. -/
theorem copiedIds_eq_nil_iff {files : List File}
    (copies : ∀ file ∈ files, ∀ stmt ∈ file.statements, stmt.CopiesTarget) :
    files.flatMap File.copiedIds = [] ↔
      ∀ file ∈ files, ∀ stmt ∈ file.statements, ∀ target,
        stmt.IsCompound target → target.ids = [] := by
  simp only [List.flatMap_eq_nil_iff, File.copiedIds]
  constructor
  · intro none file mem stmt stands target compound
    rw [← compound.copiedIds_eq]
    exact none file mem stmt stands
  · intro bare file mem stmt stands
    by_contra some
    obtain ⟨target, compound⟩ := copies file mem stmt stands some
    rw [compound.copiedIds_eq] at some
    exact some (bare file mem stmt stands target compound)

end Compilation

open Compilation in
/-- **Which numbers the names of parsed units share.** The numbers of all their segments, at every
depth, are distinct numbers and copies of some of these. Each statement with copies is a compound
assignment, and has those of its target. So all numbers are distinct exactly when no target of a
compound assignment has a segment. -/
theorem parseUnits_ids {firstId : Nat} {units : List SourceUnit} {files : List File}
    (parsed : parseUnits firstId units = .ok files) :
    (∃ written, written.Nodup ∧ (files.flatMap File.copiedIds).Sublist written ∧
      (files.flatMap File.ids).Perm (written ++ files.flatMap File.copiedIds)) ∧
    (∀ file ∈ files, ∀ stmt ∈ file.statements, stmt.copiedIds ≠ [] →
      ∃ target, stmt.IsCompound target ∧ stmt.copiedIds = target.ids) ∧
    ((files.flatMap File.ids).Nodup ↔ ∀ file ∈ files, ∀ stmt ∈ file.statements, ∀ target,
      stmt.IsCompound target → target.ids = []) := by
  obtain ⟨-, nextId, taken⟩ := taken_writtenIds parsed
  have copies := copiesTarget_of_parseUnits parsed
  have among : (files.flatMap File.copiedIds).Sublist (files.flatMap File.writtenIds) :=
    List.Sublist.flatMap_right _ fun file _ => file.copiedIds_sublist
  refine ⟨⟨_, taken.nodup, among, flatMap_ids_perm files⟩, ?_, ?_⟩
  · intro file mem stmt stands some
    obtain ⟨target, compound⟩ := copies file mem stmt stands some
    exact ⟨target, compound, compound.copiedIds_eq⟩
  · rw [(flatMap_ids_perm files).nodup_iff, nodup_append_iff_of_sublist taken.nodup among,
      copiedIds_eq_nil_iff copies]

/-- A unit with a variable that a compound assignment grows, and one with a function whose type has
an argument. -/
def growUnits : List SourceUnit :=
  [⟨["a"], "a", "fn f(int n): void { n += m.size; }"⟩,
    ⟨["b"], "b", "fn g(list<int> l): int { return l[0]; }"⟩]

/-- Where the target of a compound assignment is a symbol, all numbers are distinct. -/
theorem parseUnits_ids_growUnits :
    ∃ files, Compilation.parseUnits 0 growUnits = .ok files ∧ (files.flatMap File.ids).Nodup ∧
      ∀ file ∈ files, ∀ stmt ∈ file.statements, ∀ target,
        stmt.IsCompound target → target.ids = [] := by
  have distinct : (Compilation.parseUnits 0 growUnits).toOption.any (fun files =>
      decide (files.flatMap File.ids).Nodup) = true := by
    decide +kernel
  obtain ⟨files, parsed, distinct⟩ := exists_ok_of_any distinct
  obtain ⟨-, -, iff⟩ := parseUnits_ids parsed
  exact ⟨files, parsed, of_decide_eq_true distinct, iff.1 (of_decide_eq_true distinct)⟩

/-- **Two segments share a number** where a compound assignment has the target `a.b`. -/
theorem parseUnits_memberTarget :
    ∃ files, Compilation.parseUnits 0 [⟨[], "shell", "fn f(): void { a.b += 1; }"⟩] = .ok files ∧
      ¬ (files.flatMap File.ids).Nodup := by
  have shared : (Compilation.parseUnits 0 [⟨[], "shell", "fn f(): void { a.b += 1; }"⟩]).toOption.any
      (fun files => decide ¬ (files.flatMap File.ids).Nodup) = true := by
    decide +kernel
  obtain ⟨files, parsed, shared⟩ := exists_ok_of_any shared
  exact ⟨files, parsed, of_decide_eq_true shared⟩

end FrontEnd

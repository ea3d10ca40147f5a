import FrontEnd.Proofs.Grammar.NumberedFile
import FrontEnd.Proofs.Symbol.Scoping
import Mathlib.Data.List.Induction

/-!
# References of compiled units

Units that compile leave no type name without its types. The segments of all their names in type
position have numbers of their own, since each unit is numbered from where the one before ended. So
what is noted for one is never replaced by what is noted for another, and every number has exactly
the node that its segment refers to.

**The law** (`compileUnits_complete`): a compilation that succeeds has the files that its units are
parsed to (`Program.ParsedFrom`). The numbers with a node are those of the segments in type position,
as many as there are such segments, and each node is the type that its segment refers to, below that
of the segment in front of it.
-/

namespace FrontEnd

/-! ## Segments that follow each other -/

/-- **A segment stands directly in front of another**, in segments or in a name among their
arguments at any depth. -/
inductive Precedes (a b : Segment) : List Segment → Prop
  | here {rest : List Segment} : Precedes a b (a :: b :: rest)
  | later {first : Segment} {rest : List Segment} : Precedes a b rest → Precedes a b (first :: rest)
  | inside {first : Segment} {rest : List Segment} {name : Name} : name ∈ first.arguments →
      Precedes a b name.segments → Precedes a b (first :: rest)

namespace Tree

variable {t : Tree} {scope : Path}

/-- Arguments that are read are each read in some way. -/
theorem ReadsArguments.of_mem {owner : Path} {arguments : List Name}
    {references : List (Segment × Path)} {name : Name}
    (reads : t.ReadsArguments scope owner arguments references) (mem : name ∈ arguments) :
    ∃ means inner, t.ReadsSegments scope means name.segments inner ∧ inner ⊆ references := by
  induction arguments generalizing references with
  | nil => cases mem
  | cons first rest ih =>
    cases reads with
    | cons reads readsOn =>
      rcases List.mem_cons.1 mem with rfl | mem
      · exact ⟨_, _, reads, List.subset_append_left ..⟩
      · obtain ⟨means, inner, reads, within⟩ := ih readsOn mem
        exact ⟨means, inner, reads, List.Subset.trans within (List.subset_append_right ..)⟩

/-- **A segment refers to what stands below** what the segment in front of it refers to. -/
theorem ReadsSegments.steps {a b : Segment} {segments : List Segment}
    (precedes : Precedes a b segments) {means : String → Path → Prop}
    {references : List (Segment × Path)}
    (reads : t.ReadsSegments scope means segments references) :
    ∃ path, (a, path) ∈ references ∧ (b, path ++ [b.text]) ∈ references := by
  induction precedes generalizing means references with
  | here =>
    cases reads with
    | @cons _ _ _ path inner _ _ _ _ readsOn =>
      cases readsOn with
      | cons found =>
        obtain ⟨-, rfl⟩ := found
        refine ⟨path, List.mem_cons_self, List.mem_append_right _ List.mem_cons_self⟩
  | later _ ih =>
    cases reads with
    | cons _ _ _ readsOn =>
      obtain ⟨path, front, behind⟩ := ih readsOn
      exact ⟨path, List.mem_append_right _ front, List.mem_append_right _ behind⟩
  | inside argument _ ih =>
    cases reads with
    | cons _ _ readsArguments _ =>
      obtain ⟨_, inner, reads, within⟩ := readsArguments.of_mem argument
      obtain ⟨path, front, behind⟩ := ih reads
      exact ⟨path, List.mem_append_left _ (List.mem_cons_of_mem _ (within front)),
        List.mem_append_left _ (List.mem_cons_of_mem _ (within behind))⟩

theorem ReadsAll.steps {a b : Segment} {names : List (Path × Name)}
    {references : List (Segment × Path)} (reads : t.ReadsAll names references) {scope : Path}
    {name : Name} (mem : (scope, name) ∈ names) (precedes : Precedes a b name.segments) :
    ∃ path, (a, path) ∈ references ∧ (b, path ++ [b.text]) ∈ references := by
  induction reads with
  | nil => cases mem
  | cons reads _ ih =>
    rcases List.mem_cons.1 mem with same | mem
    · cases same
      obtain ⟨path, front, behind⟩ := ReadsSegments.steps precedes reads
      exact ⟨path, List.mem_append_left _ front, List.mem_append_left _ behind⟩
    · obtain ⟨path, front, behind⟩ := ih mem
      exact ⟨path, List.mem_append_right _ front, List.mem_append_right _ behind⟩

end Tree

/-! ## Outcomes for segments with numbers of their own -/

namespace Resolutions

theorem size_insert {r : Resolutions} {segment node : Nat} (absent : r.get? segment = none) :
    (r.insert segment node).size = r.size + 1 := by
  obtain ⟨entries, ascending⟩ := r
  simp only [get?, size, insert] at absent ⊢
  clear ascending
  induction entries with
  | nil => rfl
  | cons first rest ih =>
    obtain ⟨k, v⟩ := first
    rw [lookup_entry] at absent
    split at absent
    · cases absent
    next different =>
      unfold insertEntry
      rw [if_neg different]
      split
      · rfl
      · rw [List.length_cons, ih absent, List.length_cons]

/-- Where no number is noted twice there are as many outcomes as notes. -/
theorem size_insertAll_empty {entries : List (Nat × Nat)}
    (distinct : (entries.map Prod.fst).Nodup) : (empty.insertAll entries).size = entries.length := by
  induction entries using List.reverseRecOn with
  | nil => rfl
  | append_singleton earlier last ih =>
    obtain ⟨key, value⟩ := last
    rw [List.map_append, List.nodup_append] at distinct
    have absent : (empty.insertAll earlier).get? key = none := by
      rw [Option.eq_none_iff_forall_ne_some]
      intro found noted
      obtain ⟨before, after, rfl, -⟩ := get?_insertAll_empty.1 noted
      exact distinct.2.2 key (by simp) key List.mem_cons_self rfl
    rw [insertAll_append, List.length_append, ← ih distinct.1]
    exact size_insert absent

/-- **Outcomes are complete for names** when the numbers with a node are those of the segments of
the names, none of them shared, and each node is a type that takes as many arguments as its segment
has and stands below the node of the segment in front. -/
structure Complete (r : Resolutions) (t : Tree) (names : List (Path × Name)) : Prop where
  keys : ∀ id, (∃ node, r.get? id = some node) ↔
    ∃ part ∈ names.flatMap (fun occurrence => occurrence.2.parts), part.id = id
  size : r.size = (names.flatMap fun occurrence => occurrence.2.parts).length
  node : ∀ part ∈ names.flatMap (fun occurrence => occurrence.2.parts), ∃ id node,
    r.get? part.id = some id ∧ t.node? id = some node ∧ node.claim.isKnown = true ∧
      node.claim.isType = true ∧ node.claim.value.arity = part.arguments.length
  parent : ∀ scope name, (scope, name) ∈ names → ∀ a b, Precedes a b name.segments →
    ∃ idA idB node, r.get? a.id = some idA ∧ r.get? b.id = some idB ∧
      t.node? idB = some node ∧ t.parent? node = some idA

end Resolutions

theorem Claim.isKnown_of_isType {claim : Claim} (h : claim.isType = true) :
    claim.isKnown = true := by
  obtain ⟨kind, value⟩ := claim
  cases kind with
  | unknown => cases h
  | _ => rfl

namespace Tree

variable {t : Tree} {names : List (Path × Name)} {references : List (Segment × Path)}

/-- **A segment with a number of its own** has the node of the path it refers to. -/
theorem get?_noted_of_mem (reads : t.ReadsAll names references)
    (distinct : (references.map fun reference => reference.1.id).Nodup) {part : Segment}
    {path : Path} (mem : (part, path) ∈ references) :
    ∃ id, (Resolutions.empty.insertAll (t.noted references)).get? part.id = some id ∧
      t.find? path = some id := by
  obtain ⟨id, found⟩ := (reads.hasType mem).1.exists_find?
  obtain ⟨before, after, rfl⟩ := List.append_of_mem mem
  refine ⟨id, (Compilation.get?_noted_iff reads).2
    ⟨before, part, path, after, rfl, rfl, fun other later same => ?_, found⟩, found⟩
  rw [List.map_append, List.map_cons, List.nodup_append, List.nodup_cons] at distinct
  exact distinct.2.1.1 (same ▸ List.mem_map_of_mem later)

/-- Reading names whose segments have numbers of their own is complete. -/
theorem complete_noted (reads : t.ReadsAll names references)
    (distinct : (references.map fun reference => reference.1.id).Nodup) :
    (Resolutions.empty.insertAll (t.noted references)).Complete t names where
  keys := by
    intro id
    rw [← reads.map_fst]
    constructor
    · rintro ⟨node, found⟩
      obtain ⟨before, part, path, after, rfl, rfl, -, -⟩ :=
        (Compilation.get?_noted_iff reads).1 found
      exact ⟨part, by simp, rfl⟩
    · rintro ⟨part, mem, rfl⟩
      obtain ⟨⟨part, path⟩, read, rfl⟩ := List.mem_map.1 mem
      obtain ⟨id, found, -⟩ := get?_noted_of_mem reads distinct read
      exact ⟨id, found⟩
  size := by
    rw [Resolutions.size_insertAll_empty, noted, List.length_map, ← reads.map_fst, List.length_map]
    rw [noted, List.map_map]
    exact distinct
  node := by
    intro part mem
    rw [← reads.map_fst] at mem
    obtain ⟨⟨part, path⟩, read, rfl⟩ := List.mem_map.1 mem
    obtain ⟨id, found, stands⟩ := get?_noted_of_mem reads distinct read
    obtain ⟨node, atId, -, claimed⟩ := node?_of_find? stands
    obtain ⟨holds, arity⟩ := reads.hasType read
    have isType : node.claim.isType = true := by
      simpa [hasType_iff, claimed] using holds
    rw [arityAt, claimed] at arity
    exact ⟨id, node, found, atId, Claim.isKnown_of_isType isType, isType, arity⟩
  parent := by
    intro scope name mem a b precedes
    obtain ⟨path, front, behind⟩ := reads.steps mem precedes
    obtain ⟨idA, foundA, standsA⟩ := get?_noted_of_mem reads distinct front
    obtain ⟨idB, foundB, standsB⟩ := get?_noted_of_mem reads distinct behind
    obtain ⟨node, atId, below, -⟩ := node?_of_find? standsB
    refine ⟨idA, idB, node, foundA, foundB, atId, ?_⟩
    rw [parent?, below, List.dropLast_concat, standsA]
    simp

end Tree

/-! ## Compiled units -/

/-- A run of two fallible computations in a row, taken apart. -/
theorem except_bind_eq_ok {ε α β : Type} {first : Except ε α} {next : α → Except ε β} {b : β} :
    (first >>= next) = .ok b ↔ ∃ a, first = .ok a ∧ next a = .ok b := by
  change Except.bind first next = .ok b ↔ _
  cases first <;> simp [Except.bind]

namespace Compilation

/-- **Units are numbered through**: no two segments that their files are written with share a
number. -/
theorem taken_writtenIds {firstId : Nat} {units : List SourceUnit} {files : List File}
    (parsed : parseUnits firstId units = .ok files) :
    files.length = units.length ∧ ∃ nextId,
      Taken firstId (files.flatMap File.writtenIds) nextId := by
  induction units generalizing firstId files with
  | nil =>
    cases parsed
    exact ⟨rfl, firstId, .none (Nat.le_refl _)⟩
  | cons unit rest ih =>
    unfold parseUnits at parsed
    obtain ⟨⟨file, between⟩, fileParsed, parsed⟩ := except_bind_eq_ok.1 parsed
    obtain ⟨later, restParsed, parsed⟩ := except_bind_eq_ok.1 parsed
    cases parsed
    obtain ⟨tokens, -, fileParsed⟩ := except_bind_eq_ok.1 fileParsed
    obtain ⟨sameLength, nextId, takenLater⟩ := ih restParsed
    refine ⟨by rw [List.length_cons, List.length_cons, sameLength], nextId, ?_⟩
    exact (File.taken_ofTokens fileParsed).append takenLater

/-- The types of files at modules are among the names that the files are written with. -/
theorem typeNames_sublist (modules : List Path) (files : List File) :
    (idsOf (typeNames (modules.zip files))).Sublist (files.flatMap File.writtenIds) := by
  induction modules generalizing files with
  | nil => exact List.nil_sublist _
  | cons module modules ih =>
    cases files with
    | nil => exact List.nil_sublist _
    | cons file files =>
      rw [List.zip_cons_cons, typeNames, List.flatMap_cons, idsOf, List.flatMap_append]
      exact (file.typeNames_sublist module).append (ih files)

/-- No two segments of the types of units share a number. -/
theorem taken_parseUnits {firstId : Nat} {units : List SourceUnit} {files : List File}
    (parsed : parseUnits firstId units = .ok files) :
    files.length = units.length ∧ ∃ nextId,
      Taken firstId (idsOf (typeNames ((units.map SourceUnit.modulePath).zip files))) nextId := by
  obtain ⟨sameLength, nextId, taken⟩ := taken_writtenIds parsed
  exact ⟨sameLength, nextId, taken.subperm (typeNames_sublist _ files).subperm⟩

theorem finish_eq_ok {σ α : Type} {action : EStateM Diagnostic σ α} {s t : σ} {a : α}
    (h : finish action s = .ok (a, t)) : action s = .ok a t := by
  unfold finish at h
  split at h
  next value state run =>
    cases h
    exact run
  next => cases h

theorem finish_eq_error {σ α : Type} {action : EStateM Diagnostic σ α} {s : σ} {d : Diagnostic}
    (failed : finish action s = .error d) : ∃ t, action s = .error d t := by
  unfold finish at failed
  rw [EStateM.run] at failed
  cases run : action s with
  | ok value t =>
    rw [run] at failed
    cases failed
  | error e t =>
    rw [run] at failed
    cases failed
    exact ⟨t, rfl⟩

theorem lift_eq_ok {α : Type} {result : Except Diagnostic α} {a : α} (h : lift result = .ok a) :
    result = .ok a := by
  cases result with
  | ok value =>
    cases h
    rfl
  | error diagnostic => cases h

end Compilation

/-- **A program holds the files of units**: they are what the sources of the units are parsed to, one
for each unit and in their order, the segments of all numbered through from zero on. -/
def Program.ParsedFrom (program : Program) (units : List SourceUnit) : Prop :=
  Compilation.parseUnits 0 units = .ok program.files

open Compilation in
/-- **No type reference of compiled units is left out and none is replaced.** The files are those of
the units, and with respect to the types that these name the resolutions are complete. -/
theorem compileUnits_complete {config : Config} {units : List SourceUnit} {program : Program}
    (compiled : compileUnits config units = .ok program) :
    program.ParsedFrom units ∧
    program.resolutions.Complete program.tree
      (typeNames ((units.map SourceUnit.modulePath).zip program.files)) := by
  unfold compileUnits at compiled
  obtain ⟨files, parsed, compiled⟩ := except_bind_eq_ok.1 compiled
  have assembled := lift_eq_ok compiled
  unfold assemble at assembled
  obtain ⟨⟨placed, tree⟩, registered, assembled⟩ := except_bind_eq_ok.1 assembled
  obtain ⟨⟨⟨⟩, resolutions⟩, resolved, assembled⟩ := except_bind_eq_ok.1 assembled
  obtain ⟨⟨⟩, -, assembled⟩ := except_bind_eq_ok.1 assembled
  cases assembled
  obtain ⟨sameLength, nextId, taken⟩ := taken_parseUnits parsed
  have files_eq : ((units.map SourceUnit.modulePath).zip files).map Prod.snd = files := by
    refine List.map_snd_zip ?_
    rw [List.length_map]
    exact Nat.le_of_eq sameLength
  obtain ⟨-, rfl, knows⟩ := registered_of_registerAll (finish_eq_ok registered)
  obtain ⟨references, reads, rfl⟩ := (resolveAll_eq_ok_iff knows).1 (finish_eq_ok resolved)
  dsimp only
  rw [files_eq]
  refine ⟨parsed, Tree.complete_noted reads ?_⟩
  have ids : references.map (fun reference => reference.1.id) =
      idsOf (typeNames ((units.map SourceUnit.modulePath).zip files)) := by
    have split : references.map (fun reference => reference.1.id) =
        (references.map Prod.fst).map Segment.id := List.map_map.symm
    rw [split, reads.map_fst, List.map_flatMap]
    rfl
  rw [ids]
  exact taken.nodup

/-- **What the types of units are written with**: each of their segments, at any depth, and the path
of its node. -/
def Program.writtenTypes (program : Program) (units : List SourceUnit) :
    List (String × Option Path) :=
  ((Compilation.typeNames ((units.map SourceUnit.modulePath).zip program.files)).flatMap
    fun occurrence => occurrence.2.parts).map
    fun part => (part.text, (program.resolutions.get? part.id).map program.tree.pathOf)

/-- Two units, of which the second names a structure of the first at two depths. -/
def nestedBoxes : List SourceUnit :=
  [⟨["a"], "a", "struct Box<T> { T value; }"⟩, ⟨["b"], "b", "alias Boxes = a.Box<a.Box<int>>;"⟩]

/-- The two units compile. Of the first the type of the field has its node, of the second every
segment at either depth, and these are all. -/
theorem complete_nestedBoxes :
    ∃ program, compileUnits .standard nestedBoxes = .ok program ∧
      program.ParsedFrom nestedBoxes ∧
      program.resolutions.Complete program.tree (Compilation.typeNames
        ((nestedBoxes.map SourceUnit.modulePath).zip program.files)) ∧
      program.writtenTypes nestedBoxes =
        [("T", some ["a", "Box", "T"]), ("a", some ["a"]), ("Box", some ["a", "Box"]),
          ("a", some ["a"]), ("Box", some ["a", "Box"]), ("int", some ["int"])] := by
  have shown : (compileUnits .standard nestedBoxes).toOption.any (fun program => decide
      (program.writtenTypes nestedBoxes =
        [("T", some ["a", "Box", "T"]), ("a", some ["a"]), ("Box", some ["a", "Box"]),
          ("a", some ["a"]), ("Box", some ["a", "Box"]), ("int", some ["int"])])) = true := by
    decide +kernel
  obtain ⟨program, compiled, shown⟩ := exists_ok_of_any shown
  obtain ⟨parsed, complete⟩ := compileUnits_complete compiled
  exact ⟨program, compiled, parsed, complete, of_decide_eq_true shown⟩

end FrontEnd

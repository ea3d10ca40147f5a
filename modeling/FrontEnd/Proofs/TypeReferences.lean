import FrontEnd.Proofs.Symbol.Held
import FrontEnd.Proofs.UnitOrder

/-!
# Where type references end

A segment in type position may lead into a module, since a name can be qualified by modules. The
look-up of a segment does not ask whether a further segment follows, so the last segment of a name
may lead to a module as well, and such a name refers to no type.

**The law** (`compileUnits_lastSegments`): the last segment of a name in type position, also of a name
among arguments at any depth, has the node of a type or of a module, and it is a type exactly when no
unit has its module at the path of the node or below. So where units have no modules every type
reference ends at a type; where they have some it can end at a module (`moduleAsType`).
-/

namespace FrontEnd

/-- **A segment ends a name**: the name of the segments, or one among their arguments at any depth. -/
inductive Ends (part : Segment) : List Segment → Prop
  | here : Ends part [part]
  | later {first : Segment} {rest : List Segment} : Ends part rest → Ends part (first :: rest)
  | inside {first : Segment} {rest : List Segment} {name : Name} : name ∈ first.arguments →
      Ends part name.segments → Ends part (first :: rest)

theorem Ends.mem_parts {part : Segment} {segments : List Segment} (ends : Ends part segments) :
    part ∈ partsOfSegments segments := by
  induction ends with
  | here =>
    rw [partsOfSegments, Segment.parts_eq]
    exact List.mem_append_left _ List.mem_cons_self
  | later _ ih =>
    rw [partsOfSegments]
    exact List.mem_append_right _ ih
  | inside argument _ ih =>
    rw [partsOfSegments, Segment.parts_eq, partsOfNames_eq]
    refine List.mem_append_left _ (List.mem_cons_of_mem _ (List.mem_flatMap.2 ⟨_, argument, ?_⟩))
    rwa [Name.parts_eq]

/-- What ends an argument of a segment ends the name of the segment. -/
theorem Ends.of_mem {part first : Segment} {segments : List Segment} {name : Name}
    (mem : first ∈ segments) (argument : name ∈ first.arguments) (ends : Ends part name.segments) :
    Ends part segments := by
  induction mem with
  | head => exact .inside argument ends
  | tail _ _ ih => exact .later ih

/-- The last of the segments of a name ends it. -/
theorem Ends.of_getLast? {part : Segment} {segments : List Segment}
    (last : segments.getLast? = some part) : Ends part segments := by
  obtain ⟨front, rfl⟩ := List.getLast?_eq_some_iff.1 last
  clear last
  induction front with
  | nil => exact .here
  | cons first rest ih => exact .later ih

/-- **A claim of a type proper**: of a structure, an interface, a synonym, an enumeration or a type
parameter, or of a type that is built in. -/
def Claim.IsTypeProper (claim : Claim) : Prop :=
  claim.kind ∈ [.struct, .interface, .synonym, .enum, .typeParameter] ∨ claim = .builtinType

theorem Claim.IsTypeProper.notModule {claim : Claim} (proper : claim.IsTypeProper) :
    claim.kind ≠ .file := by
  intro isModule
  rcases proper with kind | rfl
  · rw [isModule] at kind
    simp at kind
  · cases isModule

namespace Tree

variable {t : Tree}

/-- What can stand in type position is a type proper or a module. -/
theorem HasType.isTypeProper_or {path : Path} (holds : t.HasType path) {claim : Claim}
    (claimed : t.claimAt? path = some claim) : claim.IsTypeProper ∨ claim.kind = .file := by
  obtain ⟨held, heldThere, kind⟩ := holds
  rw [claimed] at heldThere
  obtain rfl := Option.some.inj heldThere
  rw [Claim.IsTypeProper]
  simp only [List.mem_cons, List.not_mem_nil] at kind ⊢
  tauto

/-- **What a segment refers to has its node**, at a path that can stand in type position. -/
theorem ReadsAll.node_of_mem {names : List (Path × Name)} {references : List (Segment × Path)}
    (reads : t.ReadsAll names references)
    (distinct : (references.map fun reference => reference.1.id).Nodup) {scope : Path} {name : Name}
    (mem : (scope, name) ∈ names) {part : Segment} (inName : part ∈ name.parts) :
    ∃ id node, (Resolutions.empty.insertAll (t.noted references)).get? part.id = some id ∧
      t.node? id = some node ∧ t.claimAt? node.path = some node.claim ∧ t.HasType node.path := by
  have isPart : part ∈ references.map Prod.fst := by
    rw [reads.map_fst]
    exact List.mem_flatMap.2 ⟨_, mem, inName⟩
  obtain ⟨⟨part, path⟩, refers, rfl⟩ := List.mem_map.1 isPart
  obtain ⟨id, noted, stands⟩ := get?_noted_of_mem reads distinct refers
  obtain ⟨node, atId, rfl, claimed⟩ := node?_of_find? stands
  exact ⟨id, node, noted, atId, claimed, (reads.hasType refers).1⟩

end Tree

namespace Compilation

/-- The modules of placed files are those of the units. -/
theorem exists_module_iff {units : List SourceUnit} {start : Nat} {files : List File}
    (parsed : parseUnits start units = .ok files) {holds : Path → Prop} :
    (∃ f ∈ (units.map SourceUnit.modulePath).zip files, holds f.1) ↔
      ∃ unit ∈ units, holds unit.modulePath := by
  obtain ⟨sameLength, -⟩ := taken_parseUnits parsed
  have modules : ((units.map SourceUnit.modulePath).zip files).map Prod.fst =
      units.map SourceUnit.modulePath := by
    refine List.map_fst_zip ?_
    rw [List.length_map]
    exact Nat.le_of_eq sameLength.symm
  calc (∃ f ∈ (units.map SourceUnit.modulePath).zip files, holds f.1)
    _ ↔ ∃ module ∈ ((units.map SourceUnit.modulePath).zip files).map Prod.fst, holds module := by
      simp only [List.mem_map, exists_exists_and_eq_and]
    _ ↔ ∃ unit ∈ units, holds unit.modulePath := by
      rw [modules]
      simp only [List.mem_map, exists_exists_and_eq_and]

end Compilation

open Compilation

/-- **Where type references end.** The last segment of a name in type position, also of a name among
arguments at any depth, has a node of a type or of a module. It is a type exactly when no unit has its
module at the path of the node or below. -/
theorem compileUnits_lastSegments {config : Config} {units : List SourceUnit} {program : Program}
    (compiled : compileUnits config units = .ok program) :
    program.ParsedFrom units ∧ ∀ scope name,
      (scope, name) ∈ typeNames ((units.map SourceUnit.modulePath).zip program.files) →
      ∀ part, Ends part name.segments → ∃ id node, program.resolutions.get? part.id = some id ∧
        program.tree.node? id = some node ∧
        (node.claim.IsTypeProper ∨ node.claim.kind = .file) ∧
        (node.claim.IsTypeProper ↔ ∀ unit ∈ units, ¬ node.path <+: unit.modulePath) := by
  obtain ⟨parsed, ⟨placed, registered⟩, references, reads, distinct, noted⟩ :=
    runs_of_compileUnits compiled
  refine ⟨parsed, fun scope name mem part ends => ?_⟩
  have inName : part ∈ name.parts := by
    rw [Name.parts_eq]
    exact ends.mem_parts
  obtain ⟨id, node, found, atId, claimed, holds⟩ := reads.node_of_mem distinct mem inName
  rw [← noted] at found
  have below : node.path ≠ [] := by
    intro atRoot
    rw [atRoot, claimAt?_root registered, Option.some.injEq] at claimed
    rcases holds.isTypeProper_or (atRoot ▸ claimAt?_root registered) with proper | isModule
    · rcases proper with kind | builtIn
      · simp at kind
      · cases builtIn
    · cases isModule
  have isModule := (isModule_iff registered claimed below).trans (exists_module_iff parsed)
  have kinds := holds.isTypeProper_or claimed
  refine ⟨id, node, found, atId, kinds, ?_⟩
  constructor
  · intro proper unit inUnits within
    exact proper.notModule (isModule.2 ⟨unit, inUnits, within⟩)
  · intro apart
    refine kinds.resolve_right fun kind => ?_
    obtain ⟨unit, inUnits, within⟩ := isModule.1 kind
    exact apart unit inUnits within

/-- Two units, of which the second names a structure of the first in an argument. -/
def boxOfBoxes : List SourceUnit :=
  [⟨["lib"], "lib", "struct Box<T> { T value; }"⟩, ⟨[], "main", "alias Boxes = lib.Box<lib.Box<int>>;"⟩]

/-- The two units compile. The name of the synonym ends at the structure, its argument ends there as
well, and the argument of that one ends at the type that is built in; all of them are types. -/
theorem compileUnits_lastSegments_boxOfBoxes :
    ∃ program, compileUnits .standard boxOfBoxes = .ok program ∧
      program.writtenTypes boxOfBoxes =
        [("T", some ["lib", "Box", "T"]), ("lib", some ["lib"]), ("Box", some ["lib", "Box"]),
          ("lib", some ["lib"]), ("Box", some ["lib", "Box"]), ("int", some ["int"])] ∧
      ∃ scope name outer argument inner deepest innermost,
        (scope, name) ∈ typeNames ((boxOfBoxes.map SourceUnit.modulePath).zip program.files) ∧
        name.segments.getLast? = some outer ∧ argument ∈ outer.arguments ∧
        argument.segments.getLast? = some inner ∧ deepest ∈ inner.arguments ∧
        deepest.segments.getLast? = some innermost ∧
        ∀ part ∈ [outer, inner, innermost], ∃ id node,
          program.resolutions.get? part.id = some id ∧ program.tree.node? id = some node ∧
          (node.claim.IsTypeProper ∨ node.claim.kind = .file) ∧
          (node.claim.IsTypeProper ↔ ∀ unit ∈ boxOfBoxes, ¬ node.path <+: unit.modulePath) := by
  have shown : (compileUnits .standard boxOfBoxes).toOption.any (fun program => decide
      (program.writtenTypes boxOfBoxes =
        [("T", some ["lib", "Box", "T"]), ("lib", some ["lib"]), ("Box", some ["lib", "Box"]),
          ("lib", some ["lib"]), ("Box", some ["lib", "Box"]), ("int", some ["int"])] ∧
      ∃ occurrence ∈ typeNames ((boxOfBoxes.map SourceUnit.modulePath).zip program.files),
        ∃ outer ∈ occurrence.2.segments.getLast?, ∃ argument ∈ outer.arguments,
        ∃ inner ∈ argument.segments.getLast?, ∃ deepest ∈ inner.arguments,
        ∃ innermost ∈ deepest.segments.getLast?, innermost.text = "int")) = true := by
    decide +kernel
  obtain ⟨program, compiled, shown⟩ := exists_ok_of_any shown
  obtain ⟨written, ⟨scope, name⟩, mem, outer, last, argument, isArgument, inner, lastInner, deepest,
    isDeepest, innermost, lastInnermost, -⟩ := of_decide_eq_true shown
  refine ⟨program, compiled, written, scope, name, outer, argument, inner, deepest, innermost, mem,
    last, isArgument, lastInner, isDeepest, lastInnermost, ?_⟩
  have ends : Ends innermost argument.segments :=
    .of_mem (List.mem_of_getLast? lastInner) isDeepest (.of_getLast? lastInnermost)
  intro part isPart
  refine (compileUnits_lastSegments compiled).2 scope name mem part ?_
  simp only [List.mem_cons, List.not_mem_nil, or_false] at isPart
  rcases isPart with rfl | rfl | rfl
  · exact .of_getLast? last
  · exact .of_mem (List.mem_of_getLast? last) isArgument (.of_getLast? lastInner)
  · exact .of_mem (List.mem_of_getLast? last) isArgument ends

/-- A module and a function with a parameter of which the type is the module. -/
def moduleAsType : List SourceUnit :=
  [⟨["geometry"], "geometry.tx", ""⟩, ⟨[], "main.tx", "fn f(geometry g): void { }"⟩]

/-- The two units compile, and the type of the parameter has the node of the module. -/
theorem compileUnits_moduleAsType : ∃ program, compileUnits .standard moduleAsType = .ok program ∧
    ∃ scope name part id node,
      (scope, name) ∈ typeNames ((moduleAsType.map SourceUnit.modulePath).zip program.files) ∧
      Ends part name.segments ∧ program.resolutions.get? part.id = some id ∧
      program.tree.node? id = some node ∧ node.claim.kind = .file := by
  have atModule : (compileUnits .standard moduleAsType).toOption.any (fun program : Program => decide
      (∃ occurrence ∈ typeNames ((moduleAsType.map SourceUnit.modulePath).zip program.files),
        ∃ part ∈ occurrence.2.segments.getLast?, ∃ id ∈ program.resolutions.get? part.id,
        ∃ node ∈ program.tree.node? id, node.claim.kind = .file)) = true := by
    decide +kernel
  obtain ⟨program, compiled, atModule⟩ := exists_ok_of_any atModule
  obtain ⟨⟨scope, name⟩, mem, part, last, id, noted, node, atId, isModule⟩ :=
    of_decide_eq_true atModule
  exact ⟨program, compiled, scope, name, part, id, node, mem, .of_getLast? last, noted, atId,
    isModule⟩

end FrontEnd

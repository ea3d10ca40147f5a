import FrontEnd.Proofs.Declarations
import FrontEnd.Proofs.NothingMissed
import FrontEnd.Proofs.Symbol.ClaimedPaths
import FrontEnd.Proofs.TypeReferences

/-!
# Methods and free functions

Whether a function is a method is asked twice, and not of the same thing. Its body has a receiver
when its name is written with several segments. Other functions are offered its last segment when its
node stands directly in the root or in a module, and which paths are modules is up to all units
together.

**The law** (`compileUnits_methods`): a function of compiled units is offered freely exactly when its
name is a single segment or leads, without its last segment, to the module of some unit. So every
function has a receiver or is offered freely, and it is both where its dotted name leads through a
module (`moduleMethod`): what is written as a method is then called without a receiver.
-/

namespace FrontEnd

/-! ## The node of a function -/

theorem FnDecl.isMethod_eq_false_iff {function : FnDecl} (named : function.name.segments ≠ []) :
    function.isMethod = false ↔ function.name.path.dropLast = [] := by
  have isLength : function.name.path.length = function.name.segments.length := List.length_map _
  have several := List.length_pos_iff.2 named
  rw [← List.length_eq_zero_iff, List.length_dropLast, isLength, FnDecl.isMethod,
    decide_eq_false_iff_not]
  omega

/-- The names that the body of a function starts with hold `this` for the receiver of a method, and
for what else is named so. -/
theorem FnDecl.contains_this_iff {function : FnDecl} {t : Tree} :
    (function.baseFrame t).contains "this" = true ↔ function.isMethod = true ∨
      "this" ∈ function.inputs.map Parameter.name ∨ "this" ∈ t.globals := by
  have own : "this" ∈ (if function.isMethod then ["this"] else []) ↔ function.isMethod = true := by
    split
    next isMethod => exact iff_of_true List.mem_cons_self isMethod
    next isFree => exact iff_of_false List.not_mem_nil isFree
  simp only [baseFrame, Frame.contains, List.contains_eq_mem, decide_eq_true_eq, List.mem_append,
    own]
  tauto

theorem File.mem_functions_iff {file : File} {function : FnDecl} :
    function ∈ file.functions ↔ .function function ∈ file.declarations := by
  rw [functions, List.mem_filterMap]
  constructor
  · rintro ⟨d, declared, same⟩
    cases d with
    | function f => cases same; exact declared
    | _ => cases same
  · intro declared
    exact ⟨_, declared, rfl⟩

/-- The name of a function of a file is a name of the file. -/
theorem File.mem_names_of_mem_functions {file : File} {function : FnDecl}
    (mem : function ∈ file.functions) : function.name ∈ file.names := by
  have heads : function.name ∈ (Decl.function function).headNames := List.mem_cons_self
  exact List.mem_flatMap.2 ⟨_, mem_functions_iff.1 mem, List.mem_append_left _ heads⟩

/-- A function claims its dotted path. -/
theorem File.mem_claims_of_mem_functions {file : File} {function : FnDecl}
    (mem : function ∈ file.functions) :
    ⟨function.name.path, .declared .function function.span.start function.parameters.length⟩ ∈
      file.claims :=
  List.mem_flatMap.2 ⟨_, mem_functions_iff.1 mem, List.mem_cons_self⟩

namespace Tree

variable {t : Tree} {node : Node}

/-- **A function is offered** where its node stands directly in the root or in a module. -/
theorem isGlobal_function_iff (isFunction : node.claim.kind = .function) (below : node.path ≠ []) :
    t.isGlobal node = true ↔ t.isModule node.path.dropLast = true := by
  rw [isGlobal, isFunction]
  simp only [Bool.and_eq_true, Bool.not_eq_true', List.isEmpty_eq_false_iff, and_iff_right below]

end Tree

namespace Compilation

variable {config : Config} {files : List (Path × File)} {placed : List Placed} {t : Tree}

/-- **A path is the root or a module** exactly when it leads to the module of a file. -/
theorem isModule_iff_prefix (run : registerAll config files .empty = .ok placed t) {path : Path} :
    t.isModule path = true ↔ path = [] ∨ ∃ f ∈ files, path <+: f.1 := by
  rw [Tree.isModule_iff]
  by_cases atRoot : path = []
  · exact iff_of_true (.inl atRoot) (.inl atRoot)
  rw [or_iff_right atRoot, or_iff_right atRoot]
  constructor
  · rintro ⟨claim, claimed, isModule⟩
    exact (isModule_iff run claimed atRoot).1 isModule
  · rintro ⟨f, mem, within⟩
    obtain ⟨module, registered, isModule⟩ := Registration.exists_ofModule f.2.file within atRoot
    obtain ⟨held, claimed, -⟩ := (leads_of_registerAll run).holds
      (List.mem_append_left _ (List.mem_flatMap.2 ⟨f, mem, List.mem_append_left _ registered⟩))
      (by rw [isModule]; decide)
    exact ⟨held, claimed, (isModule_iff run claimed atRoot).2 ⟨f, mem, within⟩⟩

/-- A function of a unit holds the claim of a function at its dotted path. -/
theorem claimAt?_function {units : List SourceUnit} {files : List File}
    (run : registerAll config ((units.map SourceUnit.modulePath).zip files) .empty = .ok placed t)
    {unit : SourceUnit} {file : File} (inUnits : (unit, file) ∈ units.zip files)
    {function : FnDecl} (mem : function ∈ file.functions) :
    ∃ claim, t.claimAt? (unit.modulePath ++ function.name.path) = some claim ∧
      claim.kind = .function := by
  have declared : (Registration.mk function.name.path (.declared .function function.span.start
      function.parameters.length)).below unit.modulePath ∈ declarations (units.zip files) :=
    List.mem_flatMap.2
      ⟨_, inUnits, List.mem_map_of_mem (File.mem_claims_of_mem_functions mem)⟩
  have ofSource := declarations_ofSource declared
  have claimed := (leads_of_registerAll run).claimAt?_eq (mem_registrations declared) ofSource
  exact ⟨_, claimed, rfl⟩

end Compilation

open Compilation

/-- **Which functions are methods and which are free.** Every function of compiled units has its node
at the path of its name below its module. Its body sees `this` when its name has several segments, or
when `this` is a parameter or the name of something that is offered. It is offered itself when its
name is a single segment, or when the name without its last segment leads to the module of a unit. -/
theorem compileUnits_methods {config : Config} {units : List SourceUnit} {program : Program}
    (compiled : compileUnits config units = .ok program) :
    program.ParsedFrom units ∧
      ∀ unit file, (unit, file) ∈ units.zip program.files → ∀ function ∈ file.functions,
        ∃ id node, program.tree.find? (unit.modulePath ++ function.name.path) = some id ∧
          program.tree.node? id = some node ∧ node.claim.kind = .function ∧
          ((function.baseFrame program.tree).contains "this" = true ↔ function.isMethod = true ∨
            "this" ∈ function.inputs.map Parameter.name ∨ "this" ∈ program.tree.globals) ∧
          (program.tree.isGlobal node = true ↔ function.isMethod = false ∨
            ∃ other ∈ units,
              unit.modulePath ++ function.name.path.dropLast <+: other.modulePath) := by
  obtain ⟨parsed, ⟨placed, registered⟩, -⟩ := runs_of_compileUnits compiled
  refine ⟨parsed, fun unit file inUnits function mem => ?_⟩
  have named : function.name.segments ≠ [] := by
    have rooted := rooted_of_parseUnits parsed file (List.of_mem_zip inUnits).2 function.name
      (File.mem_names_of_mem_functions mem)
    cases rooted with
    | mk isRooted => exact isRooted
  have spelled : function.name.path ≠ [] := fun none => named (List.map_eq_nil_iff.1 none)
  obtain ⟨claim, claimed, isFunction⟩ := claimAt?_function registered inUnits mem
  obtain ⟨id, found⟩ := Option.isSome_iff_exists.1
    (Tree.find?_isSome_iff.2 (Tree.mem_paths_iff.2 ⟨claim, claimed⟩))
  obtain ⟨node, atId, stands, holds⟩ := Tree.node?_of_find? found
  obtain rfl : node.claim = claim := Option.some.inj (holds.symm.trans claimed)
  refine ⟨id, node, found, atId, isFunction, FnDecl.contains_this_iff, ?_⟩
  have below : node.path ≠ [] := stands ▸ List.append_ne_nil_of_right_ne_nil _ spelled
  rw [Tree.isGlobal_function_iff isFunction below, isModule_iff_prefix registered,
    exists_module_iff parsed, stands, List.dropLast_append_of_ne_nil spelled,
    FnDecl.isMethod_eq_false_iff named, List.append_eq_nil_iff]
  constructor
  · rintro (⟨-, single⟩ | within)
    · exact .inl single
    · exact .inr within
  · rintro (single | within)
    · -- The name leads to the module of its own unit.
      refine .inr ⟨unit, (List.of_mem_zip inUnits).1, ?_⟩
      rw [single, List.append_nil]
    · exact .inr within

/-- A module with a structure and its method, and a function of another unit that calls it. -/
def boxWithMethod : List SourceUnit :=
  [⟨["lib"], "lib.tx", "struct Box { int n; } fn Box.size(): int { return this.n; }"⟩,
    ⟨[], "main.tx", "fn sizeOf(lib.Box box): int { return box.size(); }"⟩]

/-- The two units compile, and the method is no free function, nor the function a method: it sees
`this` and is not offered, while the other one is offered and sees none. -/
theorem compileUnits_methods_boxWithMethod :
    ∃ program, compileUnits .standard boxWithMethod = .ok program ∧
      ((∃ unit file, (unit, file) ∈ boxWithMethod.zip program.files ∧ ∃ function ∈ file.functions,
        function.name.path = ["Box", "size"] ∧
        (function.baseFrame program.tree).contains "this" = true ∧ ∃ id node,
          program.tree.find? (unit.modulePath ++ function.name.path) = some id ∧
          program.tree.node? id = some node ∧ node.claim.kind = .function ∧
          program.tree.isGlobal node = false) ∧
      ∃ unit file, (unit, file) ∈ boxWithMethod.zip program.files ∧ ∃ function ∈ file.functions,
        function.name.path = ["sizeOf"] ∧
        (function.baseFrame program.tree).contains "this" = false ∧ ∃ id node,
          program.tree.find? (unit.modulePath ++ function.name.path) = some id ∧
          program.tree.node? id = some node ∧ node.claim.kind = .function ∧
          program.tree.isGlobal node = true) := by
  have shown : (compileUnits .standard boxWithMethod).toOption.any (fun program : Program => decide
      ("this" ∉ program.tree.globals ∧
      (∃ placed ∈ boxWithMethod.zip program.files, ∃ function ∈ placed.2.functions,
        function.name.path = ["Box", "size"] ∧ function.isMethod = true ∧
        ∀ other ∈ boxWithMethod,
          ¬ placed.1.modulePath ++ function.name.path.dropLast <+: other.modulePath) ∧
      ∃ placed ∈ boxWithMethod.zip program.files, ∃ function ∈ placed.2.functions,
        function.name.path = ["sizeOf"] ∧ function.isMethod = false ∧
        "this" ∉ function.inputs.map Parameter.name)) = true := by
    decide +kernel
  obtain ⟨program, compiled, shown⟩ := exists_ok_of_any shown
  obtain ⟨noGlobal, ⟨⟨unit, file⟩, inUnits, method, mem, path, isMethod, apart⟩,
    ⟨unitToo, fileToo⟩, inUnitsToo, function, memToo, pathToo, isFree, noInput⟩ :=
    of_decide_eq_true shown
  obtain ⟨-, kinds⟩ := compileUnits_methods compiled
  refine ⟨program, compiled, ⟨unit, file, inUnits, method, mem, path, ?_⟩, unitToo, fileToo,
    inUnitsToo, function, memToo, pathToo, ?_⟩
  · obtain ⟨id, node, found, atId, isFunction, sees, offered⟩ := kinds unit file inUnits method mem
    refine ⟨sees.2 (.inl isMethod), id, node, found, atId, isFunction, ?_⟩
    rw [Bool.eq_false_iff, Ne, offered, isMethod]
    rintro (free | ⟨other, among, leads⟩)
    · cases free
    · exact apart other among leads
  · obtain ⟨id, node, found, atId, isFunction, sees, offered⟩ :=
      kinds unitToo fileToo inUnitsToo function memToo
    refine ⟨?_, id, node, found, atId, isFunction, offered.2 (.inl isFree)⟩
    rw [Bool.eq_false_iff, Ne, sees, isFree]
    rintro (method | input | global)
    · cases method
    · exact noInput input
    · exact noGlobal global

/-- A module, and a function of another unit with a dotted name that leads through the module. -/
def moduleMethod : List SourceUnit :=
  [⟨["geometry"], "geometry.tx", ""⟩,
    ⟨[], "main.tx", "fn geometry.area(): int { return this; } fn f(): int { return area(); }"⟩]

/-- The two units compile, and a function with a receiver is offered freely. -/
theorem compileUnits_moduleMethod : ∃ program, compileUnits .standard moduleMethod = .ok program ∧
    ∃ unit file, (unit, file) ∈ moduleMethod.zip program.files ∧ ∃ function ∈ file.functions,
      ∃ id node, program.tree.find? (unit.modulePath ++ function.name.path) = some id ∧
        program.tree.node? id = some node ∧
        (function.baseFrame program.tree).contains "this" = true ∧
        program.tree.isGlobal node = true := by
  have isBoth : (compileUnits .standard moduleMethod).toOption.any (fun program : Program => decide
      (∃ placed ∈ moduleMethod.zip program.files, ∃ function ∈ placed.2.functions,
        ∃ id ∈ program.tree.find? (placed.1.modulePath ++ function.name.path),
        ∃ node ∈ program.tree.node? id, (function.baseFrame program.tree).contains "this" = true ∧
          program.tree.isGlobal node = true)) = true := by
    decide +kernel
  obtain ⟨program, compiled, isBoth⟩ := exists_ok_of_any isBoth
  obtain ⟨⟨unit, file⟩, inUnits, function, mem, id, found, node, atId, hasReceiver, isOffered⟩ :=
    of_decide_eq_true isBoth
  exact ⟨program, compiled, unit, file, inUnits, function, mem, id, node, found, atId, hasReceiver,
    isOffered⟩

end FrontEnd

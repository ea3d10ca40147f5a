import FrontEnd.Proofs.Program.Occurrence
import FrontEnd.Proofs.UnitOrder

/-!
# Which uses a compilation checks

The scope check is handed the functions of a file, and with them every expression of every statement
in their bodies. The initial values of the fields of a structure stand in no function. Registration
takes of a field its name and its place, resolution takes its type, and no stage takes its initial
value.

**The law** (`compileUnits_uses`): in units that compile every use in the body of a function is
visible where it stands. Of the uses in the initial values of fields nothing is asked: whatever
values stand there, the files amount to the same tree and the same resolutions. So units compile in
which such a use names nothing at all (`compile_unknownInitial`).
-/

namespace FrontEnd

/-! ## The initial values of fields -/

/-- A field without its initial value. -/
def Field.withoutInitial (field : Field) : Field :=
  { field with initial := none }

mutual
/-- A structure without the initial values of its fields and of those inside it. -/
def StructDecl.withoutInitials : StructDecl → StructDecl
  | ⟨isClosed, name, parameters, bases, fields, inner, span⟩ =>
    ⟨isClosed, name, parameters, bases, fields.map Field.withoutInitial,
      StructDecl.allWithoutInitials inner, span⟩
/-- Structures without the initial values of their fields. -/
def StructDecl.allWithoutInitials : List StructDecl → List StructDecl
  | [] => []
  | struct :: rest => struct.withoutInitials :: StructDecl.allWithoutInitials rest
end

/-- A declaration without initial values of fields. -/
def Decl.withoutInitials : Decl → Decl
  | .struct d => .struct d.withoutInitials
  | .function d => .function d
  | .interface d => .interface d
  | .synonym d => .synonym d
  | .enum d => .enum d

/-- **A file without the initial values of its fields.** -/
def File.withoutInitials (file : File) : File :=
  { file with declarations := file.declarations.map Decl.withoutInitials }

mutual
theorem StructDecl.withoutInitials_withoutInitials (d : StructDecl) :
    d.withoutInitials.withoutInitials = d.withoutInitials := by
  cases d with
  | mk isClosed name parameters bases fields inner span =>
    have ofInner := allWithoutInitials_allWithoutInitials inner
    simp only [withoutInitials, ofInner, List.map_map]
    rfl
theorem StructDecl.allWithoutInitials_allWithoutInitials (ds : List StructDecl) :
    allWithoutInitials (allWithoutInitials ds) = allWithoutInitials ds := by
  cases ds with
  | nil => rfl
  | cons first rest =>
    simp only [allWithoutInitials, withoutInitials_withoutInitials first,
      allWithoutInitials_allWithoutInitials rest]
end

/-- A file without initial values has none to lose. -/
theorem File.withoutInitials_withoutInitials (file : File) :
    file.withoutInitials.withoutInitials = file.withoutInitials := by
  rw [withoutInitials, withoutInitials, List.map_map]
  congr 1
  refine List.map_congr_left fun d _ => ?_
  cases d with
  | struct d => exact congrArg Decl.struct d.withoutInitials_withoutInitials
  | _ => rfl

/-! ## What a file asks and claims without them -/

section WithoutInitials

variable (module : Path) (file : File)

mutual
theorem Registration.ofStruct_withoutInitials (owner : Path) (d : StructDecl) :
    ofStruct owner d.withoutInitials = ofStruct owner d := by
  cases d with
  | mk isClosed name parameters bases fields inner span =>
    have ofInner := ofStructs_withoutInitials (owner ++ [name]) inner
    simp only [StructDecl.withoutInitials, ofStruct, ofInner, ofFields, List.map_map]
    rfl
theorem Registration.ofStructs_withoutInitials (owner : Path) (ds : List StructDecl) :
    ofStructs owner (StructDecl.allWithoutInitials ds) = ofStructs owner ds := by
  cases ds with
  | nil => rfl
  | cons first rest =>
    rw [StructDecl.allWithoutInitials, ofStructs, ofStructs, ofStruct_withoutInitials owner first,
      ofStructs_withoutInitials owner rest]
end

mutual
theorem Demand.ofStruct_withoutInitials (owner : Path) (d : StructDecl) :
    ofStruct owner d.withoutInitials = ofStruct owner d := by
  cases d with
  | mk isClosed name parameters bases fields inner span =>
    have ofInner := ofStructs_withoutInitials (owner ++ [name]) inner
    simp only [StructDecl.withoutInitials, ofStruct, ofInner, List.map_map]
    rfl
theorem Demand.ofStructs_withoutInitials (owner : Path) (ds : List StructDecl) :
    ofStructs owner (StructDecl.allWithoutInitials ds) = ofStructs owner ds := by
  cases ds with
  | nil => rfl
  | cons first rest =>
    rw [StructDecl.allWithoutInitials, ofStructs, ofStructs, ofStruct_withoutInitials owner first,
      ofStructs_withoutInitials owner rest]
end

mutual
theorem StructDecl.initials_withoutInitials (d : StructDecl) : d.withoutInitials.initials = [] := by
  cases d with
  | mk isClosed name parameters bases fields inner span =>
    have ofInner := initialsOf_withoutInitials inner
    rw [withoutInitials, initials, ofInner, List.append_nil, List.filterMap_map,
      List.filterMap_eq_nil_iff]
    intro field _
    rfl
theorem StructDecl.initialsOf_withoutInitials (ds : List StructDecl) :
    initialsOf (allWithoutInitials ds) = [] := by
  cases ds with
  | nil => rfl
  | cons first rest =>
    rw [allWithoutInitials, initialsOf, initials_withoutInitials first,
      initialsOf_withoutInitials rest, List.append_nil]
end

/-- Nothing is left of the initial values of a file. -/
theorem File.initials_withoutInitials : file.withoutInitials.initials = [] := by
  rw [initials, withoutInitials, List.flatMap_map, List.flatMap_eq_nil_iff]
  intro d _
  cases d with
  | struct d => exact d.initials_withoutInitials
  | _ => rfl

/-- What a file claims does not depend on initial values. -/
theorem File.claims_withoutInitials : file.withoutInitials.claims = file.claims := by
  rw [claims, withoutInitials, List.flatMap_map]
  congr 1
  funext d
  cases d with
  | struct d => exact Registration.ofStruct_withoutInitials [] d
  | _ => rfl

/-- What a file asks to be resolved does not depend on initial values. -/
theorem File.demands_withoutInitials :
    file.withoutInitials.demands module = file.demands module := by
  rw [demands, withoutInitials, List.flatMap_map]
  congr 1
  funext d
  cases d with
  | struct d => exact Demand.ofStruct_withoutInitials module d
  | _ => rfl

/-- The functions of a file do not depend on initial values. -/
theorem File.functions_withoutInitials : file.withoutInitials.functions = file.functions := by
  rw [functions, withoutInitials, List.filterMap_map]
  congr 1
  funext d
  cases d <;> rfl

end WithoutInitials

/-! ## What files amount to without them -/

/-- A file at its module without the initial values of its fields. -/
def Placed.withoutInitials (placed : Placed) : Placed :=
  ⟨placed.module, placed.file.withoutInitials⟩

/-- What files amount to, without the initial values of their fields. -/
def Program.withoutInitials (program : Program) : Program :=
  { program with files := program.files.map File.withoutInitials }

namespace Compilation

/-- Files at their modules without the initial values of their fields. -/
def withoutInitials (files : List (Path × File)) : List (Path × File) :=
  files.map fun f => (f.1, f.2.withoutInitials)

theorem withoutInitials_zip (modules : List Path) (files : List File) :
    withoutInitials (modules.zip files) = modules.zip (files.map File.withoutInitials) := by
  rw [List.zip_map_right]
  rfl

theorem register_withoutInitials (module : Path) (file : File) :
    Tree.register module file.withoutInitials = Tree.register module file := by
  unfold Tree.register
  rw [File.claims_withoutInitials]
  rfl

theorem registerUnits_withoutInitials (files : List (Path × File)) :
    registerUnits (withoutInitials files) =
      List.map Placed.withoutInitials <$> registerUnits files := by
  induction files with
  | nil => rfl
  | cons first rest ih =>
    obtain ⟨module, file⟩ := first
    rw [withoutInitials] at ih
    rw [withoutInitials, List.map_cons]
    simp only [registerUnits, register_withoutInitials, ih, map_bind, bind_map_left, map_pure,
      List.map_cons, Placed.withoutInitials]

theorem registerAll_withoutInitials (config : Config) (files : List (Path × File)) :
    registerAll config (withoutInitials files) =
      List.map Placed.withoutInitials <$> registerAll config files := by
  simp only [registerAll, registerUnits_withoutInitials, map_bind, bind_map_left, map_pure]

theorem resolveAll_withoutInitials (t : Tree) (placed : List Placed) :
    resolveAll t (placed.map Placed.withoutInitials) = resolveAll t placed := by
  simp only [resolveAll, List.forM_eq_forM, List.forM_map, Placed.withoutInitials, Tree.resolve,
    File.demands_withoutInitials]

theorem checkAll_withoutInitials (t : Tree) (placed : List Placed) :
    checkAll t (placed.map Placed.withoutInitials) = checkAll t placed := by
  simp only [checkAll, List.forM_eq_forM, List.forM_map, Placed.withoutInitials,
    File.functions_withoutInitials]

theorem finish_map {σ α β : Type} (action : EStateM Diagnostic σ α) (f : α → β) (state : σ) :
    finish (f <$> action) state = Prod.map f id <$> finish action state := by
  change finish (EStateM.map f action) state = _
  simp only [finish, EStateM.run, EStateM.map]
  cases action state <;> rfl

/-- **What files amount to does not depend on initial values**: without them they amount to the same,
or are refused with the same diagnostic. -/
theorem assemble_withoutInitials (config : Config) (files : List (Path × File)) :
    assemble config (withoutInitials files) =
      Program.withoutInitials <$> assemble config files := by
  have written : (withoutInitials files).map Prod.snd =
      (files.map Prod.snd).map File.withoutInitials := by
    rw [withoutInitials, List.map_map, List.map_map]
    rfl
  simp only [assemble, registerAll_withoutInitials, finish_map, written, bind_map_left, Prod.map_fst,
    Prod.map_snd, id, resolveAll_withoutInitials, checkAll_withoutInitials, map_bind, map_pure,
    Program.withoutInitials]

end Compilation

namespace Tree

/-- Every use in the body of a function that passes the check is visible where it stands. -/
theorem sees_of_checkScopes {t : Tree} {module : Path} {function : FnDecl}
    (checked : t.checkScopes module function = .ok ()) {before : List Stmt} {inLoop : Bool}
    {stmt : Stmt} {value : Expr} {use : Use} (stands : StandsIn function.body before inLoop stmt)
    (mem : value ∈ stmt.values) (mentions : value.Mentions use) :
    function.Sees t module before use := by
  have allows := checkScopes_eq_ok_iff_allows.1 checked before inLoop stmt stands
  exact FnDecl.sees_iff.2 (allows.uses value mem use mentions)

end Tree

open Compilation in
/-- **What a compilation asks of uses.** In units that compile every use in the body of a function,
in its statements at any depth, is visible where it stands. Of uses in the initial values of fields
nothing is asked: files that differ in these alone amount to the same tree and resolutions. -/
theorem compileUnits_uses {config : Config} {units : List SourceUnit} {program : Program}
    (compiled : compileUnits config units = .ok program) :
    program.ParsedFrom units ∧
    (∀ module file, (module, file) ∈ (units.map SourceUnit.modulePath).zip program.files →
      ∀ function ∈ file.functions, ∀ before inLoop stmt value use,
        StandsIn function.body before inLoop stmt → value ∈ stmt.values → value.Mentions use →
        function.Sees program.tree module before use) ∧
    ∀ others : List File,
      others.map File.withoutInitials = program.files.map File.withoutInitials →
      assemble config ((units.map SourceUnit.modulePath).zip others) =
        .ok ⟨others, program.tree, program.resolutions⟩ := by
  obtain ⟨parsed, -⟩ := runs_of_compileUnits compiled
  obtain ⟨-, assembled⟩ := compileUnits_eq_ok_iff.1 compiled
  obtain ⟨-, checks, -, files_eq⟩ := assemble_eq_ok_iff.1 assembled
  have zipped : (units.map SourceUnit.modulePath).zip program.files = numbered 0 units := by
    rw [files_eq, zip_numbered]
  refine ⟨parsed, ?_, ?_⟩
  · intro module file mem function isFunction before inLoop stmt value use stands isValue mentions
    rw [zipped] at mem
    exact Tree.sees_of_checkScopes (checks _ mem function isFunction) stands isValue mentions
  · intro others same
    have fits : others.length ≤ (units.map SourceUnit.modulePath).length := by
      have length := congrArg List.length same
      have zippedLength := congrArg List.length zipped
      have filesLength := congrArg List.length files_eq
      simp only [List.length_map, List.length_zip] at length zippedLength filesLength
      simp only [List.length_map]
      omega
    have bare : withoutInitials ((units.map SourceUnit.modulePath).zip others) =
        withoutInitials (numbered 0 units) := by
      rw [← zipped, withoutInitials_zip, withoutInitials_zip, same]
    have alike := assemble_withoutInitials config ((units.map SourceUnit.modulePath).zip others)
    rw [bare, assemble_withoutInitials, assembled] at alike
    cases amounts : assemble config ((units.map SourceUnit.modulePath).zip others) with
    | error diagnostic =>
      rw [amounts] at alike
      cases alike
    | ok further =>
      rw [amounts] at alike
      have bareToo : program.withoutInitials = further.withoutInitials := Except.ok.inj alike
      obtain ⟨-, -, -, others_eq⟩ := assemble_eq_ok_iff.1 amounts
      rw [List.map_snd_zip fits] at others_eq
      obtain ⟨files, tree, resolutions⟩ := further
      obtain rfl : files = others := others_eq
      obtain rfl : program.tree = tree := congrArg Program.tree bareToo
      obtain rfl : program.resolutions = resolutions := congrArg Program.resolutions bareToo
      rfl

/-- A parameter, a variable and a function that are used in a block where they are visible, and a
field whose initial value names nothing. -/
def countUnits : List SourceUnit :=
  [⟨["m"], "m", "struct A { int x = y; } fn f(int n): int { int m = n; loop (true) { m + f(n); } }"⟩]

/-- In a unit with a function that uses a parameter, a variable and itself inside a loop all three
are visible there, while the field beside it has an initial value and amounts to the same without. -/
theorem compileUnits_uses_countUnits :
    ∃ program, compileUnits .standard countUnits = .ok program ∧
      (∀ name ∈ ["m", "f", "n"], ∃ module file,
        (module, file) ∈ (countUnits.map SourceUnit.modulePath).zip program.files ∧
        ∃ function ∈ file.functions, ∃ before stmt value use,
          StandsIn function.body before true stmt ∧ value ∈ stmt.values ∧ value.Mentions use ∧
          use.name = name ∧ function.Sees program.tree module before use) ∧
      ∃ others : List File, others ≠ program.files ∧
        Compilation.assemble .standard ((countUnits.map SourceUnit.modulePath).zip others) =
          .ok ⟨others, program.tree, program.resolutions⟩ := by
  have shown : (compileUnits .standard countUnits).toOption.any (fun program : Program =>
      (["m", "f", "n"].all fun name =>
        ((countUnits.map SourceUnit.modulePath).zip program.files).any fun placed =>
          placed.2.functions.any fun function => function.body.any fun loop =>
            loop.blocks.any fun block => block.2 && block.1.any fun stmt =>
              stmt.values.any fun value => value.uses.any fun use => use.name = name) &&
      !(program.files.flatMap File.initials).isEmpty) = true := by
    decide +kernel
  obtain ⟨program, compiled, shown⟩ := exists_ok_of_any shown
  simp only [Bool.and_eq_true, List.all_eq_true, List.any_eq_true, decide_eq_true_eq,
    Bool.not_eq_true', List.isEmpty_eq_false_iff] at shown
  obtain ⟨uses, hasInitials⟩ := shown
  obtain ⟨-, sees, same⟩ := compileUnits_uses compiled
  refine ⟨program, compiled, ?_, program.files.map File.withoutInitials, ?_, same _ ?_⟩
  · intro name isUsed
    obtain ⟨⟨module, file⟩, mem, function, isFunction, loop, isOuter, ⟨block, _⟩, isBlock,
      rfl, stmt, inBlock, value, isValue, use, isUse, isNamed⟩ := uses name isUsed
    obtain ⟨front, back, body_eq⟩ := List.append_of_mem isOuter
    obtain ⟨before, behind, rfl⟩ : ∃ before behind, block = before ++ stmt :: behind :=
      List.append_of_mem inBlock
    have stands : StandsIn function.body (front ++ before) true stmt := by
      have inBody : StandsIn (before ++ stmt :: behind) before false stmt := .here
      rw [body_eq]
      exact .inside isBlock inBody
    have mentions := Expr.mem_uses_iff.1 isUse
    exact ⟨module, file, mem, function, isFunction, _, stmt, value, use, stands, isValue, mentions,
      isNamed, sees module file mem function isFunction _ true stmt value use stands isValue mentions⟩
  · intro alike
    refine hasInitials ?_
    rw [← alike, List.flatMap_map, List.flatMap_eq_nil_iff]
    intro file _
    exact file.initials_withoutInitials
  · rw [List.map_map]
    exact List.map_congr_left fun file _ => file.withoutInitials_withoutInitials

/-- **A source compiles though a use in it names nothing**: the initial value of a field mentions a
symbol, and no node of the tree has its name; nor is it a parameter, a variable or a receiver, for
the file has no function. -/
theorem compile_unknownInitial :
    ∃ program file value use, compile .standard none "struct A { int x = y; }" = .ok program ∧
      program.files = [file] ∧ value ∈ file.initials ∧ value.Mentions use ∧
      use = ⟨"y", ⟨19, 1, "shell"⟩, false⟩ ∧ file.functions = [] ∧
      ∀ node ∈ program.tree.nodes, node.segment ≠ use.name := by
  have ok : (compile .standard none "struct A { int x = y; }").toOption.any (fun program =>
      program.files.length = 1 && program.files.all (fun file => file.functions.isEmpty &&
        file.initials.any fun value => ⟨"y", ⟨19, 1, "shell"⟩, false⟩ ∈ value.uses) &&
        program.tree.nodes.all fun node => node.segment ≠ "y") = true := by
    decide +kernel
  obtain ⟨program, compiled, found⟩ := exists_ok_of_any ok
  simp only [Bool.and_eq_true, List.all_eq_true, List.any_eq_true, decide_eq_true_eq,
    List.isEmpty_iff] at found
  obtain ⟨⟨single, files⟩, nodes⟩ := found
  obtain ⟨file, files_eq⟩ := List.length_eq_one_iff.1 single
  obtain ⟨noFunction, value, isInitial, mem⟩ := files file (by rw [files_eq]; simp)
  exact ⟨program, file, value, _, compiled, files_eq, isInitial, Expr.mem_uses_iff.1 mem, rfl,
    noFunction, nodes⟩

end FrontEnd

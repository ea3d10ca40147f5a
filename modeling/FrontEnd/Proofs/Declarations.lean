import FrontEnd.Proofs.Grammar.CarryingFile
import FrontEnd.Proofs.Grammar.Placing
import FrontEnd.Proofs.Program.Relabelled
import FrontEnd.Proofs.Symbol.Held
import FrontEnd.Proofs.UnitOrder

/-!
# Which declarations can share a path

A path is claimed again without a fault by a claim that is equal to the one it holds. The claim of a
declaration is its kind, its position and the number of its type arguments, and nothing of what it
declares. Inside one unit no two claims have one position. So declarations at one path are told apart
unless they stand in units with the same file name, at the same place, and are of the same kind with
as many type arguments.

**The law** (`compileUnits_declarations`): the declarations of compiled units at one path make the
same claim, none stands at the name of what is built in, and their paths are all different exactly
when units with the same file name declare nothing in common. Units that share no file name have all
their declarations at different paths; units that do can hide one declaration behind another
(`shadowedField`).
-/

namespace FrontEnd

/-! ## The file of a position -/

/-- The relabelling that moves every position into a file. -/
def Relabel.into (name : String) : Relabel :=
  ⟨fun id => id, fun p => { p with file := name }, fun file => file⟩

theorem Relabel.position_into {name : String} {p : Position} (inFile : p.file = name) :
    (into name).position p = p := by
  cases inFile
  rfl

/-- A file that a text is parsed to stays as it is when it is moved into its own file: the tokens are
not touched by the move. -/
theorem File.relabel_into {name text : String} {tokens : List Token} {firstId nextId : Nat}
    {file : File} (scanned : Token.ofText name text = .ok tokens)
    (parsed : File.ofTokens tokens firstId = .ok (file, nextId)) :
    file.relabel (.into name) = file := by
  have covers := (Token.laid_of_scan scanned).covers
  have entered : (Relabel.into name).cursor (.ofTokens tokens firstId) = .ofTokens tokens firstId := by
    apply Relabel.cursor_eq_self _ rfl rfl
    intro token mem
    rw [Cursor.tokens_ofTokens covers] at mem
    obtain ⟨start, stop⟩ := covers.exact token (List.mem_of_mem_filter mem)
    rw [Relabel.token, Relabel.span, Relabel.position_into start.file,
      Relabel.position_into stop.file]
  exact (File.ofTokens_eq_self (fun _ => rfl) entered).1 file nextId parsed

/-- **The claims of a file stand in it** when it is parsed from a text. -/
theorem File.position_file_claims {name text : String} {tokens : List Token} {firstId nextId : Nat}
    {file : File} (scanned : Token.ofText name text = .ok tokens)
    (parsed : File.ofTokens tokens firstId = .ok (file, nextId)) {r : Registration}
    (mem : r ∈ file.claims) : r.claim.value.position.file = name := by
  have claims := File.claims_relabel (.into name) file
  rw [File.relabel_into scanned parsed] at claims
  rw [claims] at mem
  obtain ⟨⟨path, claim⟩, inFile, rfl⟩ := List.mem_map.1 mem
  cases File.claims_ofSource inFile
  rfl

/-! ## Declarations on whole paths -/

/-- **The declarations of a file at a module**, each on its whole path: what stands at top level and
all that is declared inside it. -/
def File.claimsAt (module : Path) (file : File) : List Registration :=
  file.claims.map (.below module)

namespace Compilation

open Registration

/-- The declarations of units, each with its file. -/
def declarations (units : List (SourceUnit × File)) : List Registration :=
  units.flatMap fun u => u.2.claimsAt u.1.modulePath

theorem declarations_ofSource {units : List (SourceUnit × File)} {r : Registration}
    (mem : r ∈ declarations units) : r.claim.OfSource := by
  obtain ⟨u, -, mem⟩ := List.mem_flatMap.1 mem
  obtain ⟨claimed, inFile, rfl⟩ := List.mem_map.1 mem
  have ofSource : claimed.claim.OfSource := File.claims_ofSource inFile
  exact ofSource

/-- The declarations of units are among what is registered. -/
theorem mem_registrations {config : Config} {units : List SourceUnit} {files : List File}
    {r : Registration} (mem : r ∈ declarations (units.zip files)) :
    r ∈ registrations config ((units.map SourceUnit.modulePath).zip files) := by
  obtain ⟨u, inUnits, mem⟩ := List.mem_flatMap.1 mem
  refine List.mem_append_left _ (List.mem_flatMap.2 ⟨(u.1.modulePath, u.2), ?_, ?_⟩)
  · rw [List.zip_map_left]
    exact List.mem_map_of_mem (f := Prod.map SourceUnit.modulePath id) inUnits
  · exact List.mem_append_right _ mem

section Registered

variable {config : Config} {units : List SourceUnit} {files : List File} {placed : List Placed}
  {t : Tree}
  (registered : registerAll config ((units.map SourceUnit.modulePath).zip files) .empty =
    .ok placed t)

include registered

/-- **Declarations at one path are the same.** -/
theorem eq_of_path_eq {r s : Registration} (mem : r ∈ declarations (units.zip files))
    (memToo : s ∈ declarations (units.zip files)) (same : r.path = s.path) : r = s := by
  have source := declarations_ofSource mem
  have sourceToo := declarations_ofSource memToo
  have claims : r.claim = s.claim := by
    apply (leads_of_registerAll registered).claim_eq (mem_registrations mem)
      (mem_registrations memToo)
    · exact source.made.known
    · exact sourceToo.made.known
    · exact source.notModule
    · exact same
  obtain ⟨path, claim⟩ := r
  obtain ⟨pathToo, claimToo⟩ := s
  cases same
  cases claims
  rfl

/-- **No declaration stands at the name of what is built in.** -/
theorem path_ne_builtin {r : Registration} (mem : r ∈ declarations (units.zip files)) {name : String}
    (builtIn : name ∈ config.types ++ config.functions) : r.path ≠ [name] := by
  intro same
  obtain ⟨claim, inConfig, isBuiltin⟩ : ∃ claim, ⟨[name], claim⟩ ∈ Registration.ofConfig config ∧
      claim.kind = .builtin := by
    rcases List.mem_append.1 builtIn with isType | isFunction
    · exact ⟨.builtinType, List.mem_append_left _ (List.mem_map_of_mem isType), rfl⟩
    · exact ⟨.builtinFunction, List.mem_append_right _ (List.mem_map_of_mem isFunction), rfl⟩
  have source := declarations_ofSource mem
  have claims : r.claim = claim := by
    apply (leads_of_registerAll registered).claim_eq (mem_registrations mem)
      (List.mem_append_right _ inConfig)
    · exact source.made.known
    · rw [isBuiltin]
      nofun
    · exact source.notModule
    · exact same
  apply source.notBuiltin
  rw [claims, isBuiltin]

end Registered

/-- **A unit is parsed to a file** when its text has tokens that write the file, its segments numbered
from some number on. -/
def ParsesTo (unit : SourceUnit) (file : File) : Prop :=
  ∃ tokens firstId nextId, Token.ofText unit.file unit.source = .ok tokens ∧
    File.ofTokens tokens firstId = .ok (file, nextId)

theorem parsesTo_of_parseUnits {start : Nat} {units : List SourceUnit} {files : List File}
    (parsed : parseUnits start units = .ok files) : ∀ u ∈ units.zip files, ParsesTo u.1 u.2 := by
  induction units generalizing start files with
  | nil => nofun
  | cons unit rest ih =>
    obtain ⟨⟨file, between⟩, fileParsed, parsed⟩ := except_bind_eq_ok.1 parsed
    obtain ⟨later, restParsed, parsed⟩ := except_bind_eq_ok.1 parsed
    cases parsed
    obtain ⟨tokens, scanned, fileParsed⟩ := except_bind_eq_ok.1 fileParsed
    rw [List.zip_cons_cons, List.forall_mem_cons]
    exact ⟨⟨tokens, start, between, lift_eq_ok scanned, fileParsed⟩, ih restParsed⟩

/-- The declarations of a unit stand in its file. -/
theorem ParsesTo.position_file {unit : SourceUnit} {file : File} (parses : ParsesTo unit file)
    {module : Path} {r : Registration} (mem : r ∈ file.claimsAt module) :
    r.claim.value.position.file = unit.file := by
  obtain ⟨tokens, firstId, nextId, scanned, parsed⟩ := parses
  obtain ⟨claimed, inFile, rfl⟩ := List.mem_map.1 mem
  have file : claimed.claim.value.position.file = unit.file :=
    File.position_file_claims scanned parsed inFile
  exact file

/-- The declarations of a unit stand at different offsets. -/
theorem ParsesTo.nodup_offsets {unit : SourceUnit} {file : File} (parses : ParsesTo unit file)
    (module : Path) : (offsets (file.claimsAt module)).Nodup := by
  obtain ⟨tokens, firstId, nextId, scanned, parsed⟩ := parses
  have nodup := File.nodup_offsets_claims scanned parsed
  rwa [File.claimsAt, offsets, List.map_map]

/-- **When paths are all different**: where declarations at one path make the same claim, this is
when no claim is made both by a unit and by another with the same file name. -/
theorem nodup_paths_iff {units : List (SourceUnit × File)} (parses : ∀ u ∈ units, ParsesTo u.1 u.2)
    (unique : ∀ r ∈ declarations units, ∀ s ∈ declarations units, r.path = s.path → r = s) :
    ((declarations units).map Registration.path).Nodup ↔
      units.Pairwise fun a b => a.1.file = b.1.file →
        List.Disjoint (a.2.claimsAt a.1.modulePath) (b.2.claimsAt b.1.modulePath) := by
  have among {u : SourceUnit × File} (mem : u ∈ units) {r : Registration}
      (declared : r ∈ u.2.claimsAt u.1.modulePath) : r ∈ declarations units :=
    List.mem_flatMap.2 ⟨u, mem, declared⟩
  rw [declarations, List.map_flatMap, List.nodup_flatMap]
  constructor
  · rintro ⟨-, apart⟩
    refine apart.imp fun disjoint _ r declared declaredToo => ?_
    exact disjoint (List.mem_map_of_mem declared) (List.mem_map_of_mem declaredToo)
  · intro apart
    refine ⟨fun u mem => List.pairwise_map.2 ?_, apart.imp_of_mem ?_⟩
    · refine (List.pairwise_map.1 ((parses u mem).nodup_offsets u.1.modulePath)).imp_of_mem ?_
      intro r s declared declaredToo differ same
      exact differ (congrArg Registration.offset
        (unique r (among mem declared) s (among mem declaredToo) same))
    · intro a b memA memB disjoint path inA inB
      obtain ⟨r, declared, rfl⟩ := List.mem_map.1 inA
      obtain ⟨s, declaredToo, same⟩ := List.mem_map.1 inB
      obtain rfl := unique s (among memB declaredToo) r (among memA declared) same
      refine disjoint ?_ declared declaredToo
      rw [← (parses a memA).position_file declared, (parses b memB).position_file declaredToo]

end Compilation

open Compilation

/-- **Which declarations of compiled units can share a path.** Two at one path make the same claim:
they are of one kind, with as many type arguments, and at the same place of files with the same name.
None stands at the name of what is built in. All paths are different exactly when units with the same
file name declare nothing in common. -/
theorem compileUnits_declarations {config : Config} {units : List SourceUnit} {program : Program}
    (compiled : compileUnits config units = .ok program) :
    program.ParsedFrom units ∧
    (∀ r ∈ declarations (units.zip program.files), ∀ s ∈ declarations (units.zip program.files),
      r.path = s.path → r = s) ∧
    (∀ r ∈ declarations (units.zip program.files), ∀ name ∈ config.types ++ config.functions,
      r.path ≠ [name]) ∧
    (((declarations (units.zip program.files)).map Registration.path).Nodup ↔
      (units.zip program.files).Pairwise fun a b => a.1.file = b.1.file →
        List.Disjoint (a.2.claimsAt a.1.modulePath) (b.2.claimsAt b.1.modulePath)) := by
  obtain ⟨parsed, ⟨placed, registered⟩, -⟩ := runs_of_compileUnits compiled
  have unique : ∀ r ∈ declarations (units.zip program.files),
      ∀ s ∈ declarations (units.zip program.files), r.path = s.path → r = s := by
    intro r mem s memToo same
    exact eq_of_path_eq registered mem memToo same
  refine ⟨parsed, unique, ?_, nodup_paths_iff (parsesTo_of_parseUnits parsed) unique⟩
  intro r mem name builtIn
  exact path_ne_builtin registered mem builtIn

/-- Two units with the same file name that declare a structure and its field in modules of their
own. -/
def sameFileName : List SourceUnit :=
  [⟨["a"], "box", "struct Box { int inside; }"⟩, ⟨["b"], "box", "struct Box { int inside; }"⟩]

/-- The two units compile, and though all their positions are the same they declare nothing in
common: each of their structures and each of the fields has a path of its own. -/
theorem compileUnits_declarations_sameFileName :
    ∃ program, compileUnits .standard sameFileName = .ok program ∧
      (declarations (sameFileName.zip program.files)).map Registration.path =
        [["a", "Box"], ["a", "Box", "inside"], ["b", "Box"], ["b", "Box", "inside"]] ∧
      (∀ r ∈ declarations (sameFileName.zip program.files),
        ∀ name ∈ Config.standard.types ++ Config.standard.functions, r.path ≠ [name]) ∧
      (sameFileName.zip program.files).Pairwise fun a b => a.1.file = b.1.file →
        List.Disjoint (a.2.claimsAt a.1.modulePath) (b.2.claimsAt b.1.modulePath) := by
  have paths : (compileUnits .standard sameFileName).toOption.any (fun program => decide
      ((declarations (sameFileName.zip program.files)).map Registration.path =
        [["a", "Box"], ["a", "Box", "inside"], ["b", "Box"], ["b", "Box", "inside"]])) = true := by
    decide +kernel
  obtain ⟨program, compiled, paths⟩ := exists_ok_of_any paths
  obtain ⟨-, -, builtIn, apart⟩ := compileUnits_declarations compiled
  have paths := of_decide_eq_true paths
  refine ⟨program, compiled, paths, builtIn, apart.1 ?_⟩
  rw [paths]
  decide

/-- Two units with the same file name and the same module, whose structures differ in their field. -/
def shadowedField : List SourceUnit :=
  [⟨[], "a.tx", "struct A { int x; }"⟩, ⟨[], "a.tx", "struct A { int y; }"⟩]

/-- The two units compile, and two declarations share a path. -/
theorem compileUnits_shadowedField :
    ∃ program, compileUnits .standard shadowedField = .ok program ∧
      ¬ ((declarations (shadowedField.zip program.files)).map Registration.path).Nodup := by
  have shared : (compileUnits .standard shadowedField).toOption.any (fun program => decide
      ¬ ((declarations (shadowedField.zip program.files)).map Registration.path).Nodup) = true := by
    decide +kernel
  obtain ⟨program, compiled, shared⟩ := exists_ok_of_any shared
  exact ⟨program, compiled, of_decide_eq_true shared⟩

end FrontEnd

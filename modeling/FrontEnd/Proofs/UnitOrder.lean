import FrontEnd.Proofs.Grammar.CarryingFile
import FrontEnd.Proofs.References
import FrontEnd.Proofs.Scope.Invariance
import FrontEnd.Proofs.Symbol.Invariance
import FrontEnd.Proofs.Symbol.Reordering

/-!
# Units in another order

A unit by itself has a file whose segments are numbered from zero on (`SourceUnit.ownFile`). Among
others it has the same file with all numbers shifted by those that the units in front of it take
(`Compilation.firstId`). What its file claims, what its types ask for and what its functions use is
not touched by the shift, and which claims each path holds is not touched by the order.

**The law** (`compileUnits_perm`): units compile in one order exactly when they compile in another,
to the same files up to a shift, to trees with the same nodes, and to types at the same paths.
-/

namespace FrontEnd

/-! ## A unit by itself -/

namespace Compilation

/-- The first number is an offset of the file of a source, too. -/
theorem parseSource_shift (file source : String) (firstId distance : Nat) :
    parseSource file source (firstId + distance) =
      (parseSource file source firstId).map fun (file, nextId) =>
        (file.relabel (.shift distance), nextId + distance) := by
  unfold parseSource
  cases lift (Token.ofText file source) with
  | ok tokens => exact File.ofTokens_shift tokens firstId distance
  | error halt => rfl

end Compilation

namespace SourceUnit

/-- What the source of a unit amounts to by itself, its segments numbered from zero on. -/
def parse (unit : SourceUnit) : Except Halt (File × Nat) :=
  Compilation.parseSource unit.file unit.source 0

/-- **The file of a unit by itself**; it is empty where the source has a fault. -/
def ownFile (unit : SourceUnit) : File :=
  (unit.parse.toOption.map Prod.fst).getD ⟨unit.file, [], [], []⟩

/-- How many numbers the segments of a unit take. -/
def numbers (unit : SourceUnit) : Nat :=
  (unit.parse.toOption.map Prod.snd).getD 0

/-- A unit parses when its source has a file. -/
def Parses (unit : SourceUnit) : Prop :=
  unit.parse = .ok (unit.ownFile, unit.numbers)

theorem parses_of_parse {unit : SourceUnit} {result : File × Nat} (h : unit.parse = .ok result) :
    unit.Parses := by
  rw [Parses, ownFile, numbers, h]
  rfl

/-- A unit is parsed from another number on to its own file, shifted. -/
theorem parseSource_eq (unit : SourceUnit) (firstId : Nat) :
    Compilation.parseSource unit.file unit.source firstId =
      unit.parse.map fun (file, nextId) => (file.relabel (.shift firstId), nextId + firstId) := by
  have shifted := Compilation.parseSource_shift unit.file unit.source 0 firstId
  rwa [Nat.zero_add] at shifted

end SourceUnit

/-! ## Units among each other -/

namespace Compilation

/-- The first number of the unit at an index: those of the units in front of it are taken. -/
def firstId (units : List SourceUnit) (index : Nat) : Nat :=
  ((units.take index).map SourceUnit.numbers).foldr (· + ·) 0

/-- **The own files of units at their modules**, numbered through. -/
def numbered (firstId : Nat) : List SourceUnit → List (Path × File)
  | [] => []
  | unit :: rest =>
    (unit.modulePath, unit.ownFile.relabel (.shift firstId)) ::
      numbered (firstId + unit.numbers) rest

/-- **Units are parsed each by itself** and then numbered through. -/
theorem parseUnits_eq_ok_iff {start : Nat} {units : List SourceUnit} {files : List File} :
    parseUnits start units = .ok files ↔
      (∀ unit ∈ units, unit.Parses) ∧ files = (numbered start units).map Prod.snd := by
  induction units generalizing start files with
  | nil => simp [parseUnits, numbered, eq_comm]
  | cons unit rest ih =>
    rw [List.forall_mem_cons, parseUnits, SourceUnit.parseSource_eq, except_bind_eq_ok]
    constructor
    · rintro ⟨⟨file, nextId⟩, parsed, later⟩
      obtain ⟨files, restParsed, same⟩ := except_bind_eq_ok.1 later
      cases same
      cases own : unit.parse with
      | error halt =>
        rw [own] at parsed
        cases parsed
      | ok result =>
        have parses := SourceUnit.parses_of_parse own
        rw [parses] at parsed
        cases parsed
        obtain ⟨restParses, rfl⟩ := ih.1 restParsed
        refine ⟨⟨parses, restParses⟩, ?_⟩
        rw [numbered, List.map_cons, Nat.add_comm]
    · rintro ⟨⟨parses, restParses⟩, rfl⟩
      rw [SourceUnit.Parses] at parses
      rw [parses]
      refine ⟨_, rfl, except_bind_eq_ok.2 ⟨_, ih.2 ⟨restParses, rfl⟩, ?_⟩⟩
      rw [numbered, List.map_cons, Nat.add_comm]
      rfl

theorem zip_numbered (start : Nat) (units : List SourceUnit) :
    (units.map SourceUnit.modulePath).zip ((numbered start units).map Prod.snd) =
      numbered start units := by
  induction units generalizing start with
  | nil => rfl
  | cons unit rest ih => rw [numbered, List.map_cons, List.map_cons, List.zip_cons_cons, ih]

/-- The file of the unit at an index. -/
theorem numbered_getElem? {start : Nat} {units : List SourceUnit} {index : Nat}
    {unit : SourceUnit} (here : units[index]? = some unit) :
    (numbered start units)[index]? =
      some (unit.modulePath, unit.ownFile.relabel (.shift (start + firstId units index))) := by
  induction units generalizing start index with
  | nil => cases here
  | cons first rest ih =>
    cases index with
    | zero =>
      cases here
      rfl
    | succ index =>
      have later : rest[index]? = some unit := here
      have offset : firstId (first :: rest) (index + 1) = first.numbers + firstId rest index := by
        simp [firstId]
      rw [numbered, List.getElem?_cons_succ, ih later, offset, Nat.add_assoc]

/-- What holds of files however they are numbered holds of the files of units when it holds of their
own files. -/
theorem forall_mem_numbered (holds : Path → File → Prop)
    (shifts : ∀ path file distance,
      holds path (file.relabel (.shift distance)) ↔ holds path file)
    (start : Nat) (units : List SourceUnit) :
    (∀ f ∈ numbered start units, holds f.1 f.2) ↔
      ∀ unit ∈ units, holds unit.modulePath unit.ownFile := by
  induction units generalizing start with
  | nil => exact iff_of_true nofun nofun
  | cons unit rest ih =>
    rw [numbered, List.forall_mem_cons, List.forall_mem_cons, ih, shifts]

theorem flatMap_numbered {β : Type} {gives : Path → File → List β}
    (shifts : ∀ path file distance,
      gives path (file.relabel (.shift distance)) = gives path file)
    (start : Nat) (units : List SourceUnit) :
    (numbered start units).flatMap (fun f => gives f.1 f.2) =
      units.flatMap fun unit => gives unit.modulePath unit.ownFile := by
  induction units generalizing start with
  | nil => rfl
  | cons unit rest ih =>
    rw [numbered, List.flatMap_cons, List.flatMap_cons, ih, shifts]

/-! ## What units ask of a tree -/

/-- The types of a file can be resolved in a tree. -/
def Resolves (t : Tree) (module : Path) (file : File) : Prop :=
  ∀ scope name, (scope, name) ∈ file.typeNames module →
    ∃ references, t.ReadsName scope name references

/-- The functions of a file pass the scope check in a tree. -/
def Checks (t : Tree) (module : Path) (file : File) : Prop :=
  ∀ function ∈ file.functions, t.checkScopes module function = .ok ()

section Congr

variable {t other : Tree} (claims : ∀ path, t.claimAt? path = other.claimAt? path)

include claims

/-- Whether types are resolved is not touched by a relabelling or by the order of claims. -/
theorem resolves_relabel (m : Relabel) (module : Path) (file : File) :
    Resolves other module (file.relabel m) ↔ Resolves t module file := by
  unfold Resolves
  rw [File.typeNames_relabel]
  constructor
  · intro resolves scope name mem
    obtain ⟨references, reads⟩ := resolves scope (name.relabel m)
      (List.mem_map_of_mem (f := Prod.map id (Name.relabel m)) mem)
    exact reads.exists_of_relabel fun path => (claims path).symm
  · intro resolves scope name mem
    obtain ⟨⟨scope, old⟩, inFile, same⟩ := List.mem_map.1 mem
    cases same
    obtain ⟨references, reads⟩ := resolves scope old inFile
    exact ⟨_, reads.relabel claims m⟩

/-- Whether functions pass the check is not touched either. -/
theorem checks_relabel (nodes : t.nodes.Perm other.nodes) {m : Relabel} (keeps : m.KeepsPlaces)
    (module : Path) (file : File) :
    Checks other module (file.relabel m) ↔ Checks t module file := by
  unfold Checks
  rw [File.functions_relabel, List.forall_mem_map]
  exact forall₂_congr fun function _ =>
    (Tree.checkScopes_relabel claims nodes keeps module function).symm

/-- In trees with the same claims the types of a file are resolved alike. -/
theorem resolves_congr (module : Path) (file : File) :
    Resolves t module file ↔ Resolves other module file := by
  have alike := resolves_relabel claims (.shift 0) module file
  have again := resolves_relabel (fun path => Eq.refl (other.claimAt? path)) (.shift 0) module file
  exact alike.symm.trans again

/-- In trees with the same claims and nodes the functions of a file are checked alike. -/
theorem checks_congr (nodes : t.nodes.Perm other.nodes) (module : Path) (file : File) :
    Checks t module file ↔ Checks other module file := by
  have keeps := Relabel.keepsPlaces_shift 0
  have alike := checks_relabel claims nodes keeps module file
  have again := checks_relabel (fun path => Eq.refl (other.claimAt? path)) (.refl _) keeps module file
  exact alike.symm.trans again

end Congr

end Compilation

/-- The numbers of what is read are those of the names. -/
theorem Tree.ReadsAll.map_id {t : Tree} {names : List (Path × Name)} {references : List (Segment × Path)}
    (reads : t.ReadsAll names references) :
    references.map (fun reference => reference.1.id) = idsOf names := by
  have split : references.map (fun reference => reference.1.id) =
      (references.map Prod.fst).map Segment.id := List.map_map.symm
  rw [split, reads.map_fst, List.map_flatMap]
  rfl

namespace Compilation

/-! ## What compiles -/

theorem forM_except_eq_ok {ε α : Type} {act : α → Except ε Unit} {values : List α} :
    values.forM act = .ok () ↔ ∀ value ∈ values, act value = .ok () := by
  induction values with
  | nil => exact iff_of_true rfl nofun
  | cons first rest ih =>
    rw [List.forall_mem_cons, ← ih]
    change (act first >>= fun _ => rest.forM act) = .ok () ↔ _
    rw [except_bind_eq_ok]
    constructor
    · rintro ⟨⟨⟩, firstRun, restRun⟩
      exact ⟨firstRun, restRun⟩
    · rintro ⟨firstRun, restRun⟩
      exact ⟨(), firstRun, restRun⟩

theorem finish_eq_ok_iff {σ α : Type} {action : EStateM Diagnostic σ α} {s t : σ} {a : α} :
    finish action s = .ok (a, t) ↔ action s = .ok a t := by
  refine ⟨finish_eq_ok, fun run => ?_⟩
  rw [finish, EStateM.run, run]

theorem lift_eq_ok_iff {α : Type} {result : Except Diagnostic α} {a : α} :
    lift result = .ok a ↔ result = .ok a := by
  refine ⟨lift_eq_ok, fun ok => ?_⟩
  rw [ok]
  rfl

/-- Registered files pass the check when the functions of each do. -/
theorem checkAll_eq_ok_iff {t : Tree} {files : List (Path × File)} :
    checkAll t (files.map fun f => ⟨f.1, f.2⟩) = .ok () ↔ ∀ f ∈ files, Checks t f.1 f.2 := by
  rw [checkAll, forM_except_eq_ok, List.forall_mem_map]
  exact forall₂_congr fun f _ => forM_except_eq_ok

/-- **What files amount to together**: they are registered, and in the tree their functions pass the
check and their types are read. -/
theorem assemble_eq_ok_iff {config : Config} {files : List (Path × File)} {p : Program} :
    assemble config files = .ok p ↔
      (∃ placed, registerAll config files .empty = .ok placed p.tree) ∧
      (∀ f ∈ files, Checks p.tree f.1 f.2) ∧
      (∃ references, p.tree.ReadsAll (typeNames files) references ∧
        p.resolutions = Resolutions.empty.insertAll (p.tree.noted references)) ∧
      p.files = files.map Prod.snd := by
  unfold assemble
  constructor
  · intro assembled
    obtain ⟨⟨placed, tree⟩, registered, assembled⟩ := except_bind_eq_ok.1 assembled
    obtain ⟨⟨⟨⟩, resolutions⟩, resolved, assembled⟩ := except_bind_eq_ok.1 assembled
    obtain ⟨⟨⟩, checked, assembled⟩ := except_bind_eq_ok.1 assembled
    cases assembled
    have registered := finish_eq_ok registered
    obtain ⟨-, rfl, knows⟩ := registered_of_registerAll registered
    have reads := (resolveAll_eq_ok_iff knows).1 (finish_eq_ok resolved)
    exact ⟨⟨_, registered⟩, checkAll_eq_ok_iff.1 checked, reads, rfl⟩
  · obtain ⟨written, tree, resolutions⟩ := p
    rintro ⟨⟨placed, registered⟩, checked, reads, same⟩
    dsimp only at registered checked reads same
    obtain ⟨-, rfl, knows⟩ := registered_of_registerAll registered
    have resolved := (resolveAll_eq_ok_iff knows).2 reads
    refine except_bind_eq_ok.2 ⟨_, finish_eq_ok_iff.2 registered, ?_⟩
    refine except_bind_eq_ok.2 ⟨_, finish_eq_ok_iff.2 resolved, ?_⟩
    refine except_bind_eq_ok.2 ⟨(), checkAll_eq_ok_iff.2 checked, ?_⟩
    rw [same]
    rfl

/-- **What units amount to together**: each parses, and their own files, numbered through, amount to
it. -/
theorem compileUnits_eq_ok_iff {config : Config} {units : List SourceUnit} {p : Program} :
    compileUnits config units = .ok p ↔
      (∀ unit ∈ units, unit.Parses) ∧ assemble config (numbered 0 units) = .ok p := by
  rw [compileUnits, except_bind_eq_ok]
  constructor
  · rintro ⟨files, parsed, assembled⟩
    obtain ⟨parses, rfl⟩ := parseUnits_eq_ok_iff.1 parsed
    rw [zip_numbered] at assembled
    exact ⟨parses, lift_eq_ok assembled⟩
  · rintro ⟨parses, assembled⟩
    refine ⟨_, parseUnits_eq_ok_iff.2 ⟨parses, rfl⟩, ?_⟩
    rw [zip_numbered]
    exact lift_eq_ok_iff.2 assembled

/-- **What a compilation of units has gone through**: their parsing, their registration, and the
reading of their types, whose segments have numbers of their own. -/
theorem runs_of_compileUnits {config : Config} {units : List SourceUnit} {p : Program}
    (compiled : compileUnits config units = .ok p) :
    parseUnits 0 units = .ok p.files ∧
    (∃ placed, registerAll config ((units.map SourceUnit.modulePath).zip p.files) .empty =
      .ok placed p.tree) ∧
    ∃ references,
      p.tree.ReadsAll (typeNames ((units.map SourceUnit.modulePath).zip p.files)) references ∧
      (references.map fun reference => reference.1.id).Nodup ∧
      p.resolutions = Resolutions.empty.insertAll (p.tree.noted references) := by
  obtain ⟨files, parsed, assembled⟩ := except_bind_eq_ok.1 compiled
  obtain ⟨registered, -, ⟨references, reads, noted⟩, files_eq⟩ :=
    assemble_eq_ok_iff.1 (lift_eq_ok assembled)
  obtain ⟨sameLength, nextId, taken⟩ := taken_parseUnits parsed
  obtain rfl : p.files = files := by
    rw [files_eq, List.map_snd_zip]
    rw [List.length_map]
    exact Nat.le_of_eq sameLength
  refine ⟨parsed, registered, references, reads, ?_, noted⟩
  rw [reads.map_id]
  exact taken.nodup

/-- The registrations of units do not depend on their numbers. -/
theorem registrations_numbered (config : Config) (units : List SourceUnit) :
    registrations config (numbered 0 units) =
      units.flatMap (fun unit => unit.ownFile.registrations unit.modulePath) ++
        Registration.ofConfig config := by
  refine congrArg (· ++ Registration.ofConfig config) (flatMap_numbered ?_ 0 units)
  intro path file distance
  rw [File.registrations, File.claims_of_keepsPlaces (Relabel.keepsPlaces_shift distance)]
  rfl

/-- The names of files are read when the types of each can be resolved. -/
theorem exists_readsAll_typeNames_iff {t : Tree} {files : List (Path × File)} :
    (∃ references, t.ReadsAll (typeNames files) references) ↔
      ∀ f ∈ files, Resolves t f.1 f.2 := by
  rw [Tree.exists_readsAll_iff]
  constructor
  · intro reads f mem scope name inFile
    exact reads scope name (List.mem_flatMap.2 ⟨f, mem, inFile⟩)
  · intro resolves scope name mem
    obtain ⟨f, mem, inFile⟩ := List.mem_flatMap.1 mem
    exact resolves f mem scope name inFile

/-- **When units compile**: each parses, their files are registered, and in the tree the types of
each are read and the functions of each pass the check. -/
theorem exists_compileUnits_iff {config : Config} {units : List SourceUnit} :
    (∃ p, compileUnits config units = .ok p) ↔
      (∀ unit ∈ units, unit.Parses) ∧ ∃ placed t,
        registerAll config (numbered 0 units) .empty = .ok placed t ∧
        (∀ unit ∈ units, Checks t unit.modulePath unit.ownFile) ∧
        ∀ unit ∈ units, Resolves t unit.modulePath unit.ownFile := by
  have checks (t : Tree) := forall_mem_numbered (Checks t) (fun path file distance =>
    checks_relabel (fun _ => rfl) (.refl _) (Relabel.keepsPlaces_shift distance) path file) 0 units
  have resolves (t : Tree) := forall_mem_numbered (Resolves t) (fun path file distance =>
    resolves_relabel (fun _ => rfl) (.shift distance) path file) 0 units
  simp only [compileUnits_eq_ok_iff, assemble_eq_ok_iff, exists_and_left]
  refine and_congr_right fun parses => ?_
  constructor
  · rintro ⟨p, ⟨placed, registered⟩, checked, ⟨references, reads, -⟩, -⟩
    exact ⟨placed, p.tree, registered, (checks p.tree).1 checked,
      (resolves p.tree).1 (exists_readsAll_typeNames_iff.1 ⟨references, reads⟩)⟩
  · rintro ⟨placed, t, registered, checked, resolved⟩
    obtain ⟨references, reads⟩ := exists_readsAll_typeNames_iff.2 ((resolves t).2 resolved)
    exact ⟨⟨_, t, Resolutions.empty.insertAll (t.noted references)⟩, ⟨placed, registered⟩,
      (checks t).2 checked, ⟨references, reads, rfl⟩, rfl⟩

/-! ## Units in another order -/

/-- Units in another order make the same registrations. -/
theorem registrations_perm (config : Config) {units units' : List SourceUnit}
    (perm : units.Perm units') :
    (registrations config (numbered 0 units)).Perm (registrations config (numbered 0 units')) := by
  rw [registrations_numbered, registrations_numbered]
  exact (perm.flatMap_right _).append_right _

/-- Units that compile do so in every order. -/
theorem exists_compileUnits_perm {config : Config} {units units' : List SourceUnit}
    (perm : units.Perm units') (compiles : ∃ p, compileUnits config units = .ok p) :
    ∃ p, compileUnits config units' = .ok p := by
  obtain ⟨parses, placed, t, registered, checked, resolved⟩ := exists_compileUnits_iff.1 compiles
  obtain ⟨placed', t', registered', claims, nodes⟩ :=
    registerAll_perm (registrations_perm config perm) registered
  refine exists_compileUnits_iff.2 ⟨fun unit mem => parses unit (perm.mem_iff.2 mem),
    placed', t', registered', fun unit mem => ?_, fun unit mem => ?_⟩
  · exact (checks_congr claims nodes _ _).1 (checked unit (perm.mem_iff.2 mem))
  · exact (resolves_congr claims _ _).1 (resolved unit (perm.mem_iff.2 mem))

end Compilation

namespace Tree

/-- The reading of one of several names is among theirs. -/
theorem ReadsAll.of_mem {t : Tree} {names : List (Path × Name)} {references : List (Segment × Path)}
    (reads : t.ReadsAll names references) {scope : Path} {name : Name}
    (mem : (scope, name) ∈ names) :
    ∃ inner, t.ReadsName scope name inner ∧ inner ⊆ references := by
  induction reads with
  | nil => cases mem
  | cons reads _ ih =>
    rcases List.mem_cons.1 mem with same | later
    · cases same
      exact ⟨_, reads, List.subset_append_left ..⟩
    · obtain ⟨inner, reads, within⟩ := ih later
      exact ⟨inner, reads, List.Subset.trans within (List.subset_append_right ..)⟩

end Tree

namespace Compilation

/-- **A segment in type position has the node of what it refers to**, under its number among the
units. -/
theorem get?_of_reads {config : Config} {units : List SourceUnit} {p : Program}
    (compiled : compileUnits config units = .ok p) {index : Nat} {unit : SourceUnit}
    (here : units[index]? = some unit) {t : Tree}
    (claims : ∀ path, t.claimAt? path = p.tree.claimAt? path) {scope : Path} {name : Name}
    (mem : (scope, name) ∈ unit.ownFile.typeNames unit.modulePath)
    {originals : List (Segment × Path)} (reads : t.ReadsName scope name originals)
    {part : Segment} {path : Path} (refers : (part, path) ∈ originals) :
    ∃ node, p.resolutions.get? (part.id + firstId units index) = some node ∧
      p.tree.find? path = some node := by
  obtain ⟨parses, assembled⟩ := compileUnits_eq_ok_iff.1 compiled
  obtain ⟨-, -, ⟨references, all, resolutions_eq⟩, -⟩ := assemble_eq_ok_iff.1 assembled
  let m : Relabel := .shift (firstId units index)
  have shifted : (scope, name.relabel m) ∈ typeNames (numbered 0 units) := by
    have stands := List.mem_of_getElem? (@numbered_getElem? 0 _ _ _ here)
    rw [Nat.zero_add] at stands
    refine List.mem_flatMap.2 ⟨_, stands, ?_⟩
    rw [File.typeNames_relabel]
    exact List.mem_map_of_mem (f := Prod.map id (Name.relabel m)) mem
  obtain ⟨inner, readsToo, within⟩ := all.of_mem shifted
  obtain rfl := readsToo.unique (reads.relabel claims m)
  have distinct : (references.map fun reference => reference.1.id).Nodup := by
    obtain ⟨-, nextId, taken⟩ := taken_parseUnits (parseUnits_eq_ok_iff.2 ⟨parses, rfl⟩)
    rw [zip_numbered] at taken
    rw [all.map_id]
    exact taken.nodup
  have noted : (part.relabel m, path) ∈ references :=
    within (List.mem_map_of_mem (f := Tree.relabelReference m) refers)
  obtain ⟨node, found, stands⟩ := Tree.get?_noted_of_mem all distinct noted
  rw [← resolutions_eq, Segment.id_relabel] at found
  exact ⟨node, found, stands⟩

end Compilation

open Compilation in
/-- **Compilation does not depend on the order of units.** Units compile in one order exactly when
they compile in another. Then the trees have the same nodes; a unit has the same file in both up to
a shift of its numbers, from where the units in front of it end; and each of its segments in type
position refers to nodes at the same path. -/
theorem compileUnits_perm {config : Config} {units units' : List SourceUnit}
    (perm : units.Perm units') :
    ((∃ p, compileUnits config units = .ok p) ↔ ∃ p, compileUnits config units' = .ok p) ∧
    ∀ p p', compileUnits config units = .ok p → compileUnits config units' = .ok p' →
      p.tree.nodes.Perm p'.tree.nodes ∧
      ∀ i j unit, units[i]? = some unit → units'[j]? = some unit →
        unit.parse = .ok (unit.ownFile, unit.numbers) ∧
        p.files[i]? = some (unit.ownFile.relabel (.shift (firstId units i))) ∧
        p'.files[j]? = some (unit.ownFile.relabel (.shift (firstId units' j))) ∧
        ∀ part ∈ (unit.ownFile.typeNames unit.modulePath).flatMap fun occurrence =>
            occurrence.2.parts, ∃ node node',
          p.resolutions.get? (part.id + firstId units i) = some node ∧
          p'.resolutions.get? (part.id + firstId units' j) = some node' ∧
          node < p.tree.size ∧ node' < p'.tree.size ∧
          p.tree.pathOf node = p'.tree.pathOf node' := by
  refine ⟨⟨exists_compileUnits_perm perm, exists_compileUnits_perm perm.symm⟩, ?_⟩
  intro p p' compiled compiled'
  obtain ⟨parses, assembled⟩ := compileUnits_eq_ok_iff.1 compiled
  obtain ⟨-, assembled'⟩ := compileUnits_eq_ok_iff.1 compiled'
  obtain ⟨⟨placed, registered⟩, -, reads, files_eq⟩ := assemble_eq_ok_iff.1 assembled
  obtain ⟨⟨placed', registered'⟩, -, -, files_eq'⟩ := assemble_eq_ok_iff.1 assembled'
  obtain ⟨_, _, again, claims, nodes⟩ := registerAll_perm (registrations_perm config perm) registered
  rw [registered'] at again
  cases again
  refine ⟨nodes, fun i j unit here there => ⟨?_, ?_, ?_, fun part mem => ?_⟩⟩
  · exact parses unit (List.mem_of_getElem? here)
  · rw [files_eq, List.getElem?_map, numbered_getElem? here, Nat.zero_add]
    rfl
  · rw [files_eq', List.getElem?_map, numbered_getElem? there, Nat.zero_add]
    rfl
  · obtain ⟨⟨scope, name⟩, inFile, isPart⟩ := List.mem_flatMap.1 mem
    have resolved : Resolves p.tree unit.modulePath unit.ownFile := by
      have inUnits := List.mem_of_getElem? (@numbered_getElem? 0 _ _ _ here)
      obtain ⟨references, all, -⟩ := reads
      have resolvedThere := exists_readsAll_typeNames_iff.1 ⟨references, all⟩ _ inUnits
      exact (resolves_relabel (fun _ => rfl) _ _ _).1 resolvedThere
    obtain ⟨originals, readsName⟩ := resolved scope name inFile
    rw [← readsName.map_fst] at isPart
    obtain ⟨⟨part, path⟩, refers, rfl⟩ := List.mem_map.1 isPart
    obtain ⟨node, found, stands⟩ :=
      get?_of_reads compiled here (fun _ => rfl) inFile readsName refers
    obtain ⟨node', found', stands'⟩ :=
      get?_of_reads compiled' there claims inFile readsName refers
    refine ⟨node, node', found, found', Tree.lt_size_of_find? stands,
      Tree.lt_size_of_find? stands', ?_⟩
    rw [Tree.pathOf_of_find? stands, Tree.pathOf_of_find? stands']

/-- Two units, of which the second names its module only after the first has stood in it. -/
def boxesInside : List SourceUnit :=
  [⟨["a", "b"], "b", "struct Box<T> { T value; }"⟩, ⟨["a"], "a", "alias Boxes = b.Box<b.Box<int>>;"⟩]

/-- The two units compile in both orders, to trees with the same nodes. -/
theorem compileUnits_perm_boxesInside :
    boxesInside.Perm boxesInside.reverse ∧
      ∃ p p', compileUnits .standard boxesInside = .ok p ∧
        compileUnits .standard boxesInside.reverse = .ok p' ∧ p.tree.nodes.Perm p'.tree.nodes := by
  have perm : boxesInside.Perm boxesInside.reverse := (List.reverse_perm _).symm
  obtain ⟨compiles, same⟩ := @compileUnits_perm .standard _ _ perm
  have ok : (compileUnits .standard boxesInside).toOption.isSome = true := by decide +kernel
  obtain ⟨p, compiled⟩ : ∃ p, compileUnits .standard boxesInside = .ok p := by
    cases compiled : compileUnits .standard boxesInside with
    | ok p => exact ⟨p, rfl⟩
    | error halt =>
      rw [compiled] at ok
      cases ok
  obtain ⟨p', compiled'⟩ := compiles.1 ⟨p, compiled⟩
  exact ⟨perm, p, p', compiled, compiled', (same p p' compiled compiled').1⟩

end FrontEnd

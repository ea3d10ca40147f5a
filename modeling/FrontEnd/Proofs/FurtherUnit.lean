import FrontEnd.Proofs.Symbol.Apart
import FrontEnd.Proofs.UnitOrder

/-!
# A further unit

Units that compile are followed by one whose module begins with a segment that names nothing below
the root yet. The older units have the same files, their types are read alike, and their functions
pass the check as before: a tree that grows shows more names, and no check asks that a name is not
there.

**The law** (`compileUnits_further`): where the further unit compiles with them, each type of the
older units refers to nodes at the same path; where it does not, though it parses, the fault is one
of its own registrations, of its own types or of its own functions (`Compilation.FailsByItself`).
-/

namespace FrontEnd

/-! ## Functions pass the check as before -/

namespace Check

variable {declared further : Declared}

/-- **A body is in order wherever more is visible** and the loop around it is the same. -/
theorem AllowsBody.mono {s r : ScopeStack} {body : List Stmt}
    (visible : ∀ use, admits declared s use = true → admits further r use = true)
    (loops : s.inLoop = r.inLoop) (allows : AllowsBody declared s body) :
    AllowsBody further r body := by
  intro before inLoop stmt stands
  have own := allows before inLoop stmt stands
  constructor
  · intro value mem use mentions
    rcases own.uses value mem use mentions with outer | earlier
    · exact .inl (visible use outer)
    · exact .inr earlier
  · intro isControl
    rw [← loops]
    exact own.controls isControl

end Check

namespace Tree

namespace GrowsBelow

variable {segment : String} {t grown : Tree} (grows : GrowsBelow segment t grown)

include grows

/-- Nodes stay. -/
theorem mem_nodes (isMap : t.IsMap) (grownIsMap : grown.IsMap) {node : Node} (mem : node ∈ t.nodes) :
    node ∈ grown.nodes := by
  rw [isMap.mem_nodes_iff] at mem
  rw [grownIsMap.mem_nodes_iff]
  exact grows.claimAt?_eq_some mem

/-- **A function sees what it saw at its start.** -/
theorem seesAtStart (isMap : t.IsMap) (grownIsMap : grown.IsMap) {function : FnDecl} {name : String}
    (sees : function.SeesAtStart t name) : function.SeesAtStart grown name := by
  cases sees with
  | global mem kind shape standing =>
    apply FnDecl.SeesAtStart.global (grows.mem_nodes isMap grownIsMap mem) kind shape
    rcases standing with atRoot | ⟨claim, claimed, isModule⟩
    · exact .inl atRoot
    · exact .inr ⟨claim, grows.claimAt?_eq_some claimed, isModule⟩
  | builtin mem claim => exact .builtin (grows.mem_nodes isMap grownIsMap mem) claim
  | parameter mem => exact .parameter mem
  | receiver several => exact .receiver several

theorem declares {module : Path} {name : String} (declares : t.declares module name = true) :
    grown.declares module name = true := by
  obtain ⟨owner, claim, place, claimed, known⟩ := declares_iff.1 declares
  exact declares_iff.2 ⟨owner, claim, place, grows.claimAt?_eq_some claimed, known⟩

/-- **A function that passes the check passes it in the grown tree.** -/
theorem checkScopes (isMap : t.IsMap) (grownIsMap : grown.IsMap) {module : Path} {function : FnDecl}
    (passes : t.checkScopes module function = .ok ()) :
    grown.checkScopes module function = .ok () := by
  rw [checkScopes_eq_ok_iff_allows] at passes ⊢
  apply passes.mono
  · intro use
    simp only [Check.admits, Bool.or_eq_true, Bool.and_eq_true, contains_opened_iff]
    rintro (sees | ⟨qualified, isDeclared⟩)
    · exact .inl (grows.seesAtStart isMap grownIsMap sees)
    · exact .inr ⟨qualified, grows.declares isDeclared⟩
  · rfl

end GrowsBelow

end Tree

namespace Compilation

/-! ## Faults of the last of several -/

/-- An action for each of several values that halts, though it did not for those in front of the
last, halts for the last. -/
theorem forM_append_eq_error {ε σ α : Type} {act : α → EStateM ε σ Unit} {values : List α}
    {last : α} {r s t : σ} {e : ε} (failed : (values ++ [last]).forM act s = .error e t)
    (passed : values.forM act s = .ok () r) : act last r = .error e t := by
  have split : (values ++ [last]).forM act = (values.forM act >>= fun _ => [last].forM act) :=
    List.forM_append
  rw [split] at failed
  rcases bind_eq_error.1 failed with refused | ⟨⟨⟩, reached, run, refused⟩
  · rw [passed] at refused
    cases refused
  · rw [passed] at run
    cases run
    rcases bind_eq_error.1 refused with refused | ⟨⟨⟩, reached, -, refused⟩
    · exact refused
    · cases refused

/-- A check of several values that fails fails for one of them. -/
theorem exists_of_forM_eq_error {ε α : Type} {act : α → Except ε Unit} {values : List α} {e : ε}
    (failed : values.forM act = .error e) : ∃ value ∈ values, act value = .error e := by
  induction values with
  | nil => cases failed
  | cons first rest ih =>
    rcases except_bind_eq_error.1 failed with refused | ⟨⟨⟩, -, refused⟩
    · exact ⟨first, List.mem_cons_self, refused⟩
    · obtain ⟨value, mem, refused⟩ := ih refused
      exact ⟨value, List.mem_cons_of_mem _ mem, refused⟩

variable {config : Config} {files : List (Path × File)} {module : Path} {file : File}
  {segment : String} {p : Program} {d : Diagnostic}

/-- **A further file fails by itself** behind others: its registration is refused after theirs, one of
its types is not resolved after theirs, or one of its functions does not pass the check after
theirs. -/
inductive FailsByItself (config : Config) (others : List (Path × File)) (module : Path)
    (file : File) (d : Diagnostic) : Prop
  | registering {placed : List Placed} {t after : Tree} :
    registerUnits others .empty = .ok placed t →
    Tree.register module file t = .error d after →
    FailsByItself config others module file d
  | resolving {placed : List Placed} {t : Tree} {resolutions after : Resolutions} :
    registerAll config (others ++ [(module, file)]) .empty = .ok (placed ++ [⟨module, file⟩]) t →
    resolveAll t placed .empty = .ok () resolutions →
    t.resolve module file resolutions = .error d after →
    FailsByItself config others module file d
  | checking {placed : List Placed} {t : Tree} {resolutions : Resolutions} {function : FnDecl} :
    registerAll config (others ++ [(module, file)]) .empty = .ok (placed ++ [⟨module, file⟩]) t →
    resolveAll t (placed ++ [⟨module, file⟩]) .empty = .ok () resolutions →
    checkAll t placed = .ok () → function ∈ file.functions →
    t.checkScopes module function = .error d →
    FailsByItself config others module file d

/-- What is read in the tree of files is read alike with a further file. -/
theorem readsAll_of_growsBelow {t grown : Tree} {placed : List Placed}
    (run : registerAll config files .empty = .ok placed t) (grows : t.GrowsBelow segment grown)
    {references : List (Segment × Path)} (reads : t.ReadsAll (typeNames files) references) :
    grown.ReadsAll (typeNames files) references := by
  apply grows.readsAll (not_hasType_root run) _ reads
  intro scope name mem
  obtain ⟨claim, claimed⟩ := claimed_of_mem_typeNames run mem
  exact grows.apart claimed

/-- **Behind files that are assembled a further file fails by itself.** -/
theorem failsByItself_of_assemble (assembled : assemble config files = .ok p)
    (fresh : p.tree.claimAt? [segment] = none) (begins : [segment] <+: module)
    (failed : assemble config (files ++ [(module, file)]) = .error d) :
    FailsByItself config files module file d := by
  obtain ⟨⟨placed, registered⟩, checked, ⟨references, reads, -⟩, -⟩ :=
    assemble_eq_ok_iff.1 assembled
  rcases except_bind_eq_error.1 failed with refused | ⟨⟨further, grown⟩, registers, failed⟩
  · obtain ⟨after, run⟩ := finish_eq_error refused
    obtain ⟨placed, between, units, own⟩ :=
      register_eq_error_of_registerAll registered fresh begins run
    exact .registering units own
  have run := finish_eq_ok registers
  have grows := growsBelow_of_registerAll registered fresh begins run
  obtain ⟨-, rfl, knows⟩ := registered_of_registerAll run
  rw [List.map_append] at run failed
  have resolved : resolveAll grown (files.map fun f => ⟨f.1, f.2⟩) .empty =
      .ok () (Resolutions.empty.insertAll (grown.noted references)) :=
    (resolveAll_eq_ok_iff fun f mem => knows f (List.mem_append_left _ mem)).2
      ⟨references, readsAll_of_growsBelow registered grows reads, rfl⟩
  rcases except_bind_eq_error.1 failed with unresolved | ⟨⟨⟨⟩, resolutions⟩, resolves, failed⟩
  · obtain ⟨after, halts⟩ := finish_eq_error unresolved
    unfold resolveAll at halts
    have own := forM_append_eq_error halts resolved
    exact .resolving run resolved own
  rcases except_bind_eq_error.1 failed with refused | ⟨⟨⟩, -, failed⟩
  · have passed : checkAll grown (files.map fun f => ⟨f.1, f.2⟩) = .ok () := by
      rw [checkAll_eq_ok_iff]
      intro f mem function inFile
      apply grows.checkScopes (isMap_of_registerAll registered) (isMap_of_registerAll run)
      exact checked f mem function inFile
    have passes := forM_except_eq_ok.1 passed
    obtain ⟨f, mem, halts⟩ := exists_of_forM_eq_error refused
    obtain ⟨function, inFile, halts⟩ := exists_of_forM_eq_error halts
    rcases List.mem_append.1 mem with older | own
    · have passes := forM_except_eq_ok.1 (passes f older) function inFile
      rw [halts] at passes
      cases passes
    · obtain rfl := List.mem_singleton.1 own
      exact .checking run (finish_eq_ok resolves) passed inFile halts
  · cases failed

/-! ## Further units -/

/-- A further unit is numbered from where the others end. -/
theorem numbered_append (start : Nat) (units : List SourceUnit) (unit : SourceUnit) :
    numbered start (units ++ [unit]) = numbered start units ++
      [(unit.modulePath, unit.ownFile.relabel (.shift (start + firstId units units.length)))] := by
  induction units generalizing start with
  | nil => rfl
  | cons first rest ih =>
    have offset : firstId (first :: rest) (first :: rest).length =
        first.numbers + firstId rest rest.length := by
      simp [firstId]
    rw [List.cons_append, numbered, ih, numbered, List.cons_append, offset, Nat.add_assoc]

/-- Units that parse amount to what their own files, numbered through, are assembled to. -/
theorem compileUnits_of_parses {units : List SourceUnit} (parses : ∀ unit ∈ units, unit.Parses) :
    compileUnits config units = lift (assemble config (numbered 0 units)) := by
  have run : parseUnits 0 units = .ok ((numbered 0 units).map Prod.snd) :=
    parseUnits_eq_ok_iff.2 ⟨parses, rfl⟩
  rw [← zip_numbered 0 units, compileUnits, run]
  rfl

section FurtherUnit

variable {units : List SourceUnit} {unit : SourceUnit}

/-- The segment that a further module begins with is not claimed where it is no child of the
root. -/
theorem claimAt?_of_lookup? (compiled : compileUnits config units = .ok p)
    (fresh : p.tree.lookup? Tree.root [segment] = none) : p.tree.claimAt? [segment] = none := by
  obtain ⟨-, ⟨placed, registered⟩, -⟩ := runs_of_compileUnits compiled
  obtain ⟨atRoot, -, -⟩ := registered_of_registerAll registered
  rw [Tree.lookup?, Tree.pathOf_of_find? atRoot, List.nil_append] at fresh
  rw [← Option.not_isSome_iff_eq_none, ← Tree.find?_isSome_eq, fresh]
  simp

/-- **Behind a further unit the older units are as they were**: they have the same files, and their
segments in type position refer to nodes at the same paths. -/
theorem older_of_compileUnits (compiled : compileUnits config units = .ok p)
    (fresh : p.tree.claimAt? [segment] = none) (begins : [segment] <+: unit.modulePath)
    {whole : Program} (compiledToo : compileUnits config (units ++ [unit]) = .ok whole) :
    whole.ParsedFrom (units ++ [unit]) ∧ (∃ file, whole.files = p.files ++ [file]) ∧
    ∀ part ∈ (typeNames ((units.map SourceUnit.modulePath).zip p.files)).flatMap fun occurrence =>
        occurrence.2.parts, ∃ node node',
      p.resolutions.get? part.id = some node ∧ whole.resolutions.get? part.id = some node' ∧
      node < p.tree.size ∧ node' < whole.tree.size ∧
      p.tree.pathOf node = whole.tree.pathOf node' := by
  obtain ⟨parsed, ⟨placed, registered⟩, references, reads, distinct, noted⟩ :=
    runs_of_compileUnits compiled
  obtain ⟨parsedToo, ⟨further, registeredToo⟩, all, readsToo, distinctToo, notedToo⟩ :=
    runs_of_compileUnits compiledToo
  obtain ⟨-, files_eq⟩ := parseUnits_eq_ok_iff.1 parsed
  obtain ⟨-, whole_eq⟩ := parseUnits_eq_ok_iff.1 parsedToo
  rw [files_eq, zip_numbered] at registered reads ⊢
  rw [whole_eq, zip_numbered, numbered_append] at registeredToo readsToo
  rw [numbered_append, List.map_append] at whole_eq
  refine ⟨parsedToo, ⟨_, whole_eq⟩, ?_⟩
  intro part mem
  have grows := growsBelow_of_registerAll registered fresh begins registeredToo
  rw [typeNames, List.flatMap_append] at readsToo
  obtain ⟨older, own, readsOlder, -, split⟩ := Tree.readsAll_append_iff.1 readsToo
  obtain rfl := readsOlder.unique (readsAll_of_growsBelow registered grows reads)
  rw [← reads.map_fst] at mem
  obtain ⟨⟨part, path⟩, refers, rfl⟩ := List.mem_map.1 mem
  have refersToo : (part, path) ∈ all := split ▸ List.mem_append_left own refers
  obtain ⟨node, found, stands⟩ := Tree.get?_noted_of_mem reads distinct refers
  obtain ⟨node', foundToo, standsToo⟩ := Tree.get?_noted_of_mem readsToo distinctToo refersToo
  rw [← noted] at found
  rw [← notedToo] at foundToo
  refine ⟨node, node', found, foundToo, Tree.lt_size_of_find? stands,
    Tree.lt_size_of_find? standsToo, ?_⟩
  rw [Tree.pathOf_of_find? stands, Tree.pathOf_of_find? standsToo]

/-- **Behind units that compile a further unit that parses fails by itself.** -/
theorem failsByItself_of_compileUnits (compiled : compileUnits config units = .ok p)
    (fresh : p.tree.claimAt? [segment] = none) (begins : [segment] <+: unit.modulePath)
    {halt : Halt} (failed : compileUnits config (units ++ [unit]) = .error halt)
    (parses : unit.Parses) :
    ∃ d file, halt = .fault d ∧ parseUnits 0 (units ++ [unit]) = .ok (p.files ++ [file]) ∧
      FailsByItself config ((units.map SourceUnit.modulePath).zip p.files) unit.modulePath file
        d := by
  obtain ⟨others, assembled⟩ := compileUnits_eq_ok_iff.1 compiled
  obtain ⟨parsed, -⟩ := runs_of_compileUnits compiled
  obtain ⟨-, files_eq⟩ := parseUnits_eq_ok_iff.1 parsed
  rw [files_eq, zip_numbered]
  have parsesAll : ∀ u ∈ units ++ [unit], u.Parses := by
    intro u mem
    rcases List.mem_append.1 mem with older | last
    · exact others u older
    · obtain rfl := List.mem_singleton.1 last
      exact parses
  have run : parseUnits 0 (units ++ [unit]) =
      .ok ((numbered 0 (units ++ [unit])).map Prod.snd) :=
    parseUnits_eq_ok_iff.2 ⟨parsesAll, rfl⟩
  rw [numbered_append, List.map_append] at run
  rw [compileUnits_of_parses parsesAll, numbered_append] at failed
  cases assembledToo : assemble config (numbered 0 units ++
      [(unit.modulePath, unit.ownFile.relabel (.shift (0 + firstId units units.length)))]) with
  | ok whole =>
    rw [assembledToo] at failed
    cases failed
  | error d =>
    rw [assembledToo] at failed
    cases failed
    exact ⟨d, _, rfl, run, failsByItself_of_assemble assembled fresh begins assembledToo⟩

end FurtherUnit

end Compilation

open Compilation in
/-- **A further unit does not disturb the others.** Units that compile are followed by one whose
module begins with a segment that is no child of the root. Where they compile together, the older
units have the same files, and each of their segments in type position refers to nodes at the same
path. Where they do not, though the further unit parses, the fault is one of the further unit. -/
theorem compileUnits_further {config : Config} {units : List SourceUnit} {unit : SourceUnit}
    {p : Program} {segment : String} {rest : Path} (compiled : compileUnits config units = .ok p)
    (module : unit.modulePath = segment :: rest)
    (fresh : p.tree.lookup? Tree.root [segment] = none) :
    p.ParsedFrom units ∧
    (∀ whole, compileUnits config (units ++ [unit]) = .ok whole →
      whole.ParsedFrom (units ++ [unit]) ∧ (∃ file, whole.files = p.files ++ [file]) ∧
      ∀ part ∈ (typeNames ((units.map SourceUnit.modulePath).zip p.files)).flatMap fun occurrence =>
          occurrence.2.parts, ∃ node node',
        p.resolutions.get? part.id = some node ∧ whole.resolutions.get? part.id = some node' ∧
        node < p.tree.size ∧ node' < whole.tree.size ∧
        p.tree.pathOf node = whole.tree.pathOf node') ∧
    ∀ halt, compileUnits config (units ++ [unit]) = .error halt →
      (∃ result, unit.parse = .ok result) → ∃ d file, halt = .fault d ∧
        parseUnits 0 (units ++ [unit]) = .ok (p.files ++ [file]) ∧
        FailsByItself config ((units.map SourceUnit.modulePath).zip p.files) unit.modulePath file
          d := by
  have unclaimed := claimAt?_of_lookup? compiled fresh
  have begins : [segment] <+: unit.modulePath := by
    rw [module]
    exact List.prefix_append [segment] rest
  obtain ⟨parsed, -⟩ := runs_of_compileUnits compiled
  refine ⟨parsed, ?_, ?_⟩
  · intro whole compiledToo
    exact older_of_compileUnits compiled unclaimed begins compiledToo
  · rintro halt failed ⟨result, own⟩
    have parses := SourceUnit.parses_of_parse own
    exact failsByItself_of_compileUnits compiled unclaimed begins failed parses

/-- A unit with a structure and a synonym that names it at two depths. -/
def boxes : SourceUnit :=
  ⟨["a"], "a", "struct Box<T> { T value; }\nalias Boxes = Box<Box<int>>;"⟩

/-- A further unit with a structure of the same name, in a module whose last segment is the same. -/
def otherBoxes : SourceUnit :=
  ⟨["b", "a"], "b", "struct Box { Boxes value; }\nalias Boxes = int;"⟩

/-- A further unit that names what the first one does not declare. -/
def missingBox : SourceUnit :=
  ⟨["b"], "b", "alias Missing = a.Crate;"⟩

open Compilation in
/-- Behind the further unit with the same names every type that the first one is written with has its
node at the same path; the one that names too much fails by itself. -/
theorem compileUnits_further_boxes :
    ∃ p, compileUnits .standard [boxes] = .ok p ∧ p.tree.lookup? Tree.root ["b"] = none ∧
      p.writtenTypes [boxes] = [("T", some ["a", "Box", "T"]), ("Box", some ["a", "Box"]),
        ("Box", some ["a", "Box"]), ("int", some ["int"])] ∧
      (∃ whole, compileUnits .standard ([boxes] ++ [otherBoxes]) = .ok whole ∧
        (∃ file, whole.files = p.files ++ [file]) ∧
        whole.writtenTypes ([boxes] ++ [otherBoxes]) = p.writtenTypes [boxes] ++
          [("Boxes", some ["b", "a", "Boxes"]), ("int", some ["int"])]) ∧
      ∃ d file, compileUnits .standard ([boxes] ++ [missingBox]) = .error (.fault d) ∧
        FailsByItself .standard (([boxes].map SourceUnit.modulePath).zip p.files) ["b"] file d := by
  have ok : (compileUnits .standard [boxes]).toOption.any
      (fun p => decide (p.tree.lookup? Tree.root ["b"] = none ∧
        p.writtenTypes [boxes] = [("T", some ["a", "Box", "T"]), ("Box", some ["a", "Box"]),
          ("Box", some ["a", "Box"]), ("int", some ["int"])])) = true := by decide +kernel
  have okToo : (compileUnits .standard ([boxes] ++ [otherBoxes])).toOption.any
      (fun whole => decide (whole.writtenTypes ([boxes] ++ [otherBoxes]) =
        [("T", some ["a", "Box", "T"]), ("Box", some ["a", "Box"]), ("Box", some ["a", "Box"]),
          ("int", some ["int"]), ("Boxes", some ["b", "a", "Boxes"]),
          ("int", some ["int"])])) = true := by decide +kernel
  have refused : (compileUnits .standard ([boxes] ++ [missingBox])).toOption.isNone = true := by
    decide +kernel
  have parses : missingBox.parse.toOption.any (fun _ => true) = true := by decide +kernel
  obtain ⟨p, compiled, ok⟩ := exists_ok_of_any ok
  obtain ⟨fresh, written⟩ := of_decide_eq_true ok
  obtain ⟨whole, compiledToo, okToo⟩ := exists_ok_of_any okToo
  have writtenToo := of_decide_eq_true okToo
  obtain ⟨result, own, -⟩ := exists_ok_of_any parses
  refine ⟨p, compiled, fresh, written, ⟨whole, compiledToo, ?_, ?_⟩, ?_⟩
  · obtain ⟨-, stays, -⟩ := @compileUnits_further _ _ otherBoxes _ _ _ compiled rfl fresh
    exact (stays whole compiledToo).2.1
  · rw [writtenToo, written]
    rfl
  · obtain ⟨-, -, fails⟩ := @compileUnits_further _ _ missingBox _ _ _ compiled rfl fresh
    cases failed : compileUnits .standard ([boxes] ++ [missingBox]) with
    | ok program =>
      rw [failed] at refused
      cases refused
    | error halt =>
      obtain ⟨d, file, rfl, -, own⟩ := fails halt failed ⟨result, own⟩
      exact ⟨d, file, rfl, own⟩

end FrontEnd

import Mathlib
import FrontEnd.Proofs.Symbol.Held

/-!
# Exactly what is declared is claimed

Registering a file at a module claims the module as the file, the modules around it, and below it
everything that the file declares, each path with the claim of its declaration. Nothing else is
claimed, and what was claimed before stays. Paths may be opened that nothing claims, but only inside
the dotted path of a function (`Tree.TakesIn`). The module at the root is an exception: the root is
no module, and stays what it is (`Compilation.not_register_claims_module`).

**The law** (`Compilation.claimed_exactly_declared`): so it is for every file that is registered,
whatever was registered before it; and when the types of units are resolved, no declaration misses
its own node, which holds the claim that the declaration made (`Tree.FindsOwn`).
-/

namespace FrontEnd

namespace Tree

variable {t grown : Tree} {module : Path} {file : File}

/-- **A tree takes a file in** at a module. -/
structure TakesIn (t : Tree) (module : Path) (file : File) (grown : Tree) : Prop where
  /-- What is claimed was claimed before, is the module or around it, or is declared below it. -/
  knows_iff : ∀ path, grown.Knows path ↔ t.Knows path ∨ (path <+: module ∧ path ≠ []) ∨
    ∃ below claim, file.Declares below claim ∧ path = module ++ below
  /-- The module is the file. -/
  isFile : module ≠ [] → grown.claimAt? module = some (.file file.file)
  /-- What is around the module is a module. -/
  around : ∀ outer, outer <+: module → outer ≠ [] → outer ≠ module →
    ∃ claim, grown.claimAt? outer = some claim ∧ claim.kind = .file
  /-- What the file declares has the claim of its declaration. -/
  declared : ∀ below claim, file.Declares below claim →
    grown.claimAt? (module ++ below) = some claim
  /-- What was claimed has the claim that it had, unless it is the module and had no file. -/
  kept : ∀ path claim, t.claimAt? path = some claim → claim.kind ≠ .unknown →
    grown.claimAt? path = some claim ∨ path = module ∧ module ≠ [] ∧ claim = .namespaceOnly
  /-- What is opened without a claim begins the dotted path of a function, and is not declared. -/
  opened : ∀ path claim, t.claimAt? path = none → grown.claimAt? path = some claim →
    claim.kind = .unknown → ∃ f inner, .function f ∈ file.declarations ∧ path = module ++ inner ∧
      inner <+: f.name.path ∧ inner ≠ [] ∧ inner ≠ f.name.path ∧ ∀ claim, ¬ file.Declares inner claim

/-- **A file finds its own nodes** in a tree: whatever its declarations look for as their own is met,
at a node with the claim of the declaration. -/
def FindsOwn (t : Tree) (module : Path) (file : File) : Prop :=
  ∀ owner below position, .declared owner below position ∈ file.demands module →
    ∃ inner claim node, file.Seeks inner below claim ∧ owner = module ++ inner ∧
      position = claim.value.position ∧ t.find? (owner ++ below) = some node ∧
      t.claimAt? (owner ++ below) = some claim ∧
      ∀ r, t.meet (.declared owner below position) r = .ok () r

end Tree

/-! ## What is registered -/

/-- **What a file registers at a module** is the module and what the file declares. -/
theorem File.mem_registrations_iff {module path : Path} {file : File} {claim : Claim} :
    ⟨path, claim⟩ ∈ file.registrations module ↔
      ⟨path, claim⟩ ∈ Registration.ofModule module file.file ∨
        ∃ below, file.Declares below claim ∧ path = module ++ below := by
  rw [File.registrations, List.mem_append]
  refine or_congr_right ⟨fun mem => ?_, ?_⟩
  · obtain ⟨⟨below, claim⟩, declared, same⟩ := List.mem_map.1 mem
    cases same
    exact ⟨below, file.mem_claims_iff.1 declared, rfl⟩
  · rintro ⟨below, declares, rfl⟩
    exact List.mem_map.2 ⟨⟨below, claim⟩, file.mem_claims_iff.2 declares, rfl⟩

/-- What a file declares is no module, and says something. -/
theorem File.Declares.ofSource {file : File} {path : Path} {claim : Claim}
    (declares : file.Declares path claim) : claim.OfSource :=
  file.claims_ofSource (file.mem_claims_iff.2 declares)

namespace Tree.Leads

variable {t grown : Tree} {rs : List Registration}

/-- **What is opened** leads to a registration. -/
theorem exists_prefix (leads : t.Leads rs grown) {path : Path} {claim : Claim}
    (absent : t.claimAt? path = none) (claimed : grown.claimAt? path = some claim) :
    ∃ r ∈ rs, path <+: r.path := by
  by_contra nothing
  have run := leads path
  rw [Registration.foldlM_update?_outside fun r mem within => nothing ⟨r, mem, within⟩, absent,
    claimed] at run
  cases run

/-- **A declaration that is registered** has its claim in the end. -/
theorem claimAt?_eq (leads : t.Leads rs grown) {path : Path} {claim : Claim}
    (mem : ⟨path, claim⟩ ∈ rs) (ofSource : claim.OfSource) : grown.claimAt? path = some claim := by
  obtain ⟨held, claimed, -, same⟩ := leads.holds mem ofSource.made.known
  rw [claimed, same ofSource.notModule]

end Tree.Leads

/-! ## Registering one file -/

namespace Tree

variable {t grown : Tree} {module : Path} {file : File}

section Registered

variable (leads : t.Leads (file.registrations module) grown)

include leads

theorem Leads.claimAt?_declared {below : Path} {claim : Claim}
    (declares : file.Declares below claim) : grown.claimAt? (module ++ below) = some claim :=
  leads.claimAt?_eq (File.mem_registrations_iff.2 (.inr ⟨below, declares, rfl⟩)) declares.ofSource

theorem Leads.claimAt?_module (notRoot : module ≠ []) :
    grown.claimAt? module = some (.file file.file) := by
  have mem : ⟨module, .file file.file⟩ ∈ Registration.ofModule module file.file :=
    Registration.mem_ofModule_iff.2 ⟨List.prefix_rfl, notRoot, (if_pos rfl).symm⟩
  obtain ⟨held, claimed, refines⟩ := leads.refines (List.mem_append_left _ mem)
  rw [claimed, refines.eq_file]

/-- What leads to the module is a module. -/
theorem Leads.isModule {outer : Path} (within : outer <+: module) (below : outer ≠ []) :
    ∃ claim, grown.claimAt? outer = some claim ∧ claim.kind = .file := by
  obtain ⟨claim, mem, isModule⟩ := Registration.exists_ofModule file.file within below
  obtain ⟨held, claimed, kind, -⟩ :=
    leads.holds (List.mem_append_left _ mem) (by rw [isModule]; nofun)
  exact ⟨held, claimed, kind.trans isModule⟩

/-- **What is claimed in the end** was claimed before, is the module or around it, or is declared. -/
theorem Leads.knows_iff (grows : t.Grows grown) (path : Path) :
    grown.Knows path ↔ t.Knows path ∨ (path <+: module ∧ path ≠ []) ∨
      ∃ below claim, file.Declares below claim ∧ path = module ++ below := by
  constructor
  · rintro ⟨claim, claimed, known⟩
    rcases leads.source claimed known with before | registered
    · exact .inl ⟨claim, before, known⟩
    rcases File.mem_registrations_iff.1 registered with ofModule | ⟨below, declares, rfl⟩
    · obtain ⟨within, below, -⟩ := Registration.mem_ofModule_iff.1 ofModule
      exact .inr (.inl ⟨within, below⟩)
    · exact .inr (.inr ⟨below, claim, declares, rfl⟩)
  · rintro (knows | ⟨within, below⟩ | ⟨below, claim, declares, rfl⟩)
    · exact grows.knows knows
    · obtain ⟨claim, claimed, isModule⟩ := leads.isModule within below
      exact ⟨claim, claimed, by rw [isModule]; nofun⟩
    · exact ⟨claim, leads.claimAt?_declared declares, declares.ofSource.made.known⟩

/-- **What was claimed keeps its claim**, but for a module that had no file. -/
theorem Leads.kept (grows : t.Grows grown) {path : Path} {claim : Claim}
    (claimed : t.claimAt? path = some claim) (known : claim.kind ≠ .unknown) :
    grown.claimAt? path = some claim ∨ path = module ∧ module ≠ [] ∧ claim = .namespaceOnly := by
  obtain ⟨further, later, refines⟩ := grows.claims claimed
  rcases Claim.refines_iff.1 refines with isOpen | ⟨rfl, isModule⟩ | rfl
  · exact absurd isOpen known
  · rcases leads.source later (by rw [isModule]; nofun) with before | registered
    · exact .inl (later.trans (before.symm.trans claimed))
    rcases File.mem_registrations_iff.1 registered with ofModule | ⟨below, declares, rfl⟩
    · obtain ⟨within, below, rfl⟩ := Registration.mem_ofModule_iff.1 ofModule
      by_cases here : path = module
      · exact .inr ⟨here, here ▸ below, rfl⟩
      · rw [later, if_neg here]
        exact .inl rfl
    · exact absurd isModule declares.ofSource.notModule
  · exact .inl later

/-- **What is opened without a claim** begins the dotted path of a function. -/
theorem Leads.opened (root : [] ∈ t.paths) {path : Path} {claim : Claim}
    (absent : t.claimAt? path = none) (claimed : grown.claimAt? path = some claim)
    (isOpen : claim.kind = .unknown) :
    ∃ f inner, .function f ∈ file.declarations ∧ path = module ++ inner ∧
      inner <+: f.name.path ∧ inner ≠ [] ∧ inner ≠ f.name.path ∧
      ∀ claim, ¬ file.Declares inner claim := by
  have below : path ≠ [] := by
    rintro rfl
    exact claimAt?_eq_none_iff.1 absent root
  have aside : ¬ path <+: module := by
    intro within
    obtain ⟨held, there, isModule⟩ := leads.isModule within below
    rw [claimed] at there
    cases there
    rw [isOpen] at isModule
    cases isModule
  obtain ⟨⟨reached, further⟩, mem, begins⟩ := leads.exists_prefix absent claimed
  rcases File.mem_registrations_iff.1 mem with ofModule | ⟨last, ⟨d, ofFile, declares⟩, rfl⟩
  · exact absurd (begins.trans (Registration.mem_ofModule_iff.1 ofModule).1) aside
  obtain ⟨inner, rfl⟩ := (List.prefix_or_prefix_of_prefix begins
    (List.prefix_append module last)).resolve_left aside
  have deeper : inner ≠ [] := by
    rintro rfl
    rw [List.append_nil] at aside
    exact aside List.prefix_rfl
  have undeclared : ∀ claim, ¬ file.Declares inner claim := by
    intro other declares
    rw [leads.claimAt?_declared declares] at claimed
    cases claimed
    exact declares.ofSource.made.known isOpen
  rcases declares.around ((List.prefix_append_right_inj module).1 begins) deeper with
    ⟨other, declares⟩ | ⟨f, rfl, within, dotted⟩
  · exact absurd ⟨d, ofFile, declares⟩ (undeclared other)
  · exact ⟨f, inner, ofFile, rfl, within, deeper, dotted, undeclared⟩

end Registered

/-- **A file that is registered** is taken in. -/
theorem takesIn_of_register {node : Nat} (isMap : t.IsMap) (hasRoot : t.HasRoot)
    (run : register module file t = .ok node grown) : t.TakesIn module file grown := by
  have outcome : Outcome t (file.registrations module) (register module file t) :=
    outcome_register isMap hasRoot
  rw [run] at outcome
  cases outcome with
  | accepted _ grows leads =>
    have root : [] ∈ t.paths := isMap.root_mem (lt_size_of_find? hasRoot)
    exact {
      knows_iff := leads.knows_iff grows
      isFile := leads.claimAt?_module
      around := fun _ within below _ => leads.isModule within below
      declared := fun _ _ declares => leads.claimAt?_declared declares
      kept := fun _ _ claimed known => leads.kept grows claimed known
      opened := fun _ _ absent claimed isOpen => leads.opened root absent claimed isOpen }

end Tree

/-! ## Registering units -/

namespace Compilation

variable {config : Config} {files : List (Path × File)} {placed : List Placed} {t : Tree}

/-- **What a unit declares** has the claim of its declaration in the tree of all units. -/
theorem claimAt?_declared (run : registerAll config files .empty = .ok placed t)
    {p : Placed} (mem : p ∈ placed) {below : Path} {claim : Claim}
    (declares : p.file.Declares below claim) : t.claimAt? (p.module ++ below) = some claim := by
  obtain ⟨-, rfl, -⟩ := registered_of_registerAll run
  obtain ⟨f, inUnits, rfl⟩ := List.mem_map.1 mem
  have registered : ⟨f.1 ++ below, claim⟩ ∈ f.2.registrations f.1 :=
    File.mem_registrations_iff.2 (.inr ⟨below, declares, rfl⟩)
  exact (leads_of_registerAll run).claimAt?_eq
    (List.mem_append_left _ (List.mem_flatMap.2 ⟨f, inUnits, registered⟩)) declares.ofSource

/-- **A unit finds its own nodes** in the tree of all units. -/
theorem findsOwn_of_registerAll (run : registerAll config files .empty = .ok placed t)
    {p : Placed} (mem : p ∈ placed) : t.FindsOwn p.module p.file := by
  intro owner below position demand
  obtain ⟨inner, claim, seeks, rfl, rfl⟩ := p.file.seeks_of_mem_demands demand
  have claimed := claimAt?_declared run mem seeks.declares
  rw [← List.append_assoc] at claimed
  have known : claim.kind ≠ .unknown := seeks.declares.ofSource.made.known
  have knows : t.Knows (p.module ++ inner ++ below) := ⟨claim, claimed, known⟩
  obtain ⟨node, found⟩ := knows.exists_find?
  refine ⟨inner, claim, node, seeks, rfl, rfl, found, claimed, fun r => ?_⟩
  rw [Tree.meet, claimed, Option.any_some, Claim.isKnown, if_pos (decide_eq_true known)]
  rfl

/-- **Exactly what is declared is claimed.** A file that is registered at a module is taken in, and
in the tree of all units every file finds its own nodes. -/
theorem claimed_exactly_declared :
    (∀ (t grown : Tree) (module : Path) (file : File) (node : Nat), t.IsMap → t.HasRoot →
      Tree.register module file t = .ok node grown → t.TakesIn module file grown) ∧
    ∀ (config : Config) (files : List (Path × File)) (placed : List Placed) (t : Tree),
      registerAll config files .empty = .ok placed t →
      ∀ p ∈ placed, t.FindsOwn p.module p.file := by
  refine ⟨fun t grown module file node isMap hasRoot run => ?_, fun config files placed t run => ?_⟩
  · exact Tree.takesIn_of_register isMap hasRoot run
  · exact fun p mem => findsOwn_of_registerAll run mem

/-- A span of the first line of a source. -/
def boxSpan (start stop : Nat) : Span :=
  ⟨⟨start, 1, "box"⟩, ⟨stop, 1, "box"⟩⟩

/-- The file of `struct Box<T> { T value; struct Lid { int size; } } fn Box.open.wide(): void { }`. -/
def boxFile : File where
  file := "box"
  imports := []
  declarations :=
    [.struct ⟨false, "Box", [⟨"T", none, boxSpan 11 12⟩], [],
      [⟨false, .single 0 "T" (boxSpan 16 17), false, "value", none, boxSpan 16 24⟩],
      [⟨false, "Lid", [], [],
        [⟨false, .single 1 "int" (boxSpan 38 41), false, "size", none, boxSpan 38 47⟩], [],
        boxSpan 25 49⟩],
      boxSpan 0 51⟩,
    .function ⟨false, [],
      ⟨[⟨2, "Box", [], boxSpan 55 58⟩, ⟨3, "open", [], boxSpan 59 63⟩,
        ⟨4, "wide", [], boxSpan 64 68⟩], boxSpan 55 68⟩,
      [], ⟨.single 5 "void" (boxSpan 72 76), false⟩, [], boxSpan 52 80⟩]
  exports := []

/-- The tree of the file at a module in another. -/
def boxTree : Tree :=
  ⟨[⟨[], ⟨.builtin, .empty⟩⟩, ⟨["m"], .namespaceOnly⟩, ⟨["m", "n"], .file "box"⟩,
    ⟨["m", "n", "Box"], .declared .struct ⟨0, 1, "box"⟩ 1⟩,
    ⟨["m", "n", "Box", "T"], .declared .typeParameter ⟨11, 1, "box"⟩ 0⟩,
    ⟨["m", "n", "Box", "value"], .declared .structField ⟨16, 1, "box"⟩ 0⟩,
    ⟨["m", "n", "Box", "Lid"], .declared .struct ⟨25, 1, "box"⟩ 0⟩,
    ⟨["m", "n", "Box", "Lid", "size"], .declared .structField ⟨38, 1, "box"⟩ 0⟩,
    ⟨["m", "n", "Box", "open"], .unclaimed⟩,
    ⟨["m", "n", "Box", "open", "wide"], .declared .function ⟨52, 1, "box"⟩ 0⟩]⟩

/-- The box is taken in, with one path opened for the function, and the lid finds its own node. -/
theorem claimed_exactly_declared_box :
    (Tree.register ["m", "n"] boxFile .empty = .ok 2 boxTree ∧
      Tree.empty.TakesIn ["m", "n"] boxFile boxTree) ∧
    ∃ placed t, registerAll .standard [(["m", "n"], boxFile)] .empty = .ok placed t ∧
      .declared ["m", "n", "Box"] ["Lid"] ⟨25, 1, "box"⟩ ∈ boxFile.demands ["m", "n"] ∧
      ∀ p ∈ placed, t.FindsOwn p.module p.file := by
  have run : Tree.register ["m", "n"] boxFile .empty = .ok 2 boxTree := by cbv
  have takesIn := claimed_exactly_declared.1 .empty boxTree ["m", "n"] boxFile 2 Tree.isMap_empty
    Tree.hasRoot_empty run
  refine ⟨⟨run, takesIn⟩, ?_⟩
  have runAll : registerAll .standard [(["m", "n"], boxFile)] .empty =
      .ok [⟨["m", "n"], boxFile⟩] ⟨boxTree.nodes ++
        (Registration.ofConfig .standard).map fun r => ⟨r.path, r.claim⟩⟩ := by cbv
  refine ⟨_, _, runAll, ?_, claimed_exactly_declared.2 _ _ _ _ runAll⟩
  exact List.mem_append_left _ (List.mem_cons_of_mem _ (List.mem_cons_of_mem _ List.mem_cons_self))

/-- **The root is no module**, and a file that is registered there leaves it as it is. -/
theorem not_register_claims_module :
    ¬ ∀ (t grown : Tree) (module : Path) (file : File) (node : Nat), t.IsMap → t.HasRoot →
      Tree.register module file t = .ok node grown →
      grown.claimAt? module = some (.file file.file) := by
  intro claims
  have atRoot := claims .empty .empty [] ⟨"main", [], [], []⟩ Tree.root Tree.isMap_empty
    Tree.hasRoot_empty rfl
  cases atRoot

end Compilation

end FrontEnd

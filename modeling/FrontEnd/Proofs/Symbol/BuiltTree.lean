import FrontEnd.Proofs.Scope.WellScoped
import FrontEnd.Proofs.Symbol.PathTree

/-!
# The symbol tree, kept by path and by number

A tree of whole paths has the parents and the children of its nodes worked out (`Tree.parent?`,
`Tree.children`), and so it can be read as an arena (`Tree.arena`). The arena that the same
declarations build step by step links the tree (`Tree.Built.linked`), every built arena links a built
tree (`Arena.Built.linksBuilt`), and two arenas that link one tree stand alike. So what holds of every
built arena holds of every built tree, and the other way about.

**The laws**: a declaration is an update of the map from paths to claims, on the tree and on the
arena that stands for it (`Tree.declare_refines_map`), and every built arena and every built tree is a
path tree whose paths are addresses (`pathTree_of_built`).
-/

namespace FrontEnd

namespace Tree

variable {t : Tree} {node : Node} {id : Nat}

/-- **A tree by number**: each node as an entry with the numbers of its neighbours. -/
def arena (t : Tree) : Arena :=
  ⟨t.nodes.map fun node => ⟨node.segment, node.claim, t.children node, t.parent? node⟩⟩

theorem linked?_arena (id : Nat) : t.arena.linked? id =
    (t.node? id).map fun node => ⟨node.segment, node.claim, t.children node, t.parent? node⟩ := by
  rw [Arena.linked?, arena, List.getElem?_map]
  rfl

/-- The nodes right below a node. -/
def nodesBelow (t : Tree) (node : Node) : List Node :=
  t.nodes.filter fun other => !other.path.isEmpty && other.path.dropLast = node.path

theorem mem_nodesBelow_iff {other : Node} : other ∈ t.nodesBelow node ↔
    other ∈ t.nodes ∧ other.path = node.path ++ [other.segment] := by
  rw [nodesBelow, List.mem_filter, Bool.and_eq_true, Bool.not_eq_true', List.isEmpty_eq_false_iff,
    decide_eq_true_eq]
  refine and_congr_right fun _ => ⟨?_, fun shape => ?_⟩
  · rintro ⟨below, outer⟩
    rw [← outer]
    exact Node.path_eq below
  · rw [shape, List.dropLast_concat]
    exact ⟨List.append_ne_nil_of_right_ne_nil _ (List.cons_ne_nil _ _), rfl⟩

theorem children_perm (t : Tree) (node : Node) : (t.children node).Perm
    ((t.nodesBelow node).filterMap fun other => (t.find? other.path).map (other.segment, ·)) :=
  List.mergeSort_perm ..

/-- **The children of a node** are the numbers of the paths with one segment more. -/
theorem mem_children_iff {segment : String} {child : Nat} :
    (segment, child) ∈ t.children node ↔ t.find? (node.path ++ [segment]) = some child := by
  simp only [(children_perm t node).mem_iff, List.mem_filterMap, Option.map_eq_some_iff,
    mem_nodesBelow_iff]
  constructor
  · rintro ⟨other, ⟨-, shape⟩, number, found, same⟩
    cases same
    rw [← shape, found]
  · intro found
    obtain ⟨other, there, shape, -⟩ := node?_of_find? found
    have spelled := Node.segment_eq shape
    refine ⟨other, ⟨List.mem_of_getElem? there, ?_⟩, child, ?_, ?_⟩
    · rw [spelled, shape]
    · rw [shape, found]
    · rw [spelled]

/-- In a map no two children of a node have one segment. -/
theorem IsMap.nodup_children (isMap : t.IsMap) (node : Node) :
    ((t.children node).map Prod.fst).Nodup := by
  have named : ((t.nodesBelow node).filterMap fun other =>
      (t.find? other.path).map (other.segment, ·)).map Prod.fst =
        (t.nodesBelow node).map Node.segment := by
    rw [List.map_filterMap, ← List.filterMap_eq_map]
    apply List.filterMap_congr
    intro other mem
    have stands : other.path ∈ t.paths := List.mem_map_of_mem (mem_nodesBelow_iff.1 mem).1
    obtain ⟨number, found⟩ := Option.isSome_iff_exists.1 (find?_isSome_iff.2 stands)
    rw [found]
    rfl
  have shapes : (t.nodesBelow node).map Node.path =
      ((t.nodesBelow node).map Node.segment).map fun segment => node.path ++ [segment] := by
    rw [List.map_map]
    exact List.map_congr_left fun other mem => (mem_nodesBelow_iff.1 mem).2
  have paths : ((t.nodesBelow node).map Node.path).Nodup :=
    isMap.distinct.sublist (List.filter_sublist.map Node.path)
  rw [((children_perm t node).map Prod.fst).nodup_iff, named]
  rw [shapes] at paths
  exact paths.of_map

/-- **The arena of a map links it.** -/
theorem links_arena (isMap : t.IsMap) (hasRoot : t.HasRoot) : t.arena.Links t where
  isMap := isMap
  hasRoot := hasRoot
  size := List.length_map ..
  stands := by
    intro path id found
    obtain ⟨node, here, rfl, claimed⟩ := node?_of_find? found
    refine ⟨_, by rw [linked?_arena, here, Option.map_some], rfl, claimed, ?_, fun segment => ?_⟩
    · simp only [parent?, List.isEmpty_iff]
    · apply Option.ext
      intro child
      rw [lookup_eq_some_iff_mem (isMap.nodup_children node), mem_children_iff]

end Tree

namespace Arena

variable {a b : Arena} {t : Tree}

/-- **A declaration on a tree is one on the arena that links it**, with the same number for its path.
Where it is refused both stay: nothing is missing on the way to a path that is claimed. -/
theorem Links.outcome_declare (links : a.Links t) {base : Nat} (inside : base < t.size)
    (path : Path) (further : Claim) :
    (∃ id grown changed, Tree.declare base path further t = .ok id grown ∧
      declare base path further a = some (.ok (id, changed)) ∧ changed.Links grown) ∨
    ∃ d id, Tree.declare base path further t = .error d t ∧
      declare base path further a = some (.error d) ∧ a.enterAll? base path = some (id, a) := by
  have found : t.find? (t.pathOf base) = some base := links.isMap.find?_eq_some_iff.2 ⟨inside, rfl⟩
  have known : Numbered [(t.pathOf base, base)] t a := by
    refine ⟨links, fun {path id} mem => ?_⟩
    cases List.mem_singleton.1 mem
    exact found
  have atBase : (t.pathOf base, base) ∈ [(t.pathOf base, base)] := List.mem_singleton_self _
  have same : t.pathOf base ++ path = t.pathOf base ++ path := rfl
  obtain ⟨id, grown, reached, changed, run, runToo, numbered⟩ | ⟨d, after, run, runToo⟩ :=
    (answers_declare atBase atBase same further).outcome known
  · have atPath := numbered.found List.mem_cons_self
    have stays := Tree.lookup?_of_declare links.isMap inside run
    rw [Tree.lookup?, Tree.pathOf_of_declare links.isMap inside run inside, atPath] at stays
    obtain rfl := Option.some.inj stays
    exact .inl ⟨reached, grown, changed, run, runToo, numbered.links⟩
  · have stands : t.pathOf base ++ path ∈ t.paths := by
      apply Classical.byContradiction
      intro absent
      rw [Tree.declare_of_absent further (Tree.claimAt?_eq_none_iff.2 absent)] at run
      cases run
    obtain ⟨number, atPath⟩ := Option.isSome_iff_exists.1 (Tree.find?_isSome_iff.2 stands)
    cases Tree.declare_error run
    exact .inr ⟨d, number, run, runToo, links.enterAll?_of_find? found atPath⟩

/-- **A claim that says nothing new** leaves an arena as it is. -/
theorem Links.declare_of_held (links : a.Links t) {base id : Nat} (inside : base < t.size)
    {path : Path} {held further : Claim} (found : t.find? (t.pathOf base ++ path) = some id)
    (claimed : t.claimAt? (t.pathOf base ++ path) = some held)
    (merges : held.merge? further = some held) :
    declare base path further a = some (.ok (id, a)) := by
  have atBase := links.isMap.find?_eq_some_iff.2 ⟨inside, rfl⟩
  obtain ⟨entry, here, stands⟩ := links.stands found
  cases claimed.symm.trans stands.claim
  have unchanged : a.update? id (fun entry' => { entry' with claim := entry.claim }) = some a := by
    obtain ⟨within, same⟩ := List.getElem?_eq_some_iff.1 here
    have kept : a.entries.set id entry = a.entries := by rw [← same, List.set_getElem_self within]
    rw [update?, here, Option.map_some]
    exact congrArg (fun entries => some (Arena.mk entries)) kept
  rw [declare, links.enterAll?_of_find? atBase found, demand_some, Checked.bind_of_ok rfl]
  simp only [here, links.pathOf?_eq found, demand_some]
  rw [Checked.bind_of_ok rfl, Checked.bind_of_ok rfl]
  simp only [merges, unchanged, demand_some]
  rfl

/-- **Two arenas that link one tree** stand alike. -/
theorem PathTree.of_links (tree : a.PathTree) (links : a.Links t) (other : b.Links t)
    (keys : ∀ {id : Nat} {entry : Linked}, b.linked? id = some entry →
      (entry.children.map Prod.fst).Nodup) : b.PathTree := by
  refine tree.of_like (other.size.trans links.size.symm) fun {id entry entry'} here there => ?_
  have inside : id < t.size := links.size ▸ lt_size_of_linked? here
  have found := links.isMap.find?_eq_some_iff.2 ⟨inside, rfl⟩
  obtain ⟨_, here', stands⟩ := links.stands found
  obtain ⟨_, there', stands'⟩ := other.stands found
  cases here.symm.trans here'
  cases there.symm.trans there'
  refine ⟨?_, ?_, fun text => ?_, keys there⟩
  · rw [stands.segment, stands'.segment]
  · rw [stands.parent, stands'.parent]
  · rw [stands.children, stands'.children]

end Arena

namespace Tree

/-- A declaration that leaves a tree as it is says nothing new. -/
theorem held_of_declare {t : Tree} {base id : Nat} {path : Path} {further : Claim}
    (run : declare base path further t = .ok id t) : ∃ held,
      t.find? (t.pathOf base ++ path) = some id ∧
      t.claimAt? (t.pathOf base ++ path) = some held ∧ held.merge? further = some held := by
  obtain ⟨held, merged, found, claimed, merges, same⟩ | ⟨absent, same⟩ := declare_eq_ok run
  · have claimedToo := claimAt?_claim t (t.pathOf base ++ path) (t.pathOf base ++ path) merged
    rw [← same, if_pos rfl, claimed, Option.map_some] at claimedToo
    cases claimedToo
    exact ⟨held, found, claimed, merges⟩
  · have longer := congrArg (List.length ∘ Tree.paths) same
    obtain ⟨added, grows⟩ := paths_reserveAll t (t.pathOf base ++ path).between
    simp only [Function.comp_apply, paths_push, ← grows, List.length_append,
      List.length_singleton] at longer
    omega

/-- **A built tree is linked by a built arena**: the one that the same declarations build. -/
theorem Built.linked {t : Tree} (built : t.Built) : ∃ a : Arena, a.Built ∧ a.Links t := by
  induction built with
  | empty => exact ⟨.empty, .empty, Arena.links_empty⟩
  | @accepted t grown base id path further _ inside run ih =>
    obtain ⟨a, built, links⟩ := ih
    obtain ⟨_, _, changed, runToo, accepts, changes⟩ | ⟨_, _, refuses, -⟩ :=
      links.outcome_declare inside path further
    · cases run.symm.trans runToo
      exact ⟨changed, built.accepted (links.size ▸ inside) accepts, changes⟩
    · cases run.symm.trans refuses
  | @refused t after base path further d _ inside run ih =>
    obtain ⟨a, built, links⟩ := ih
    obtain ⟨_, _, _, accepts, -⟩ | ⟨_, _, refuses, refusesToo, entered⟩ :=
      links.outcome_declare inside path further
    · cases run.symm.trans accepts
    · cases run.symm.trans refuses
      exact ⟨a, built.refused (links.size ▸ inside) refusesToo entered, links⟩

end Tree

/-- **A built arena links a built tree**: the one that the same declarations build. -/
theorem Arena.Built.linksBuilt {a : Arena} (built : a.Built) : ∃ t : Tree, t.Built ∧ a.Links t := by
  induction built with
  | empty => exact ⟨.empty, .empty, links_empty⟩
  | @accepted a grown base id path further _ inside run ih =>
    obtain ⟨t, built, links⟩ := ih
    have insideToo : base < t.size := links.size ▸ inside
    obtain ⟨_, changed, _, accepts, runToo, changes⟩ | ⟨_, _, -, refuses, -⟩ :=
      links.outcome_declare insideToo path further
    · cases run.symm.trans runToo
      exact ⟨changed, built.accepted insideToo accepts, changes⟩
    · cases run.symm.trans refuses
  | @refused a left base id path further d _ inside run entered ih =>
    obtain ⟨t, built, links⟩ := ih
    obtain ⟨_, _, _, -, accepts, -⟩ | ⟨_, _, -, -, enteredToo⟩ :=
      links.outcome_declare (links.size ▸ inside) path further
    · cases run.symm.trans accepts
    · cases entered.symm.trans enteredToo
      exact ⟨t, built, links⟩

/-- **An arena stands for a tree of whole paths**: it gives the same claims, paths and numbers, and
one declaration on both is accepted with one number or refused with one diagnostic. An arena is left
as it was wherever the tree is; where it is refused that is the arena after the path was entered. -/
structure Arena.StandsFor (a : Arena) (t : Tree) : Prop where
  links : a.Links t
  claim : ∀ id, (a.linked? id).map Linked.claim = (t.node? id).map Node.claim
  pathOf : ∀ id < t.size, a.pathOf? id = some (t.pathOf id)
  lookup : ∀ id < t.size, ∀ path, a.lookup? id path = some (t.lookup? id path)
  declare : ∀ base < t.size, ∀ path further,
    (∃ id grown changed, Tree.declare base path further t = .ok id grown ∧
      Arena.declare base path further a = some (.ok (id, changed)) ∧ changed.Links grown ∧
      (grown = t → changed = a)) ∨
    ∃ diagnostic id, Tree.declare base path further t = .error diagnostic t ∧
      Arena.declare base path further a = some (.error diagnostic) ∧
      a.enterAll? base path = some (id, a)

/-- An arena that links a tree stands for it. -/
theorem Arena.Links.standsFor {a : Arena} {t : Tree} (links : a.Links t) : a.StandsFor t where
  links := links
  claim := by
    intro id
    by_cases inside : id < t.size
    · have found := links.isMap.find?_eq_some_iff.2 ⟨inside, rfl⟩
      obtain ⟨entry, here, stands⟩ := links.stands found
      obtain ⟨node, there, -, claimed⟩ := Tree.node?_of_find? found
      rw [here, there, Option.map_some, Option.map_some, ← claimed, stands.claim]
    · have outside : t.size ≤ id := Nat.le_of_not_lt inside
      have outsideToo : a.size ≤ id := links.size ▸ outside
      rw [linked?, Tree.node?, List.getElem?_eq_none outsideToo, List.getElem?_eq_none outside]
      rfl
  pathOf := fun id inside => links.pathOf?_eq (links.isMap.find?_eq_some_iff.2 ⟨inside, rfl⟩)
  lookup := fun id inside =>
    links.lookup?_eq (links.isMap.find?_eq_some_iff.2 ⟨inside, rfl⟩)
  declare := by
    intro base inside path further
    obtain ⟨id, grown, changed, run, runToo, changes⟩ | refused :=
      links.outcome_declare inside path further
    · refine .inl ⟨id, grown, changed, run, runToo, changes, fun same => ?_⟩
      obtain ⟨held, found, claimed, merges⟩ := Tree.held_of_declare (same ▸ run)
      rw [links.declare_of_held inside found claimed merges] at runToo
      cases runToo
      rfl
    · exact .inr refused

/-- **Declarations refine updates of the map**, for the tree of whole paths and for the arena that
is kept by number. A node of a built tree is looked up by its path alone. -/
theorem Tree.declare_refines_map :
    (∀ t : Tree, t.Built → ∀ base < t.size,
      (∀ path claim, t.claimAt? path = some claim ↔
        ∃ id node, t.node? id = some node ∧ t.pathOf id = path ∧ node.claim = claim) ∧
      (∀ path further, t.Updates base path further) ∧
      ∀ below id, t.lookup? base below = some id ↔
        id < t.size ∧ t.pathOf id = t.pathOf base ++ below) ∧
    ∀ a : Arena, a.Built → ∃ t : Tree, t.Built ∧ a.StandsFor t := by
  refine ⟨fun t built base inside => ⟨fun _ _ => built.isMap.claimAt?_eq_some_iff,
    fun path further => built.updates inside path further,
    fun _ _ => built.isMap.find?_eq_some_iff⟩, fun a built => ?_⟩
  obtain ⟨t, builtToo, links⟩ := built.linksBuilt
  exact ⟨t, builtToo, links.standsFor⟩

/-- An arena with a structure in a module that nothing claims. -/
def Arena.ofBox : Arena :=
  ⟨[⟨"", ⟨.builtin, .empty⟩, [("m", 1)], none⟩, ⟨"m", .unclaimed, [("Box", 2)], some 0⟩,
    ⟨"Box", .declared .struct default 1, [], some 1⟩]⟩

/-- Tree and arena of the box are built by one declaration; its module can still be claimed, its
structure not. -/
theorem Tree.declare_refines_map_nestedBox :
    nestedBox.Built ∧ 1 < nestedBox.size ∧
      (∃ id grown, declare 1 [] (.file "m") nestedBox = .ok id grown ∧
        nestedBox.Puts ["m"] (.file "m") grown ∧ grown.lookup? 1 [] = some id) ∧
      declare 1 ["Box"] .namespaceOnly nestedBox =
        .error ⟨.duplicateDeclaration "m.Box", .nowhere⟩ nestedBox ∧
      Arena.ofBox.Built ∧ ∃ t : Tree, t.Built ∧ Arena.ofBox.StandsFor t ∧
        t.lookup? 0 ["m", "Box"] = some 2 ∧
        t.claimAt? ["m", "Box"] = some (.declared .struct default 1) := by
  have built : nestedBox.Built :=
    @Built.accepted empty nestedBox 0 2 ["m", "Box"] _ .empty (by decide) rfl
  have once : Arena.ofBox.Built :=
    @Arena.Built.accepted .empty .ofBox 0 2 ["m", "Box"] _ .empty (by decide) rfl
  have inside : 1 < nestedBox.size := by decide
  obtain ⟨-, updates, -⟩ := declare_refines_map.1 _ built 1 inside
  obtain ⟨t, builtToo, stands⟩ := declare_refines_map.2 _ once
  have standsAtRoot : 0 < t.size := by
    rw [← stands.links.size]
    decide
  have found : t.lookup? 0 ["m", "Box"] = some 2 := by
    have foundToo : Arena.ofBox.lookup? 0 ["m", "Box"] = some (some 2) := rfl
    rw [stands.lookup 0 standsAtRoot] at foundToo
    exact Option.some.inj foundToo
  have claimed : t.claimAt? ["m", "Box"] = some (.declared .struct default 1) := by
    obtain ⟨claims, -, looks⟩ := declare_refines_map.1 t builtToo 0 standsAtRoot
    have atRoot : some [] = some (t.pathOf 0) := stands.pathOf 0 standsAtRoot
    obtain ⟨-, path⟩ := (looks ["m", "Box"] 2).1 found
    rw [← Option.some.inj atRoot] at path
    have holds : some (.declared .struct default 1) = (t.node? 2).map Node.claim := stands.claim 2
    obtain ⟨node, there, claimed⟩ := Option.map_eq_some_iff.1 holds.symm
    exact (claims _ _).2 ⟨2, node, there, path, claimed⟩
  refine ⟨built, inside, (updates [] (.file "m")).opened ?_,
    (updates ["Box"] .namespaceOnly).refused _ rfl nofun nofun ?_ ?_, once, t, builtToo, stands,
    found, claimed⟩
  · rintro _ ⟨⟩
    rfl
  · rintro ⟨⟨_, ⟨⟩⟩, -⟩
  · rintro ⟨⟨⟩, -⟩

/-- **The symbol tree stays a path tree**, however it is kept. -/
theorem pathTree_of_built :
    (∀ a : Arena, a.Built → a.PathTree ∧ a.Addressed ∧
      ∀ base < a.size, ∀ path further, Arena.declare base path further a ≠ none) ∧
    ∀ t : Tree, t.Built → t.arena.PathTree ∧ t.arena.Addressed ∧
      (∀ id < t.size, t.arena.pathOf? id = some (t.pathOf id) ∧
        ∀ path, t.arena.lookup? id path = some (t.lookup? id path)) ∧
      (∀ id < t.size, t.lookup? Tree.root (t.pathOf id) = some id) ∧
      (∀ path id, t.lookup? Tree.root path = some id → id < t.size ∧ t.pathOf id = path) ∧
      ∀ id < t.size, ∀ other < t.size, t.pathOf id = t.pathOf other → id = other := by
  refine ⟨fun a built => ⟨built.pathTree, built.pathTree.addressed,
    fun base inside path further => ?_⟩, fun t built => ?_⟩
  · obtain ⟨_, _, -, -, -, ⟨d, refused⟩ | ⟨changed, accepted, -⟩⟩ :=
      built.pathTree.declare inside path further
    · rw [refused]
      nofun
    · rw [accepted]
      nofun
  obtain ⟨a, builtToo, links⟩ := built.linked
  have isMap := links.isMap
  have stands := Tree.links_arena isMap links.hasRoot
  have reads := stands.standsFor
  have tree : t.arena.PathTree := builtToo.pathTree.of_links links stands fun here => by
    rw [Tree.linked?_arena] at here
    obtain ⟨node, -, rfl⟩ := Option.map_eq_some_iff.1 here
    exact isMap.nodup_children node
  have found {id : Nat} (inside : id < t.size) : t.find? (t.pathOf id) = some id :=
    isMap.find?_eq_some_iff.2 ⟨inside, rfl⟩
  have atRoot : t.pathOf Tree.root = [] := Tree.pathOf_of_find? links.hasRoot
  refine ⟨tree, tree.addressed, fun id inside => ⟨reads.pathOf id inside, reads.lookup id inside⟩,
    fun id inside => ?_, fun path id leads => ?_, fun id inside other insideToo same => ?_⟩
  · rw [Tree.lookup?, atRoot, List.nil_append, found inside]
  · rw [Tree.lookup?, atRoot, List.nil_append] at leads
    exact isMap.find?_eq_some_iff.1 leads
  · have atOther := found insideToo
    rw [← same, found inside] at atOther
    exact Option.some.inj atOther

/-- One declaration builds it, and one that is refused leaves it; the tree of the same declaration
is a path tree as well. -/
theorem pathTree_ofBox :
    Arena.ofBox.Built ∧ Arena.ofBox.PathTree ∧ Arena.ofBox.top? 3 2 = some 0 ∧
      Arena.ofBox.lookup? 0 ["m", "Box"] = some (some 2) ∧
      Arena.ofBox.pathOf? 2 = some ["m", "Box"] ∧
      Tree.nestedBox.arena.PathTree ∧ Tree.nestedBox.pathOf 2 = ["m", "Box"] := by
  have once : Arena.ofBox.Built :=
    @Arena.Built.accepted .empty .ofBox 0 2 ["m", "Box"] _ .empty (by decide) rfl
  have refused : Arena.declare 1 ["Box"] .namespaceOnly .ofBox =
      some (.error ⟨.duplicateDeclaration "m.Box", .nowhere⟩) := rfl
  have twice : Arena.ofBox.Built := once.refused (by decide) refused rfl
  have built : Tree.nestedBox.Built :=
    @Tree.Built.accepted .empty .nestedBox 0 2 ["m", "Box"] _ .empty (by decide) rfl
  have found : Arena.ofBox.lookup? 0 ["m", "Box"] = some (some 2) := rfl
  obtain ⟨tree, addressed, -⟩ := pathTree_of_built.1 .ofBox twice
  obtain ⟨treeToo, -, -, -, path, -⟩ := pathTree_of_built.2 .nestedBox built
  have foundToo : Tree.nestedBox.lookup? Tree.root ["m", "Box"] = some 2 := by decide
  exact ⟨twice, tree, addressed.up (by decide) (by decide), found, (addressed.path found).2,
    treeToo, (path _ _ foundToo).2⟩

end FrontEnd

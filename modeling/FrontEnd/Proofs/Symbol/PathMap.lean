import FrontEnd.Proofs.Symbol.Growth
import Mathlib.Data.List.Nodup

/-!
# The symbol tree as a map

A tree that declarations have built is a finite map from paths to claims: no two nodes share a path,
and with a path every beginning of it is there (`Tree.IsMap`). A declaration is an update of this
map at one path. It adds the missing beginnings of the path, and where it is refused the tree stays
as it was, node for node.

What a declaration does to a built tree is decided by the claim that the map holds at its path
(`Tree.Updates`, `Tree.Built.updates`).
-/

namespace FrontEnd

namespace Path

/-- The paths between the root and a path are its beginnings, but for the empty one and the whole. -/
theorem mem_between_iff {path outer : Path} :
    outer ∈ path.between ↔ outer <+: path ∧ outer ≠ [] ∧ outer ≠ path := by
  constructor
  · intro mem
    have different := Tree.between_ne mem
    obtain ⟨n, inside, rfl⟩ := List.mem_map.1 mem
    have short := List.mem_range.1 inside
    refine ⟨List.take_prefix .., ?_, different⟩
    rw [← List.length_pos_iff, List.length_take]
    omega
  · rintro ⟨within, notEmpty, different⟩
    have short : outer.length < path.length :=
      Nat.lt_of_le_of_ne within.length_le fun same => different (within.eq_of_length same)
    have some := List.length_pos_iff.2 notEmpty
    refine List.mem_map.2 ⟨outer.length - 1, List.mem_range.2 (by omega), ?_⟩
    rw [Nat.sub_add_cancel some]
    exact (List.prefix_iff_eq_take.1 within).symm

end Path

namespace Tree

variable {t grown : Tree} {base : Nat} {path : Path} {further : Claim}

/-! ## Trees that are maps -/

/-- **A tree is a map** when its nodes have distinct paths, and a path stands with all its
beginnings. -/
structure IsMap (t : Tree) : Prop where
  distinct : t.paths.Nodup
  closed : ∀ {path outer : Path}, path ∈ t.paths → outer <+: path → outer ∈ t.paths

theorem mem_paths_iff {path : Path} : path ∈ t.paths ↔ ∃ claim, t.claimAt? path = some claim := by
  rw [← Option.isSome_iff_exists, ← find?_isSome_eq, find?_eq, List.findIdx?_isSome,
    List.any_eq_true]
  simp

theorem claimAt?_eq_none_iff {path : Path} : t.claimAt? path = none ↔ path ∉ t.paths := by
  rw [mem_paths_iff, ← Option.ne_none_iff_exists', not_not]

theorem pathOf_mem_paths (inside : base < t.size) : t.pathOf base ∈ t.paths := by
  have inside' : base < t.paths.length := by rwa [paths, List.length_map]
  rw [pathOf_eq, List.getElem?_eq_getElem inside', Option.getD_some]
  exact List.getElem_mem inside'

theorem IsMap.root_mem (isMap : t.IsMap) (inside : base < t.size) : [] ∈ t.paths :=
  isMap.closed (pathOf_mem_paths inside) List.nil_prefix

/-- In a map the number of a path is the only one with that path. -/
theorem IsMap.find?_eq_some_iff (isMap : t.IsMap) {path : Path} {id : Nat} :
    t.find? path = some id ↔ id < t.size ∧ t.pathOf id = path := by
  constructor
  · intro found
    exact ⟨lt_size_of_find? found, pathOf_of_find? found⟩
  · rintro ⟨inside, rfl⟩
    obtain ⟨claim, claimed⟩ := mem_paths_iff.1 (pathOf_mem_paths inside)
    have stands : (t.find? (t.pathOf id)).isSome := by rw [find?_isSome_eq, claimed]; rfl
    obtain ⟨other, found⟩ := Option.isSome_iff_exists.1 stands
    have insideOther := lt_size_of_find? found
    have samePath := pathOf_of_find? found
    have inside' : id < t.paths.length := by rwa [paths, List.length_map]
    have insideOther' : other < t.paths.length := by rwa [paths, List.length_map]
    rw [pathOf_eq, pathOf_eq, List.getElem?_eq_getElem inside',
      List.getElem?_eq_getElem insideOther', Option.getD_some, Option.getD_some,
      isMap.distinct.getElem_inj_iff] at samePath
    rw [found, samePath]

/-- **In a map a path holds the claim of the node at it**, whichever node that is. -/
theorem IsMap.claimAt?_eq_some_iff (isMap : t.IsMap) {path : Path} {claim : Claim} :
    t.claimAt? path = some claim ↔
      ∃ id node, t.node? id = some node ∧ t.pathOf id = path ∧ node.claim = claim := by
  constructor
  · intro claimed
    have stands : (t.find? path).isSome := by rw [find?_isSome_eq, claimed]; rfl
    obtain ⟨id, found⟩ := Option.isSome_iff_exists.1 stands
    obtain ⟨node, atId, -, claimed'⟩ := node?_of_find? found
    refine ⟨id, node, atId, pathOf_of_find? found, ?_⟩
    rw [claimed'] at claimed
    exact Option.some.inj claimed
  · rintro ⟨id, node, atId, rfl, rfl⟩
    have inside : id < t.size := (List.getElem?_eq_some_iff.1 atId).1
    obtain ⟨node', atId', -, claimed⟩ := node?_of_find? (isMap.find?_eq_some_iff.2 ⟨inside, rfl⟩)
    rw [atId] at atId'
    cases atId'
    exact claimed

/-! ## Declarations keep a map -/

theorem isMap_empty : empty.IsMap where
  distinct := List.nodup_singleton _
  closed := by
    intro path outer mem within
    obtain rfl : path = [] := List.mem_singleton.1 mem
    obtain rfl := List.prefix_nil.1 within
    exact mem

theorem nodup_reserve (distinct : t.paths.Nodup) (path : Path) : (t.reserve path).paths.Nodup := by
  unfold reserve
  split
  · exact distinct
  next absent =>
    have fresh : path ∉ t.paths := by
      rw [← claimAt?_eq_none_iff, ← Option.not_isSome_iff_eq_none, ← find?_isSome_eq]
      exact absent
    rw [paths_push]
    exact List.nodup_append.2 ⟨distinct, List.nodup_singleton _, by grind⟩

theorem nodup_reserveAll (distinct : t.paths.Nodup) (paths : List Path) :
    (paths.foldl reserve t).paths.Nodup := by
  induction paths generalizing t with
  | nil => exact distinct
  | cons first rest ih => exact ih (nodup_reserve distinct first)

theorem mem_paths_reserveAll {paths : List Path} {path : Path} :
    path ∈ (paths.foldl reserve t).paths ↔ path ∈ t.paths ∨ path ∈ paths := by
  rw [mem_paths_iff, mem_paths_iff, claimAt?_reserveAll]
  cases t.claimAt? path with
  | none => by_cases mem : path ∈ paths <;> simp [mem]
  | some claim => simp

/-- A new path with all its beginnings keeps a map. -/
theorem IsMap.push_reserveAll (isMap : t.IsMap) {target : Path} (root : [] ∈ t.paths)
    (absent : target ∉ t.paths) (claim : Claim) :
    ((target.between.foldl reserve t).push target claim).IsMap where
  distinct := by
    have fresh : target ∉ (target.between.foldl reserve t).paths := by
      rw [mem_paths_reserveAll]
      rintro (stands | between)
      · exact absent stands
      · exact between_ne between rfl
    rw [paths_push]
    exact List.nodup_append.2
      ⟨nodup_reserveAll isMap.distinct _, List.nodup_singleton _, by grind⟩
  closed := by
    have known {outer : Path} (within : outer <+: target) (shorter : outer ≠ target) :
        outer ∈ t.paths ∨ outer ∈ target.between := by
      by_cases atRoot : outer = []
      · exact .inl (atRoot ▸ root)
      · exact .inr (Path.mem_between_iff.2 ⟨within, atRoot, shorter⟩)
    intro path outer mem within
    rw [paths_push, List.mem_append, mem_paths_reserveAll, List.mem_singleton] at mem ⊢
    rcases mem with (stands | between) | rfl
    · exact .inl (.inl (isMap.closed stands within))
    · obtain ⟨inner, -, shorter⟩ := Path.mem_between_iff.1 between
      refine .inl (known (within.trans inner) fun same => shorter ?_)
      exact inner.eq_of_length_le (same ▸ within.length_le)
    · by_cases whole : outer = path
      · exact .inr whole
      · exact .inl (known within whole)

/-- **A declaration keeps a map.** -/
theorem IsMap.declare (isMap : t.IsMap) (inside : base < t.size) {id : Nat}
    (h : declare base path further t = .ok id grown) : grown.IsMap := by
  rcases declare_eq_ok h with ⟨held, merged, -, -, -, rfl⟩ | ⟨absent, rfl⟩
  · refine ⟨?_, fun mem within => ?_⟩
    · rw [paths_claim]
      exact isMap.distinct
    · rw [paths_claim] at mem ⊢
      exact isMap.closed mem within
  · exact isMap.push_reserveAll (isMap.root_mem inside) (claimAt?_eq_none_iff.1 absent) further

/-- **A tree that declarations have built** from the root alone, each below a node that stands; a
declaration may have been refused. -/
inductive Built : Tree → Prop
  | empty : Built empty
  | accepted {t grown : Tree} {base id : Nat} {path : Path} {further : Claim} :
    Built t → base < t.size → declare base path further t = .ok id grown → Built grown
  | refused {t after : Tree} {base : Nat} {path : Path} {further : Claim}
      {diagnostic : Diagnostic} :
    Built t → base < t.size → declare base path further t = .error diagnostic after → Built after

/-- **A built tree is a map.** -/
theorem Built.isMap (built : t.Built) : t.IsMap := by
  induction built with
  | empty => exact isMap_empty
  | accepted _ inside run ih => exact ih.declare inside run
  | refused _ _ run ih =>
    rw [declare_error run]
    exact ih

/-! ## What a declaration does to the map -/

/-- **A tree with a claim put at a path**: the claim stands there, the missing beginnings of the
path lead down to it, every other path holds what it held, and every number keeps its path. -/
structure Puts (t : Tree) (path : Path) (claim : Claim) (grown : Tree) : Prop where
  here : grown.claimAt? path = some claim
  above : ∀ outer, outer <+: path → outer ≠ path → t.claimAt? outer = none →
    grown.claimAt? outer = some .unclaimed
  elsewhere : ∀ other, other ≠ path → (t.claimAt? other ≠ none ∨ ¬ other <+: path) →
    grown.claimAt? other = t.claimAt? other
  kept : ∀ id < t.size, grown.pathOf id = t.pathOf id

/-- A declaration at a path where a node stands merges the two claims or is refused. -/
theorem declare_of_claimed {held : Claim} (further : Claim)
    (claimed : t.claimAt? (t.pathOf base ++ path) = some held) :
    ∃ id, t.lookup? base path = some id ∧ declare base path further t =
      match held.merge? further with
      | some merged => .ok id (t.claim (t.pathOf base ++ path) merged)
      | none => .error ⟨.duplicateDeclaration (t.pathOf base ++ path).written,
          further.value.position⟩ t := by
  have stands : (t.find? (t.pathOf base ++ path)).isSome := by rw [find?_isSome_eq, claimed]; rfl
  obtain ⟨id, found⟩ := Option.isSome_iff_exists.1 stands
  refine ⟨id, found, ?_⟩
  unfold declare
  cases merged : held.merge? further with
  | none => simp only [found, claimed, merged]
  | some value => simp only [found, claimed, merged]

/-- A declaration at a path where no node stands adds one, with the missing beginnings before it. -/
theorem declare_of_absent (further : Claim)
    (absent : t.claimAt? (t.pathOf base ++ path) = none) :
    declare base path further t =
      .ok ((t.pathOf base ++ path).between.foldl reserve t).size
        (((t.pathOf base ++ path).between.foldl reserve t).push
          (t.pathOf base ++ path) further) := by
  unfold declare
  dsimp only
  split
  next claimed =>
    rw [absent] at claimed
    cases claimed
  next => rfl

/-- A claim at a path where a node stands leaves everything else. -/
theorem puts_claim {path : Path} {held : Claim} (isMap : t.IsMap)
    (claimed : t.claimAt? path = some held) (claim : Claim) :
    t.Puts path claim (t.claim path claim) where
  here := by rw [claimAt?_claim, if_pos rfl, claimed, Option.map_some]
  above := by
    intro outer within _ absent
    have stands := isMap.closed (mem_paths_iff.2 ⟨held, claimed⟩) within
    exact absurd stands (claimAt?_eq_none_iff.1 absent)
  elsewhere := by
    intro other different _
    rw [claimAt?_claim, if_neg different]
  kept := by
    intro id _
    rw [pathOf_eq, paths_claim, pathOf_eq]

theorem puts_push {path : Path} (root : [] ∈ t.paths) (absent : t.claimAt? path = none)
    (claim : Claim) : t.Puts path claim ((path.between.foldl reserve t).push path claim) where
  here := by
    rw [claimAt?_push, claimAt?_reserveAll, absent, if_pos rfl,
      if_neg fun mem => between_ne mem rfl]
    rfl
  above := by
    intro outer within shorter missing
    have notRoot : outer ≠ [] := by
      rintro rfl
      exact claimAt?_eq_none_iff.1 missing root
    rw [claimAt?_push, claimAt?_reserveAll, missing,
      if_pos (Path.mem_between_iff.2 ⟨within, notRoot, shorter⟩)]
    rfl
  elsewhere := by
    intro other different kept
    rw [claimAt?_push, claimAt?_reserveAll, if_neg different, Option.or_none]
    rcases kept with stands | outside
    · exact Option.or_of_isSome (Option.isSome_iff_ne_none.2 stands)
    · rw [if_neg fun mem => outside (Path.mem_between_iff.1 mem).1, Option.or_none]
  kept := by
    intro id inside
    have inside' : id < t.paths.length := by rwa [paths, List.length_map]
    obtain ⟨added, same⟩ := paths_reserveAll t path.between
    rw [pathOf_eq, pathOf_eq, paths_push, ← same, List.append_assoc,
      List.getElem?_append_left inside']

/-- Where a declaration is accepted every number keeps its path. -/
theorem pathOf_of_declare (isMap : t.IsMap) (inside : base < t.size) {id : Nat}
    (h : declare base path further t = .ok id grown) {number : Nat} (old : number < t.size) :
    grown.pathOf number = t.pathOf number := by
  obtain ⟨held, merged, -, -, -, rfl⟩ | ⟨absent, rfl⟩ := declare_eq_ok h
  · rw [pathOf_eq, paths_claim, pathOf_eq]
  · exact (puts_push (isMap.root_mem inside) absent further).kept number old

/-- A declaration that is accepted gives the number that its path has from then on. -/
theorem lookup?_of_declare (isMap : t.IsMap) (inside : base < t.size) {id : Nat}
    (h : declare base path further t = .ok id grown) : grown.lookup? base path = some id := by
  have isMapToo := isMap.declare inside h
  rw [lookup?, pathOf_of_declare isMap inside h inside]
  rcases declare_eq_ok h with ⟨held, merged, found, -, -, rfl⟩ | ⟨absent, grown_eq⟩
  · rw [find?_eq, paths_claim, ← find?_eq]
    exact found
  · rw [isMapToo.find?_eq_some_iff, grown_eq]
    rw [declare_of_absent further absent] at h
    cases h
    constructor
    · simp [push, size]
    · rw [pathOf, node?, push, size, List.getElem?_concat_length]
      rfl

/-- Declaring what a path leaves open puts the claim there. -/
theorem declare_of_open (further : Claim) (isMap : t.IsMap) (inside : base < t.size)
    (isOpen : ∀ held, t.claimAt? (t.pathOf base ++ path) = some held → held.kind = .unknown) :
    ∃ id grown, declare base path further t = .ok id grown ∧
      t.Puts (t.pathOf base ++ path) further grown := by
  cases claimed : t.claimAt? (t.pathOf base ++ path) with
  | none =>
    exact ⟨_, _, declare_of_absent further claimed, puts_push (isMap.root_mem inside) claimed further⟩
  | some held =>
    obtain ⟨id, -, run⟩ := declare_of_claimed further claimed
    have merges : held.merge? further = some further :=
      Claim.merge?_eq_some_iff.2 (.inl ⟨isOpen held claimed, rfl⟩)
    rw [merges] at run
    exact ⟨id, _, run, puts_claim isMap claimed further⟩

/-- A claim that is merged into the one that is held leaves the tree as it is. -/
theorem claim_held {path : Path} {held : Claim} (isMap : t.IsMap)
    (claimed : t.claimAt? path = some held) : t.claim path held = t := by
  obtain ⟨nodes⟩ := t
  rw [Tree.claim, Tree.mk.injEq]
  refine (List.map_congr_left fun node mem => ?_).trans (List.map_id _)
  obtain ⟨id, inside, same⟩ := List.getElem_of_mem mem
  have atId : (Tree.mk nodes).node? id = some node := by
    rw [node?, List.getElem?_eq_getElem inside, same]
  split
  next here =>
    have here' : (Tree.mk nodes).claimAt? path = some node.claim := by
      refine isMap.claimAt?_eq_some_iff.2 ⟨id, node, atId, ?_, rfl⟩
      rw [pathOf, atId, Option.elim_some, here]
    rw [claimed] at here'
    cases here'
    rfl
  next => rfl

/-- **A declaration as an update of the map**, in four cases that leave nothing open: an open path
takes the claim; a claim that says nothing new changes nothing; a module that names no file takes the
name of one; and every other claim is refused, with the tree as it was. -/
structure Updates (t : Tree) (base : Nat) (path : Path) (further : Claim) : Prop where
  opened : (∀ held, t.claimAt? (t.pathOf base ++ path) = some held → held.kind = .unknown) →
    ∃ id grown, declare base path further t = .ok id grown ∧
      t.Puts (t.pathOf base ++ path) further grown ∧ grown.lookup? base path = some id
  repeated : t.claimAt? (t.pathOf base ++ path) = some further ∨
      (∃ name, t.claimAt? (t.pathOf base ++ path) = some (.file name)) ∧ further = .namespaceOnly →
    ∃ id, declare base path further t = .ok id t ∧ t.lookup? base path = some id
  named : t.claimAt? (t.pathOf base ++ path) = some .namespaceOnly → further.kind = .file →
    ∃ id grown, declare base path further t = .ok id grown ∧
      t.Puts (t.pathOf base ++ path) further grown ∧ grown.lookup? base path = some id
  refused : ∀ held, t.claimAt? (t.pathOf base ++ path) = some held → held.kind ≠ .unknown →
    held ≠ further → ¬ ((∃ name, held = .file name) ∧ further = .namespaceOnly) →
    ¬ (held = .namespaceOnly ∧ further.kind = .file) →
    declare base path further t = .error ⟨.duplicateDeclaration
      (t.pathOf base ++ path).written, further.value.position⟩ t

/-- **Declarations update the map**: the claim that a built tree holds at the path decides what a
declaration does. -/
theorem Built.updates (built : t.Built) (inside : base < t.size) (path : Path)
    (further : Claim) : t.Updates base path further := by
  have isMap := built.isMap
  refine ⟨fun isOpen => ?_, fun nothingNew => ?_, fun bare isFile => ?_,
    fun held claimed known other notFile notBare => ?_⟩
  · obtain ⟨id, grown, run, puts⟩ := declare_of_open further isMap inside isOpen
    exact ⟨id, grown, run, puts, lookup?_of_declare isMap inside run⟩
  · obtain ⟨held, claimed, merges⟩ : ∃ held, t.claimAt? (t.pathOf base ++ path) = some held ∧
        held.merge? further = some held := by
      rcases nothingNew with claimed | ⟨⟨name, claimed⟩, rfl⟩
      · exact ⟨further, claimed, Claim.refines_refl further⟩
      · exact ⟨.file name, claimed, Claim.merge?_eq_some_iff.2
          (.inr (.inr ⟨nofun, rfl, .inr ⟨name, rfl, rfl⟩⟩))⟩
    obtain ⟨id, found, run⟩ := declare_of_claimed further claimed
    rw [merges] at run
    simp only [claim_held isMap claimed] at run
    exact ⟨id, run, found⟩
  · obtain ⟨id, -, run⟩ := declare_of_claimed further bare
    have merges : Claim.namespaceOnly.merge? further = some further :=
      Claim.merge?_eq_some_iff.2 (.inr (.inl ⟨rfl, isFile, rfl⟩))
    rw [merges] at run
    exact ⟨id, _, run, puts_claim isMap bare further, lookup?_of_declare isMap inside run⟩
  · obtain ⟨id, -, run⟩ := declare_of_claimed further claimed
    have refused : held.merge? further = none := by
      rw [Option.eq_none_iff_forall_ne_some]
      intro merged merges
      rcases Claim.merge?_eq_some_iff.1 merges with
        ⟨unclaimed, -⟩ | ⟨bare, isFile, -⟩ | ⟨-, -, same | ⟨name, isFile, bare⟩⟩
      · exact known unclaimed
      · exact notBare ⟨bare, isFile⟩
      · exact other same.symm
      · exact notFile ⟨⟨name, isFile⟩, bare⟩
    rw [refused] at run
    exact run

/-- A structure in a module that nothing claims yet. -/
def nestedBox : Tree :=
  ⟨[⟨[], ⟨.builtin, .empty⟩⟩, ⟨["m"], .unclaimed⟩, ⟨["m", "Box"], .declared .struct default 1⟩]⟩

end Tree

end FrontEnd

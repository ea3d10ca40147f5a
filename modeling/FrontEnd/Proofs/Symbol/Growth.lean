import FrontEnd.Proofs.Action
import FrontEnd.Symbol.Tree

/-!
# How a symbol tree grows

A declaration adds nodes and merges claims; it removes nothing. A tree has grown into another when
the paths of its nodes are the first paths of the other, in the same order, and every claim of the
one is kept or refined in the other (`Tree.Grows`). So a number keeps its path, and a path that is
claimed stays claimed.

**The law** (`Tree.grows_of_declare`): a declaration that succeeds lets the tree grow, and its path
is claimed from then on. It rests on one inversion of the declaration (`Tree.declare_eq_ok`), which
says all that a successful declaration can do.
-/

namespace FrontEnd

namespace Claim

/-- A further claim says all that a claim says: merging it leaves the further claim. -/
def Refines (further held : Claim) : Prop :=
  held.merge? further = some further

/-- **What two claims on one path merge to**: the further one where nothing is claimed yet or where
a module names no file, and otherwise the one that is held, which the further one has to repeat. -/
theorem merge?_eq_some_iff {held further merged : Claim} :
    held.merge? further = some merged ↔
      (held.kind = .unknown ∧ merged = further) ∨
      (held = namespaceOnly ∧ further.kind = .file ∧ merged = further) ∨
      held.kind ≠ .unknown ∧ merged = held ∧
        (further = held ∨ ∃ name, held = file name ∧ further = namespaceOnly) := by
  obtain ⟨kind, value⟩ := held
  cases kind with
  | unknown => simp [merge?, namespaceOnly, eq_comm]
  | file => cases value <;> simp [merge?, namespaceOnly, file] <;> grind
  | _ =>
    simp [merge?, namespaceOnly, file]
    grind

/-- A claim is refined where it says nothing, where it is a module that names no file, and by
itself. -/
theorem refines_iff {further held : Claim} :
    further.Refines held ↔ held.kind = .unknown ∨ (held = namespaceOnly ∧ further.kind = .file) ∨
      further = held := by
  rw [Refines, merge?_eq_some_iff]
  constructor
  · rintro (⟨unclaimed, -⟩ | ⟨bare, isFile, -⟩ | ⟨-, same, -⟩)
    · exact .inl unclaimed
    · exact .inr (.inl ⟨bare, isFile⟩)
    · exact .inr (.inr same)
  · rintro (unclaimed | ⟨bare, isFile⟩ | rfl)
    · exact .inl ⟨unclaimed, rfl⟩
    · exact .inr (.inl ⟨bare, isFile, rfl⟩)
    · by_cases unclaimed : further.kind = .unknown
      · exact .inl ⟨unclaimed, rfl⟩
      · exact .inr (.inr ⟨unclaimed, rfl, .inl rfl⟩)

theorem refines_refl (claim : Claim) : claim.Refines claim :=
  refines_iff.2 (.inr (.inr rfl))

theorem Refines.trans {a b c : Claim} (later : c.Refines b) (earlier : b.Refines a) :
    c.Refines a := by
  rcases refines_iff.1 earlier with unclaimed | ⟨bare, isFile⟩ | rfl
  · exact refines_iff.2 (.inl unclaimed)
  · refine refines_iff.2 (.inr (.inl ⟨bare, ?_⟩))
    rcases refines_iff.1 later with unclaimed | ⟨-, stays⟩ | rfl
    · rw [isFile] at unclaimed
      cases unclaimed
    · exact stays
    · exact isFile
  · exact later

/-- What two claims merge to refines the one that was held. -/
theorem refines_of_merge? {held further merged : Claim} (h : held.merge? further = some merged) :
    merged.Refines held := by
  rcases merge?_eq_some_iff.1 h with ⟨unclaimed, -⟩ | ⟨bare, isFile, rfl⟩ | ⟨-, rfl, -⟩
  · exact refines_iff.2 (.inl unclaimed)
  · exact refines_iff.2 (.inr (.inl ⟨bare, isFile⟩))
  · exact refines_refl merged

/-- It refines the further one too. -/
theorem refines_further_of_merge? {held further merged : Claim}
    (h : held.merge? further = some merged) : merged.Refines further := by
  rcases merge?_eq_some_iff.1 h with ⟨-, rfl⟩ | ⟨-, -, rfl⟩ | ⟨-, rfl, agrees⟩
  · exact refines_refl merged
  · exact refines_refl merged
  · rcases agrees with rfl | ⟨name, rfl, rfl⟩
    · exact refines_refl further
    · exact refines_iff.2 (.inr (.inl ⟨rfl, rfl⟩))

theorem Refines.kind_eq {further held : Claim} (h : further.Refines held)
    (known : held.kind ≠ .unknown) : further.kind = held.kind := by
  rcases refines_iff.1 h with unclaimed | ⟨rfl, isFile⟩ | rfl
  · exact absurd unclaimed known
  · exact isFile
  · rfl

/-- What a claim merges to says something when the claim does. -/
theorem known_of_merge? {held further merged : Claim} (h : held.merge? further = some merged)
    (known : further.kind ≠ .unknown) : merged.kind ≠ .unknown := by
  rcases merge?_eq_some_iff.1 h with ⟨-, rfl⟩ | ⟨-, -, rfl⟩ | ⟨heldKnown, rfl, -⟩
  · exact known
  · exact known
  · exact heldKnown

end Claim

namespace Tree

/-! ## Nodes and paths -/

/-- The paths of the nodes, in the order of their numbers. -/
def paths (t : Tree) : List Path :=
  t.nodes.map Node.path

theorem find?_eq (t : Tree) (path : Path) : t.find? path = t.paths.findIdx? (· = path) := by
  rw [paths, List.findIdx?_map]
  rfl

theorem pathOf_eq (t : Tree) (id : Nat) : t.pathOf id = t.paths[id]?.getD [] := by
  rw [paths, List.getElem?_map, pathOf, node?]
  cases t.nodes[id]? <;> rfl

/-- A path has a number exactly when something is claimed at it. -/
theorem find?_isSome_eq (t : Tree) (path : Path) :
    (t.find? path).isSome = (t.claimAt? path).isSome := by
  rw [find?, claimAt?, List.findIdx?_isSome, Option.isSome_map, List.isSome_find?]

/-- The number of a path is that of the first node at it. -/
theorem node?_of_find? {t : Tree} {path : Path} {id : Nat} (h : t.find? path = some id) :
    ∃ node, t.node? id = some node ∧ node.path = path ∧ t.claimAt? path = some node.claim := by
  obtain ⟨inside, here, before⟩ := List.findIdx?_eq_some_iff_getElem.1 h
  refine ⟨t.nodes[id], List.getElem?_eq_getElem inside, of_decide_eq_true here, ?_⟩
  have first : t.nodes.find? (·.path = path) = some t.nodes[id] := by
    refine List.find?_eq_some_iff_getElem.2 ⟨here, id, inside, rfl, fun j earlier => ?_⟩
    simpa using before j earlier
  rw [claimAt?, first, Option.map_some]

theorem lt_size_of_find? {t : Tree} {path : Path} {id : Nat} (h : t.find? path = some id) :
    id < t.size := by
  obtain ⟨inside, -, -⟩ := List.findIdx?_eq_some_iff_getElem.1 h
  exact inside

theorem pathOf_of_find? {t : Tree} {path : Path} {id : Nat} (h : t.find? path = some id) :
    t.pathOf id = path := by
  obtain ⟨node, found, rfl, -⟩ := node?_of_find? h
  rw [pathOf, found, Option.elim_some]

/-- No two paths have one number. -/
theorem eq_of_find? {t : Tree} {path other : Path} {id : Nat} (found : t.find? path = some id)
    (foundToo : t.find? other = some id) : path = other := by
  rw [← pathOf_of_find? found, pathOf_of_find? foundToo]

/-! ## What the parts of a declaration do -/

@[simp] theorem paths_claim (t : Tree) (path : Path) (claim : Claim) :
    (t.claim path claim).paths = t.paths := by
  rw [paths, Tree.claim, List.map_map]
  refine List.map_congr_left fun node _ => ?_
  by_cases here : node.path = path <;> simp [here]

@[simp] theorem paths_push (t : Tree) (path : Path) (claim : Claim) :
    (t.push path claim).paths = t.paths ++ [path] :=
  List.map_append

/-- A claim at a path replaces the one held there and leaves the others. -/
theorem claimAt?_claim (t : Tree) (path other : Path) (claim : Claim) :
    (t.claim path claim).claimAt? other =
      if other = path then (t.claimAt? path).map fun _ => claim else t.claimAt? other := by
  obtain ⟨nodes⟩ := t
  simp only [Tree.claim, claimAt?]
  induction nodes with
  | nil => simp
  | cons first rest ih =>
    by_cases here : first.path = path <;> by_cases asked : first.path = other <;> grind

/-- A further node is found where no node was found. -/
theorem claimAt?_push (t : Tree) (path other : Path) (claim : Claim) :
    (t.push path claim).claimAt? other =
      (t.claimAt? other).or (if other = path then some claim else none) := by
  rw [claimAt?, push, List.find?_append, Option.map_or, ← claimAt?, List.find?_singleton]
  by_cases here : path = other <;> simp [here, eq_comm]

theorem claimAt?_reserve (t : Tree) (path other : Path) :
    (t.reserve path).claimAt? other =
      (t.claimAt? other).or (if other = path then some .unclaimed else none) := by
  rw [reserve, find?_isSome_eq]
  split
  next stands =>
    by_cases here : other = path
    · subst here
      rw [Option.or_of_isSome stands]
    · rw [if_neg here, Option.or_none]
  next => exact claimAt?_push ..

/-- Reserving paths adds unclaimed nodes where none stood. -/
theorem claimAt?_reserveAll (t : Tree) (paths : List Path) (other : Path) :
    (paths.foldl reserve t).claimAt? other =
      (t.claimAt? other).or (if other ∈ paths then some .unclaimed else none) := by
  induction paths generalizing t with
  | nil => simp
  | cons first rest ih =>
    rw [List.foldl_cons, ih, claimAt?_reserve, Option.or_assoc]
    congr 1
    by_cases here : other = first <;> by_cases later : other ∈ rest <;> simp [here, later]

theorem paths_reserve (t : Tree) (path : Path) : t.paths <+: (t.reserve path).paths := by
  unfold reserve
  split
  · exact List.prefix_refl _
  · rw [paths_push]
    exact List.prefix_append ..

theorem paths_reserveAll (t : Tree) (paths : List Path) :
    t.paths <+: (paths.foldl reserve t).paths := by
  induction paths generalizing t with
  | nil => exact List.prefix_refl _
  | cons first rest ih => exact (paths_reserve t first).trans (ih _)

/-! ## What a declaration does -/

/-- **All that a declaration which succeeds can do**: merge its claim with the one held at its path,
or add the missing ancestors and a node of its own. -/
theorem declare_eq_ok {base : Nat} {path : Path} {further : Claim} {t grown : Tree} {id : Nat}
    (h : declare base path further t = .ok id grown) :
    (∃ held merged, t.find? (t.pathOf base ++ path) = some id ∧
      t.claimAt? (t.pathOf base ++ path) = some held ∧ held.merge? further = some merged ∧
      grown = t.claim (t.pathOf base ++ path) merged) ∨
    (t.claimAt? (t.pathOf base ++ path) = none ∧
      grown = ((t.pathOf base ++ path).between.foldl reserve t).push
        (t.pathOf base ++ path) further) := by
  unfold declare at h
  simp only at h
  split at h
  next id' held found claimed =>
    split at h
    next merged merges =>
      cases h
      exact .inl ⟨held, merged, found, claimed, merges, rfl⟩
    next => cases h
  next absent =>
    cases h
    refine .inr ⟨?_, rfl⟩
    have same := find?_isSome_eq t (t.pathOf base ++ path)
    cases claimed : t.claimAt? (t.pathOf base ++ path) with
    | none => rfl
    | some held =>
      rw [claimed] at same
      obtain ⟨id, found⟩ := Option.isSome_iff_exists.1 same
      exact absurd claimed (absent id held found)

/-- **A tree has grown into another**: its paths keep their numbers, and its claims are kept or
refined. -/
structure Grows (t grown : Tree) : Prop where
  paths : t.paths <+: grown.paths
  claims : ∀ {path : Path} {held : Claim}, t.claimAt? path = some held →
    ∃ further, grown.claimAt? path = some further ∧ further.Refines held

theorem grows_refl (t : Tree) : t.Grows t :=
  ⟨List.prefix_refl _, fun claimed => ⟨_, claimed, Claim.refines_refl _⟩⟩

theorem Grows.trans {a b c : Tree} (earlier : a.Grows b) (later : b.Grows c) : a.Grows c := by
  refine ⟨earlier.paths.trans later.paths, fun claimed => ?_⟩
  obtain ⟨between, claimed, refines⟩ := earlier.claims claimed
  obtain ⟨further, claimed, refinesToo⟩ := later.claims claimed
  exact ⟨further, claimed, refinesToo.trans refines⟩

/-- Whether something is declared at a path. -/
def Knows (t : Tree) (path : Path) : Prop :=
  ∃ claim, t.claimAt? path = some claim ∧ claim.kind ≠ .unknown

/-- What is declared in a tree stays declared. -/
theorem Grows.knows {t grown : Tree} (grows : t.Grows grown) {path : Path} (knows : t.Knows path) :
    grown.Knows path := by
  obtain ⟨held, claimed, known⟩ := knows
  obtain ⟨further, claimed, refines⟩ := grows.claims claimed
  exact ⟨further, claimed, by rwa [refines.kind_eq known]⟩

theorem Grows.size_le {t grown : Tree} (grows : t.Grows grown) : t.size ≤ grown.size := by
  have := grows.paths.length_le
  rwa [Tree.paths, Tree.paths, List.length_map, List.length_map] at this

/-- A number keeps its path. -/
theorem Grows.pathOf_eq {t grown : Tree} (grows : t.Grows grown) {id : Nat} (inside : id < t.size) :
    grown.pathOf id = t.pathOf id := by
  have inside' : id < t.paths.length := by rwa [Tree.paths, List.length_map]
  obtain ⟨further, same⟩ := grows.paths
  rw [Tree.pathOf_eq, Tree.pathOf_eq, ← same, List.getElem?_append_left inside']

/-- A path keeps its number. -/
theorem Grows.find?_eq {t grown : Tree} (grows : t.Grows grown) {path : Path} {id : Nat}
    (found : t.find? path = some id) : grown.find? path = some id := by
  obtain ⟨further, same⟩ := grows.paths
  rw [Tree.find?_eq] at found ⊢
  rw [← same, List.findIdx?_append, found, Option.some_or]

theorem between_ne {path other : Path} (mem : other ∈ path.between) : other ≠ path := by
  obtain ⟨n, inside, rfl⟩ := List.mem_map.1 mem
  have short := List.mem_range.1 inside
  intro same
  have := congrArg List.length same
  rw [List.length_take] at this
  omega

/-- **A declaration that succeeds lets the tree grow, and its path is declared from then on.** -/
theorem grows_of_declare {base : Nat} {path : Path} {further : Claim} {t grown : Tree} {id : Nat}
    (h : declare base path further t = .ok id grown) (known : further.kind ≠ .unknown) :
    t.Grows grown ∧ grown.Knows (t.pathOf base ++ path) := by
  rcases declare_eq_ok h with ⟨held, merged, -, claimed, merges, rfl⟩ | ⟨absent, rfl⟩
  · refine ⟨⟨?_, fun {other claim} claimedToo => ?_⟩, ?_⟩
    · simp only [paths_claim, List.prefix_rfl]
    · rw [claimAt?_claim]
      split
      next here =>
        subst here
        rw [claimed] at claimedToo ⊢
        cases claimedToo
        exact ⟨merged, rfl, Claim.refines_of_merge? merges⟩
      next => exact ⟨claim, claimedToo, Claim.refines_refl claim⟩
    · refine ⟨merged, ?_, Claim.known_of_merge? merges known⟩
      rw [claimAt?_claim, if_pos rfl, claimed, Option.map_some]
  · refine ⟨⟨?_, fun {other claim} claimedToo => ?_⟩, ?_⟩
    · rw [paths_push]
      exact (paths_reserveAll t _).trans (List.prefix_append ..)
    · refine ⟨claim, ?_, Claim.refines_refl claim⟩
      rw [claimAt?_push, claimAt?_reserveAll, claimedToo, Option.some_or, Option.some_or]
    · refine ⟨further, ?_, known⟩
      rw [claimAt?_push, claimAt?_reserveAll, absent, if_pos rfl,
        if_neg fun mem => between_ne mem rfl]
      rfl

end Tree

end FrontEnd

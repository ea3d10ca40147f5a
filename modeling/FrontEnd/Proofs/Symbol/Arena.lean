import FrontEnd.Proofs.Guarded
import FrontEnd.Proofs.Symbol.PathMap
import FrontEnd.Proofs.Symbol.Registered
import Mathlib.Data.List.Induction
import Mathlib.Data.List.Perm.Subperm

/-!
# The symbol tree by number

A symbol tree can be kept in an arena: a list of entries that lead to each other by number, down to
those that stand below an entry and up to the one it stands in (`Arena`). A number may lead nowhere,
and a way up may have no end, so every operation on an arena is partial.

An arena links a tree when behind the number of each path stands an entry that holds the claim of
the path and has the numbers of its neighbours (`Arena.Links`). Such an arena grows with the tree:
entering the segments of a path one by one reserves its beginnings one by one.

**The laws**: from every number the way up ends at the root and spells the path
(`Arena.Links.pathOf?_eq`); and a declaration by number is answered by that at the path
(`Arena.answers_declare`). No operation misses an entry.
-/

namespace FrontEnd

/-- **An entry of an arena**, with the numbers of its neighbours. -/
structure Linked where
  segment : String
  claim : Claim
  children : List (String × Nat)
  parent : Option Nat

/-- **An arena**: entries that lead to each other by number. -/
structure Arena where
  entries : List Linked

namespace Arena

/-- The arena of the root alone. -/
def empty : Arena :=
  ⟨[⟨"", ⟨.builtin, .empty⟩, [], none⟩]⟩

/-- The number of entries. -/
def size (a : Arena) : Nat :=
  a.entries.length

/-- The entry with a number. -/
def linked? (a : Arena) (id : Nat) : Option Linked :=
  a.entries[id]?

/-- An arena in which the entry with a number is changed. -/
def update? (a : Arena) (id : Nat) (change : Linked → Linked) : Option Arena :=
  (a.linked? id).map fun entry => ⟨a.entries.set id (change entry)⟩

/-- The number of what stands below an entry at a segment, if something does. -/
def child? (a : Arena) (id : Nat) (segment : String) : Option (Option Nat) :=
  (a.linked? id).map fun entry => entry.children.lookup segment

/-- **The number of what stands below an entry at a segment**, which is entered if nothing does. -/
def enter? (a : Arena) (parent : Nat) (segment : String) : Option (Nat × Arena) := do
  match ← a.child? parent segment with
  | some child => return (child, a)
  | none =>
    let opened : Arena := ⟨a.entries ++ [⟨segment, .unclaimed, [], some parent⟩]⟩
    let grown ← opened.update? parent fun entry =>
      { entry with children := (segment, a.size) :: entry.children }
    return (a.size, grown)

/-- The number at the end of a path below an entry, whose segments are entered one by one. -/
def enterAll? (a : Arena) (base : Nat) (path : Path) : Option (Nat × Arena) :=
  path.foldlM (fun reached segment => reached.2.enter? reached.1 segment) (base, a)

/-- The number at the end of a path below an entry, if the path is there. -/
def lookup? (a : Arena) (base : Nat) : Path → Option (Option Nat)
  | [] => some (some base)
  | segment :: rest => do
    match ← a.child? base segment with
    | none => return none
    | some child => a.lookup? child rest

/-- The segments on the way up from an entry, the outermost first; a longer way than the bound is
not followed. -/
def climb? (a : Arena) : Nat → Nat → Option Path
  | 0, _ => none
  | bound + 1, id => do
    let entry ← a.linked? id
    match entry.parent with
    | none => return []
    | some parent => return (← a.climb? bound parent) ++ [entry.segment]

/-- **The path of an entry**, read on the way up. -/
def pathOf? (a : Arena) (id : Nat) : Option Path :=
  a.climb? a.size id

/-- **Declares a claim at a path below an entry** and gives the number there. The whole path is read
in every case: it is not only what a fault names but also what a log of declarations does. -/
def declare (base : Nat) (path : Path) (further : Claim) : Guarded Arena Nat := fun a => do
  let (id, grown) ← demand (a.enterAll? base path)
  let entry ← demand (grown.linked? id)
  let whole ← demand (grown.pathOf? id)
  match entry.claim.merge? further with
  | some merged =>
    let changed ← demand (grown.update? id fun entry => { entry with claim := merged })
    return (id, changed)
  | none => throw ⟨.duplicateDeclaration whole.written, further.value.position⟩

end Arena

/-! ## Reserving the beginnings of a path -/

/-- The beginnings of a path but for the empty one, the shortest first. -/
def Path.steps (path : Path) : List Path :=
  (List.range path.length).map fun n => path.take (n + 1)

/-- The steps to a path below another are those to the other, and one more. -/
theorem Path.steps_concat (path : Path) (segment : String) :
    steps (path ++ [segment]) = path.steps ++ [path ++ [segment]] := by
  have whole : (path ++ [segment]).take (path.length + 1) = path ++ [segment] := by
    apply List.take_of_length_le
    simp
  have shorter : ∀ n ∈ List.range path.length,
      (path ++ [segment]).take (n + 1) = path.take (n + 1) := by
    intro n inside
    exact List.take_append_of_le_length (List.mem_range.1 inside)
  rw [steps, List.length_append, List.length_singleton, List.range_succ, List.map_append,
    List.map_singleton, whole, List.map_congr_left shorter]
  rfl

/-- What stands between the root and a path below another are the steps to the other. -/
theorem Path.between_concat (path : Path) (segment : String) :
    between (path ++ [segment]) = path.steps := by
  rw [between, List.length_append, List.length_singleton, Nat.add_sub_cancel]
  apply List.map_congr_left
  intro n inside
  exact List.take_append_of_le_length (List.mem_range.1 inside)

theorem Path.prefix_of_mem_steps {path outer : Path} (mem : outer ∈ path.steps) : outer <+: path := by
  obtain ⟨n, -, rfl⟩ := List.mem_map.1 mem
  exact List.take_prefix ..

namespace Tree

variable {t grown : Tree} {path : Path} {id : Nat}

theorem find?_isSome_iff : (t.find? path).isSome ↔ path ∈ t.paths := by
  rw [find?_isSome_eq, Option.isSome_iff_exists, mem_paths_iff]

theorem find?_eq_none_iff : t.find? path = none ↔ path ∉ t.paths := by
  rw [← find?_isSome_iff, Option.not_isSome_iff_eq_none]

theorem mem_paths_of_find? (found : t.find? path = some id) : path ∈ t.paths := by
  rw [← find?_isSome_iff, found]
  rfl

/-- A path keeps its number while paths are only added. -/
theorem find?_of_prefix (within : t.paths <+: grown.paths) (found : t.find? path = some id) :
    grown.find? path = some id := by
  obtain ⟨further, same⟩ := within
  rw [find?_eq] at found ⊢
  rw [← same, List.findIdx?_append, found, Option.some_or]

/-- A further path has the next number. -/
theorem find?_push (t : Tree) (path other : Path) (claim : Claim) :
    (t.push path claim).find? other =
      (t.find? other).or (if other = path then some t.size else none) := by
  have length : t.paths.length = t.size := List.length_map ..
  rw [find?_eq, find?_eq, paths_push, List.findIdx?_append, length, List.findIdx?_singleton]
  by_cases here : path = other <;> simp [here, eq_comm]

/-- What stands around a path that stands keeps its number when another path is added. -/
theorem IsMap.find?_dropLast_push {other : Path} (isMap : t.IsMap) (mem : other ∈ t.paths)
    (claim : Claim) : (t.push path claim).find? other.dropLast = t.find? other.dropLast := by
  have within := isMap.closed mem (List.dropLast_prefix other)
  obtain ⟨number, known⟩ := Option.isSome_iff_exists.1 (Tree.find?_isSome_iff.2 within)
  rw [Tree.find?_push, known, Option.some_or]

theorem reserve_of_mem (mem : path ∈ t.paths) : t.reserve path = t :=
  if_pos (find?_isSome_iff.2 mem)

theorem reserve_of_not_mem (fresh : path ∉ t.paths) : t.reserve path = t.push path .unclaimed := by
  apply if_neg
  rw [find?_isSome_iff]
  exact fresh

/-- Reserving paths that stand changes nothing. -/
theorem reserveAll_of_mem {paths : List Path} (stand : ∀ path ∈ paths, path ∈ t.paths) :
    paths.foldl reserve t = t := by
  induction paths with
  | nil => rfl
  | cons first rest ih =>
    rw [List.foldl_cons, reserve_of_mem (stand first List.mem_cons_self)]
    exact ih fun path mem => stand path (List.mem_cons_of_mem _ mem)

/-- In a map the steps to a path that stands are there. -/
theorem IsMap.reserveAll_steps (isMap : t.IsMap) (mem : path ∈ t.paths) :
    path.steps.foldl reserve t = t :=
  reserveAll_of_mem fun _ step => isMap.closed mem (Path.prefix_of_mem_steps step)

/-- A claim at a path that was just added takes the place of the one that it was added with. -/
theorem claim_push (fresh : path ∉ t.paths) (held further : Claim) :
    (t.push path held).claim path further = t.push path further := by
  have others : ∀ node ∈ t.nodes,
      (if node.path = path then { node with claim := further } else node) = node := by
    intro node mem
    apply if_neg
    rintro rfl
    exact fresh (List.mem_map_of_mem mem)
  rw [Tree.claim, push, push, List.map_append, List.map_congr_left others]
  simp

/-- Whether a tree is a map is a matter of its paths. -/
theorem IsMap.of_paths (isMap : t.IsMap) (same : grown.paths = t.paths) : grown.IsMap where
  distinct := same ▸ isMap.distinct
  closed := by
    rw [same]
    exact isMap.closed

/-- A further segment below a path that stands keeps a map. -/
theorem IsMap.push_concat {segment : String} (isMap : t.IsMap) (root : [] ∈ t.paths)
    (mem : path ∈ t.paths) (fresh : path ++ [segment] ∉ t.paths) (claim : Claim) :
    (t.push (path ++ [segment]) claim).IsMap := by
  have grows := isMap.push_reserveAll root fresh claim
  rw [Path.between_concat, isMap.reserveAll_steps mem] at grows
  exact grows

/-- **In a map a path is shorter than the number of nodes**, since its beginnings are distinct. -/
theorem IsMap.length_lt_size (isMap : t.IsMap) (mem : path ∈ t.paths) : path.length < t.size := by
  have distinct : ((List.range (path.length + 1)).map path.take).Nodup := by
    apply List.Nodup.map_on _ List.nodup_range
    intro n inside m insideToo same
    have lengths := congrArg List.length same
    rw [List.length_take, List.length_take] at lengths
    have := List.mem_range.1 inside
    have := List.mem_range.1 insideToo
    omega
  have stand : (List.range (path.length + 1)).map path.take ⊆ t.paths := by
    intro outer begins
    obtain ⟨n, -, rfl⟩ := List.mem_map.1 begins
    exact isMap.closed mem (List.take_prefix ..)
  have bound := (distinct.subperm stand).length_le
  rw [List.length_map, List.length_range, paths, List.length_map] at bound
  exact bound

/-- **A declaration reserves the steps to its path and merges its claim there.** -/
theorem declare_eq_claim {base : Nat} {path target : Path} (isMap : t.IsMap)
    (root : [] ∈ t.paths) (whole : t.pathOf base ++ path = target) (further : Claim) :
    ∃ id held, (target.steps.foldl reserve t).find? target = some id ∧
      (target.steps.foldl reserve t).claimAt? target = some held ∧
      declare base path further t =
        match held.merge? further with
        | some merged => .ok id ((target.steps.foldl reserve t).claim target merged)
        | none => .error ⟨.duplicateDeclaration target.written, further.value.position⟩ t := by
  subst whole
  cases claimed : t.claimAt? (t.pathOf base ++ path) with
  | some held =>
    obtain ⟨id, found, run⟩ := declare_of_claimed further claimed
    rw [isMap.reserveAll_steps (mem_paths_iff.2 ⟨held, claimed⟩)]
    exact ⟨id, held, found, claimed, run⟩
  | none =>
    rw [declare_of_absent further claimed]
    have absent := claimAt?_eq_none_iff.1 claimed
    generalize (t.pathOf base ++ path : Path) = target at claimed absent
    cases target using List.reverseRecOn with
    | nil => exact absurd root absent
    | append_singleton outer segment =>
      rw [Path.between_concat, Path.steps_concat, List.foldl_append, List.foldl_cons, List.foldl_nil]
      have fresh : outer ++ [segment] ∉ ((Path.steps outer).foldl reserve t).paths := by
        rw [mem_paths_reserveAll]
        rintro (stands | step)
        · exact absent stands
        · have shorter := (Path.prefix_of_mem_steps step).length_le
          rw [List.length_append, List.length_singleton] at shorter
          omega
      rw [reserve_of_not_mem fresh]
      refine ⟨((Path.steps outer).foldl reserve t).size, .unclaimed, ?_, ?_, ?_⟩
      · rw [find?_push, find?_eq_none_iff.2 fresh, if_pos rfl, Option.none_or]
      · rw [claimAt?_push, claimAt?_eq_none_iff.2 fresh, if_pos rfl, Option.none_or]
      · have merges : Claim.unclaimed.merge? further = some further := rfl
        simp only [merges, claim_push fresh]

end Tree

/-! ## Arenas that link a tree -/

/-- **An entry stands at a path** of a tree: it holds the claim of the path, and its neighbours are
at their numbers. -/
structure Linked.StandsAt (entry : Linked) (t : Tree) (path : Path) : Prop where
  segment : entry.segment = path.getLastD ""
  claim : t.claimAt? path = some entry.claim
  parent : entry.parent = if path = [] then none else t.find? path.dropLast
  children : ∀ segment, entry.children.lookup segment = t.find? (path ++ [segment])

namespace Linked

variable {t changed : Tree} {entry : Linked} {path other : Path} {segment : String} {id : Nat}
  {claim : Claim}

/-- An entry at a path below the root leads up to the number of what the path stands in. -/
theorem StandsAt.above (stands : entry.StandsAt t path) (isMap : t.IsMap) (mem : path ∈ t.paths)
    (below : path ≠ []) :
    ∃ parent, entry.parent = some parent ∧ t.find? path.dropLast = some parent := by
  have within := isMap.closed mem (List.dropLast_prefix path)
  obtain ⟨parent, found⟩ := Option.isSome_iff_exists.1 (Tree.find?_isSome_iff.2 within)
  refine ⟨parent, ?_, found⟩
  rw [stands.parent, if_neg below, found]

/-- In a tree with the same numbers an entry stands where it stood, with the claim that is held
there. -/
theorem StandsAt.hold (stands : entry.StandsAt t path)
    (same : ∀ other, changed.find? other = t.find? other) (held : changed.claimAt? path = some claim) :
    StandsAt { entry with claim := claim } changed path where
  segment := stands.segment
  claim := held
  parent := by rw [same, stands.parent]
  children := by
    intro text
    rw [same, stands.children]

/-- An entry stands where it stood when a path is added that is not right below. -/
theorem StandsAt.push_apart (stands : entry.StandsAt t other) (isMap : t.IsMap)
    (mem : other ∈ t.paths) (apart : other ≠ path) :
    entry.StandsAt (t.push (path ++ [segment]) claim) other where
  segment := stands.segment
  claim := by rw [Tree.claimAt?_push, stands.claim, Option.some_or]
  parent := by rw [isMap.find?_dropLast_push mem, stands.parent]
  children := by
    intro text
    have elsewhere : other ++ [text] ≠ path ++ [segment] := by
      intro same
      exact apart (List.append_inj_left' same rfl)
    rw [Tree.find?_push, if_neg elsewhere, Option.or_none, stands.children]

/-- With the number of a path that is added right below, an entry stands where it stood. -/
theorem StandsAt.push_child (stands : entry.StandsAt t path) (isMap : t.IsMap)
    (mem : path ∈ t.paths) (fresh : path ++ [segment] ∉ t.paths) :
    StandsAt { entry with children := (segment, t.size) :: entry.children }
      (t.push (path ++ [segment]) claim) path where
  segment := stands.segment
  claim := by rw [Tree.claimAt?_push, stands.claim, Option.some_or]
  parent := by rw [isMap.find?_dropLast_push mem, stands.parent]
  children := by
    intro text
    rw [Tree.find?_push, List.lookup_cons]
    by_cases same : text = segment
    · rw [same, Tree.find?_eq_none_iff.2 fresh, if_pos rfl, Option.none_or, beq_self_eq_true]
    · have elsewhere : path ++ [text] ≠ path ++ [segment] := by
        intro whole
        exact same (List.cons.inj (List.append_cancel_left whole)).1
      rw [beq_false_of_ne same, if_neg elsewhere, Option.or_none]
      exact stands.children text

/-- A fresh entry stands at the path that is added. -/
theorem standsAt_push (isMap : t.IsMap) (found : t.find? path = some id)
    (fresh : path ++ [segment] ∉ t.paths) :
    StandsAt ⟨segment, claim, [], some id⟩ (t.push (path ++ [segment]) claim)
      (path ++ [segment]) where
  segment := (List.getLastD_concat ..).symm
  claim := by rw [Tree.claimAt?_push, Tree.claimAt?_eq_none_iff.2 fresh, if_pos rfl, Option.none_or]
  parent := by
    rw [if_neg (List.append_ne_nil_of_right_ne_nil _ (List.cons_ne_nil _ _)), List.dropLast_concat,
      Tree.find?_push, found, Option.some_or]
  children := by
    intro text
    have absent : path ++ [segment] ++ [text] ∉ t.paths := fun mem =>
      fresh (isMap.closed mem (List.prefix_append ..))
    have below : path ++ [segment] ++ [text] ≠ path ++ [segment] := by
      intro same
      simpa using congrArg List.length same
    rw [Tree.find?_push, Tree.find?_eq_none_iff.2 absent, if_neg below]
    rfl

end Linked

namespace Arena

/-- **An arena links a tree**: behind the number of each path stands an entry at it. -/
structure Links (a : Arena) (t : Tree) : Prop where
  isMap : t.IsMap
  hasRoot : t.HasRoot
  size : a.size = t.size
  stands : ∀ {path : Path} {id : Nat}, t.find? path = some id →
    ∃ entry, a.linked? id = some entry ∧ entry.StandsAt t path

variable {a : Arena} {t : Tree} {path : Path} {id : Nat}

theorem links_empty : empty.Links .empty where
  isMap := Tree.isMap_empty
  hasRoot := rfl
  size := rfl
  stands := by
    intro path id found
    obtain rfl : path = [] := List.mem_singleton.1 (Tree.mem_paths_of_find? found)
    cases found
    refine ⟨_, rfl, rfl, rfl, rfl, fun segment => ?_⟩
    rfl

/-- A change of an entry leaves the others, and their number. -/
theorem update?_eq_some {entry : Linked} (here : a.linked? id = some entry)
    (change : Linked → Linked) : ∃ changed : Arena, a.update? id change = some changed ∧
      changed.size = a.size ∧ ∀ other, changed.linked? other =
        if other = id then some (change entry) else a.linked? other := by
  refine ⟨⟨a.entries.set id (change entry)⟩, ?_, List.length_set .., fun other => ?_⟩
  · rw [update?, here, Option.map_some]
  · have inside : id < a.entries.length := (List.getElem?_eq_some_iff.1 here).1
    rw [linked?, List.getElem?_set]
    by_cases same : id = other
    · rw [if_pos same, if_pos inside, if_pos same.symm]
    · rw [if_neg same, if_neg (Ne.symm same)]
      rfl

namespace Links

/-- **Down**: what stands below a path has its number there. -/
theorem child?_eq (links : a.Links t) (found : t.find? path = some id) (segment : String) :
    a.child? id segment = some (t.find? (path ++ [segment])) := by
  obtain ⟨entry, here, stands⟩ := links.stands found
  rw [child?, here, Option.map_some, stands.children]

/-- A path below another is found by its number. -/
theorem lookup?_eq (links : a.Links t) (found : t.find? path = some id) (below : Path) :
    a.lookup? id below = some (t.find? (path ++ below)) := by
  induction below generalizing path id with
  | nil => rw [lookup?, List.append_nil, found]
  | cons segment rest ih =>
    have split : path ++ segment :: rest = path ++ [segment] ++ rest := by simp
    rw [lookup?, links.child?_eq found, Option.bind_eq_bind, Option.bind_some]
    cases next : t.find? (path ++ [segment]) with
    | none =>
      have absent : path ++ segment :: rest ∉ t.paths := by
        intro mem
        apply Tree.find?_eq_none_iff.1 next
        rw [split] at mem
        exact links.isMap.closed mem (List.prefix_append ..)
      rw [Tree.find?_eq_none_iff.2 absent]
      rfl
    | some child =>
      rw [split]
      exact ih next

/-- The way up from a path is as long as the path. -/
theorem climb?_eq (links : a.Links t) {bound : Nat} (found : t.find? path = some id)
    (enough : path.length < bound) : a.climb? bound id = some path := by
  induction bound generalizing path id with
  | zero => exact absurd enough (Nat.not_lt_zero _)
  | succ bound ih =>
    obtain ⟨entry, here, stands⟩ := links.stands found
    rw [climb?, here, Option.bind_eq_bind, Option.bind_some]
    cases path using List.reverseRecOn with
    | nil =>
      have top : entry.parent = none := stands.parent
      rw [top]
      rfl
    | append_singleton outer segment =>
      obtain ⟨parent, up, atOuter⟩ := stands.above links.isMap (Tree.mem_paths_of_find? found)
        (List.append_ne_nil_of_right_ne_nil _ (List.cons_ne_nil _ _))
      rw [List.dropLast_concat] at atOuter
      rw [List.length_append, List.length_singleton] at enough
      rw [up]
      simp only [ih atOuter (by omega), stands.segment, List.getLastD_concat]
      rfl

/-- **Up**: from every number the way up ends at the root, and spells the path. -/
theorem pathOf?_eq (links : a.Links t) (found : t.find? path = some id) :
    a.pathOf? id = some path := by
  apply links.climb?_eq found
  rw [links.size]
  exact links.isMap.length_lt_size (Tree.mem_paths_of_find? found)

/-- A change of the claim of an entry is one at its path. -/
theorem claim (links : a.Links t) (found : t.find? path = some id) (further : Claim) :
    ∃ changed : Arena, a.update? id (fun entry => { entry with claim := further }) = some changed ∧
      changed.Links (t.claim path further) := by
  obtain ⟨entry, here, stands⟩ := links.stands found
  obtain ⟨changed, updated, size, entries⟩ :=
    update?_eq_some here fun entry => { entry with claim := further }
  have same (other : Path) : (t.claim path further).find? other = t.find? other := by
    rw [Tree.find?_eq, Tree.paths_claim, ← Tree.find?_eq]
  refine ⟨changed, updated, links.isMap.of_paths (Tree.paths_claim ..), ?_, ?_, ?_⟩
  · exact (same []).trans links.hasRoot
  · rw [size, links.size]
    exact (List.length_map ..).symm
  · intro other number foundToo
    rw [same] at foundToo
    rw [entries]
    by_cases isHere : other = path
    · subst isHere
      cases found.symm.trans foundToo
      refine ⟨_, if_pos rfl, stands.hold same ?_⟩
      rw [Tree.claimAt?_claim, if_pos rfl, stands.claim]
      rfl
    · have apart : number ≠ id := by
        rintro rfl
        exact isHere (Tree.eq_of_find? foundToo found)
      obtain ⟨entry, there, stands⟩ := links.stands foundToo
      refine ⟨entry, (if_neg apart).trans there, stands.hold same ?_⟩
      rw [Tree.claimAt?_claim, if_neg isHere]
      exact stands.claim

/-- A further entry below another links the tree with a further path. -/
theorem adopt {segment : String} (links : a.Links t) (found : t.find? path = some id)
    (fresh : path ++ [segment] ∉ t.paths) : ∃ grown : Arena,
      update? ⟨a.entries ++ [⟨segment, .unclaimed, [], some id⟩]⟩ id (fun entry =>
        { entry with children := (segment, a.size) :: entry.children }) = some grown ∧
      grown.Links (t.push (path ++ [segment]) .unclaimed) := by
  obtain ⟨above, here, standsAbove⟩ := links.stands found
  have openedHere {number : Nat} (inside : number < a.size) :
      linked? ⟨a.entries ++ [⟨segment, .unclaimed, [], some id⟩]⟩ number = a.linked? number :=
    List.getElem?_append_left inside
  have inside : id < a.size := (List.getElem?_eq_some_iff.1 here).1
  obtain ⟨grown, updated, size, entries⟩ := update?_eq_some ((openedHere inside).trans here)
    fun entry => { entry with children := (segment, a.size) :: entry.children }
  have sizes : grown.size = (t.push (path ++ [segment]) .unclaimed).size := by
    rw [size, Arena.size, Tree.size, Tree.push, List.length_append, List.length_append]
    exact congrArg (· + 1) links.size
  have root := Tree.mem_paths_of_find? links.hasRoot
  have mem := Tree.mem_paths_of_find? found
  refine ⟨grown, updated, links.isMap.push_concat root mem fresh _, ?_, sizes, ?_⟩
  · rw [Tree.HasRoot, Tree.find?_push, links.hasRoot, Option.some_or]
  intro other number foundToo
  rw [Tree.find?_push] at foundToo
  rw [entries]
  cases stood : t.find? other with
  | some before =>
    rw [stood, Option.some_or] at foundToo
    cases foundToo
    by_cases isHere : other = path
    · subst isHere
      cases found.symm.trans stood
      rw [links.size]
      exact ⟨_, if_pos rfl, standsAbove.push_child links.isMap mem fresh⟩
    · have apart : number ≠ id := by
        rintro rfl
        exact isHere (Tree.eq_of_find? stood found)
      obtain ⟨entry, there, stands⟩ := links.stands stood
      have insideToo : number < a.size := (List.getElem?_eq_some_iff.1 there).1
      refine ⟨entry, ?_, stands.push_apart links.isMap (Tree.mem_paths_of_find? stood) isHere⟩
      rw [if_neg apart, openedHere insideToo, there]
  | none =>
    rw [stood, Option.none_or] at foundToo
    obtain ⟨rfl, last⟩ := Option.ite_none_right_eq_some.1 foundToo
    obtain rfl : a.size = number := links.size.trans (Option.some.inj last)
    refine ⟨_, ?_, Linked.standsAt_push links.isMap found fresh⟩
    rw [if_neg (Nat.ne_of_gt inside)]
    exact List.getElem?_concat_length ..

/-- **A step down** reserves what stands below a path, and gives its number. -/
theorem enter?_eq (links : a.Links t) (found : t.find? path = some id) (segment : String) :
    ∃ child grown, a.enter? id segment = some (child, grown) ∧
      grown.Links (t.reserve (path ++ [segment])) ∧
      (t.reserve (path ++ [segment])).find? (path ++ [segment]) = some child := by
  rw [enter?, links.child?_eq found, Option.bind_eq_bind, Option.bind_some]
  cases stands : t.find? (path ++ [segment]) with
  | some child =>
    rw [Tree.reserve_of_mem (Tree.mem_paths_of_find? stands)]
    exact ⟨child, a, rfl, links, stands⟩
  | none =>
    have fresh := Tree.find?_eq_none_iff.1 stands
    rw [Tree.reserve_of_not_mem fresh]
    obtain ⟨grown, opened, grows⟩ := links.adopt found fresh
    refine ⟨a.size, grown, ?_, grows, ?_⟩
    · simp only [opened, Option.bind_eq_bind, Option.bind_some, Option.pure_def]
    · rw [Tree.find?_push, stands, if_pos rfl, Option.none_or, links.size]

/-- **Entering the segments of a path** reserves the steps to it. -/
theorem enterAll?_eq (links : a.Links t) (found : t.find? path = some id) (below : Path) :
    ∃ reached grown, a.enterAll? id below = some (reached, grown) ∧
      grown.Links ((path ++ below).steps.foldl Tree.reserve t) ∧
      ((path ++ below).steps.foldl Tree.reserve t).find? (path ++ below) = some reached := by
  induction below using List.reverseRecOn with
  | nil =>
    rw [List.append_nil, links.isMap.reserveAll_steps (Tree.mem_paths_of_find? found)]
    exact ⟨id, a, rfl, links, found⟩
  | append_singleton below segment ih =>
    obtain ⟨reached, grown, entered, grows, atEnd⟩ := ih
    obtain ⟨child, final, stepped, growsToo, atChild⟩ := grows.enter?_eq atEnd segment
    rw [← List.append_assoc, Path.steps_concat, List.foldl_append]
    refine ⟨child, final, ?_, growsToo, atChild⟩
    rw [enterAll?] at entered ⊢
    rw [List.foldlM_append, entered]
    simp only [List.foldlM_cons, List.foldlM_nil, Option.bind_eq_bind, Option.bind_some, stepped,
      Option.pure_def]

/-- Nothing is entered on the way to a path that stands. -/
theorem enterAll?_of_find? (links : a.Links t) {below : Path} {number : Nat}
    (found : t.find? path = some id) (stands : t.find? (path ++ below) = some number) :
    a.enterAll? id below = some (number, a) := by
  induction below using List.reverseRecOn generalizing number with
  | nil =>
    rw [List.append_nil, found] at stands
    cases stands
    rfl
  | append_singleton below segment ih =>
    rw [← List.append_assoc] at stands
    have within := links.isMap.closed (Tree.mem_paths_of_find? stands) (List.prefix_append ..)
    obtain ⟨outer, atOuter⟩ := Option.isSome_iff_exists.1 (Tree.find?_isSome_iff.2 within)
    have entered := ih atOuter
    rw [enterAll?] at entered ⊢
    rw [List.foldlM_append, entered]
    simp only [List.foldlM_cons, List.foldlM_nil, Option.bind_eq_bind, Option.bind_some, enter?,
      links.child?_eq atOuter, stands, Option.pure_def]

end Links

/-! ## Declaring by number -/

/-- **An arena links a tree in which paths have numbers** that are known. -/
structure Numbered (known : List (Path × Nat)) (t : Tree) (a : Arena) : Prop where
  links : a.Links t
  found : ∀ {path : Path} {id : Nat}, (path, id) ∈ known → t.find? path = some id

/-- **A declaration at a path is answered by one by number**, below any entry on the way to it; and
the number of the path is known from then on. -/
theorem answers_declare {known : List (Path × Nat)} {base id : Nat} {module owner path below : Path}
    (atBase : (module, base) ∈ known) (atOwner : (owner, id) ∈ known)
    (same : module ++ path = owner ++ below) (further : Claim) :
    Answers (Numbered known) (Tree.declare base path further) (declare id below further)
      fun _ t reached a => Numbered ((owner ++ below, reached) :: known) t a := by
  intro t a ⟨links, found⟩
  have root := Tree.mem_paths_of_find? links.hasRoot
  have whole : t.pathOf base ++ path = owner ++ below := by
    rw [Tree.pathOf_of_find? (found atBase), same]
  obtain ⟨reached, held, stands, claimed, declares⟩ :=
    Tree.declare_eq_claim links.isMap root whole further
  obtain ⟨number, grown, entered, grows, atEnd⟩ := links.enterAll?_eq (found atOwner) below
  cases stands.symm.trans atEnd
  obtain ⟨entry, here, standsAt⟩ := grows.stands stands
  cases claimed.symm.trans standsAt.claim
  rw [declares, declare, entered, demand_some, Checked.bind_of_ok rfl]
  simp only [here, grows.pathOf?_eq stands, demand_some]
  rw [Checked.bind_of_ok rfl, Checked.bind_of_ok rfl]
  cases merges : entry.claim.merge? further with
  | some merged =>
    obtain ⟨changed, updated, changes⟩ := grows.claim stands merged
    simp only [updated, demand_some]
    rw [Checked.bind_of_ok rfl]
    have kept (path : Path) (id : Nat) (known : t.find? path = some id) :
        (((owner ++ below).steps.foldl Tree.reserve t).claim (owner ++ below) merged).find? path =
          some id := by
      apply Tree.find?_of_prefix _ known
      rw [Tree.paths_claim]
      exact Tree.paths_reserveAll ..
    refine .ended ⟨changes, fun {path id} mem => ?_⟩
    rcases List.mem_cons.1 mem with here | mem
    · cases here
      rw [Tree.find?_eq, Tree.paths_claim, ← Tree.find?_eq]
      exact stands
    · exact kept path id (found mem)
  | none => exact .halted

end Arena

end FrontEnd

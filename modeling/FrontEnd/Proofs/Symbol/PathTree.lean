import FrontEnd.Proofs.Symbol.Arena

/-!
# Path trees in an arena

An arena holds a tree twice: every entry but the root has the number of what it stands in, and every
entry has the numbers of what stands below it. It is a path tree when the two agree
(`Arena.PathTree`): the root alone stands in nothing, every other number is greater than that of
what it stands in, and a way up is the way down backwards. Entering a segment adds one step of both
ways together, behind all the numbers that there are, and a claim changes neither.

**The laws**: a path tree stays one under every declaration, accepted or refused, and misses no
entry (`Arena.PathTree.declare`); and of a path tree alone it follows that every way up ends at the
root and that paths are addresses, one for each entry (`Arena.PathTree.addressed`).
-/

namespace FrontEnd

/-- In a list with distinct keys a key leads to what stands beside it. -/
theorem lookup_eq_some_iff_mem {α β : Type} [BEq α] [LawfulBEq α] {l : List (α × β)} {k : α} {v : β}
    (distinct : (l.map Prod.fst).Nodup) : l.lookup k = some v ↔ (k, v) ∈ l := by
  induction l with
  | nil => simp
  | cons first rest ih =>
    obtain ⟨key, value⟩ := first
    obtain ⟨fresh, distinct⟩ := List.nodup_cons.1 distinct
    rw [List.lookup_cons, List.mem_cons]
    by_cases same : k = key
    · subst same
      have absent : (k, v) ∉ rest := fun mem => fresh (List.mem_map.2 ⟨_, mem, rfl⟩)
      simp [absent, eq_comm]
    · rw [beq_false_of_ne same]
      simp [ih distinct, same]

/-- **An entry stands as another does**: at the same segment, in the same entry, and above the same
entries. -/
structure Linked.Like (entry other : Linked) : Prop where
  segment : other.segment = entry.segment
  parent : other.parent = entry.parent
  children : ∀ text, other.children.lookup text = entry.children.lookup text
  distinct : (other.children.map Prod.fst).Nodup

namespace Arena

/-- **An arena is a path tree**: entry zero alone stands in no other, every other entry stands in
one with a smaller number, and the ways up and down are inverse to each other. -/
structure PathTree (a : Arena) : Prop where
  root : ∃ entry, a.linked? 0 = some entry ∧ entry.parent = none
  /-- What an entry stands in leads down to it at its segment. -/
  above : ∀ {id : Nat} {entry : Linked}, a.linked? id = some entry → id ≠ 0 →
    ∃ parent outer, entry.parent = some parent ∧ parent < id ∧ a.linked? parent = some outer ∧
      outer.children.lookup entry.segment = some id
  /-- What an entry leads down to at a segment has this segment and stands in the entry. -/
  below : ∀ {id : Nat} {entry : Linked} {segment : String} {child : Nat},
    a.linked? id = some entry → (segment, child) ∈ entry.children →
    ∃ inner, a.linked? child = some inner ∧ inner.segment = segment ∧ inner.parent = some id
  /-- No entry leads down to two at one segment. -/
  distinct : ∀ {id : Nat} {entry : Linked}, a.linked? id = some entry →
    (entry.children.map Prod.fst).Nodup

variable {a grown : Arena} {base parent id : Nat} {segment : String} {path : Path}

theorem lt_size_of_linked? {entry : Linked} (here : a.linked? id = some entry) : id < a.size :=
  (List.getElem?_eq_some_iff.1 here).1

theorem exists_linked? (inside : id < a.size) : ∃ entry, a.linked? id = some entry :=
  ⟨_, List.getElem?_eq_getElem inside⟩

/-- What is found at a segment below an entry has this segment and stands in the entry. -/
theorem PathTree.exists_child (tree : a.PathTree) {entry : Linked} {child : Nat}
    (here : a.linked? id = some entry) (leads : entry.children.lookup segment = some child) :
    ∃ inner, a.linked? child = some inner ∧ inner.segment = segment ∧ inner.parent = some id :=
  tree.below here ((lookup_eq_some_iff_mem (tree.distinct here)).1 leads)

/-! ## What a step keeps -/

theorem pathTree_empty : empty.PathTree where
  root := ⟨_, rfl, rfl⟩
  above := by
    intro id entry here notRoot
    have inside := lt_size_of_linked? here
    exact absurd (Nat.lt_one_iff.1 inside) notRoot
  below := by
    intro id entry segment child here mem
    obtain rfl : id = 0 := Nat.lt_one_iff.1 (lt_size_of_linked? here)
    cases here
    cases mem
  distinct := by
    intro id entry here
    obtain rfl : id = 0 := Nat.lt_one_iff.1 (lt_size_of_linked? here)
    cases here
    exact List.nodup_nil

/-- **An entry is entered** with the next number where nothing stands below another at a segment. -/
theorem enter?_fresh {outer : Linked} (here : a.linked? parent = some outer)
    (fresh : outer.children.lookup segment = none) :
    ∃ grown, a.enter? parent segment = some (a.size, grown) ∧ grown.size = a.size + 1 ∧
      ∀ id, grown.linked? id =
        if id = parent then some { outer with children := (segment, a.size) :: outer.children }
        else if id = a.size then some ⟨segment, .unclaimed, [], some parent⟩
        else a.linked? id := by
  have inside := lt_size_of_linked? here
  let opened : Arena := ⟨a.entries ++ [⟨segment, .unclaimed, [], some parent⟩]⟩
  have openedAt (id : Nat) : opened.linked? id =
      if id = a.size then some ⟨segment, .unclaimed, [], some parent⟩ else a.linked? id := by
    rcases Nat.lt_trichotomy id a.size with before | last | past
    · rw [if_neg (Nat.ne_of_lt before)]
      exact List.getElem?_append_left before
    · subst last
      rw [if_pos rfl]
      exact List.getElem?_concat_length
    · have short : opened.entries.length ≤ id := by
        rw [List.length_append]
        exact past
      rw [if_neg (Nat.ne_of_gt past), linked?, linked?, List.getElem?_eq_none short,
        List.getElem?_eq_none (Nat.le_of_lt past)]
  have hereToo : opened.linked? parent = some outer := by
    rw [openedAt, if_neg (Nat.ne_of_lt inside), here]
  obtain ⟨grown, updated, size, entries⟩ := update?_eq_some hereToo fun entry =>
    { entry with children := (segment, a.size) :: entry.children }
  refine ⟨grown, ?_, ?_, fun id => ?_⟩
  · rw [enter?, child?, here, Option.map_some, fresh]
    simp only [Option.bind_eq_bind, Option.bind_some, opened, updated, Option.pure_def]
  · rw [size]
    exact List.length_append
  · rw [entries, openedAt]

/-- **An arena keeps another**: an entry has the segment that it had and stands in what it stood in,
and what stood below it stands below it. -/
def Keeps (a grown : Arena) : Prop :=
  ∀ {id : Nat} {entry : Linked}, a.linked? id = some entry → ∃ kept, grown.linked? id = some kept ∧
    kept.segment = entry.segment ∧ kept.parent = entry.parent ∧
    ∀ {segment : String} {child : Nat}, entry.children.lookup segment = some child →
      kept.children.lookup segment = some child

/-- What an entry of a path tree leads down to stands in the same number in what keeps the tree. -/
theorem PathTree.below_of_keeps (tree : a.PathTree) (kept : a.Keeps grown) {entry : Linked}
    {child : Nat} (here : a.linked? id = some entry) (mem : (segment, child) ∈ entry.children) :
    ∃ inner, grown.linked? child = some inner ∧ inner.segment = segment ∧
      inner.parent = some id := by
  obtain ⟨inner, there, spelled, up⟩ := tree.below here mem
  obtain ⟨still, thereToo, same, upToo, -⟩ := kept there
  exact ⟨still, thereToo, same.trans spelled, upToo.trans up⟩

section Entering

variable {outer : Linked} (here : a.linked? parent = some outer)
  (entries : ∀ id, grown.linked? id =
    if id = parent then some { outer with children := (segment, a.size) :: outer.children }
    else if id = a.size then some ⟨segment, .unclaimed, [], some parent⟩
    else a.linked? id)

include here entries

/-- Every entry but the last was there before, and what stands below it is new below one alone. -/
theorem exists_before_enter {entry : Linked} (at_id : grown.linked? id = some entry)
    (notLast : id ≠ a.size) : ∃ old, a.linked? id = some old ∧ old.segment = entry.segment ∧
      old.parent = entry.parent ∧ (id ≠ parent → old.children = entry.children) := by
  rw [entries] at at_id
  by_cases isOuter : id = parent
  · rw [if_pos isOuter] at at_id
    cases at_id
    exact ⟨outer, isOuter ▸ here, rfl, rfl, fun other => absurd isOuter other⟩
  · rw [if_neg isOuter, if_neg notLast] at at_id
    exact ⟨entry, at_id, rfl, rfl, fun _ => rfl⟩

variable (fresh : outer.children.lookup segment = none)

include fresh

theorem keeps_enter : a.Keeps grown := by
  intro id entry at_id
  rw [entries]
  by_cases isOuter : id = parent
  · subst isOuter
    cases here.symm.trans at_id
    refine ⟨_, if_pos rfl, rfl, rfl, fun {text child} found => ?_⟩
    have other : text ≠ segment := by
      rintro rfl
      rw [fresh] at found
      cases found
    rw [List.lookup_cons, beq_false_of_ne other]
    exact found
  · have inside := lt_size_of_linked? at_id
    refine ⟨entry, ?_, rfl, rfl, fun found => found⟩
    rw [if_neg isOuter, if_neg (Nat.ne_of_lt inside), at_id]

/-- **A further entry keeps a path tree**: it has the greatest number, and the two ways between it
and what it is entered below are added together. -/
theorem PathTree.enter_fresh (tree : a.PathTree) : grown.PathTree := by
  have kept := @keeps_enter a grown parent segment outer here entries fresh
  have inside := lt_size_of_linked? here
  have last : grown.linked? a.size = some ⟨segment, .unclaimed, [], some parent⟩ := by
    rw [entries, if_neg (Nat.ne_of_gt inside), if_pos rfl]
  have changed : grown.linked? parent =
      some { outer with children := (segment, a.size) :: outer.children } := by
    rw [entries, if_pos rfl]
  have before {id : Nat} {entry : Linked} :=
    @exists_before_enter a grown parent id segment outer here entries entry
  constructor
  case root =>
    obtain ⟨entry, atRoot, top⟩ := tree.root
    obtain ⟨kept, there, -, up, -⟩ := kept atRoot
    exact ⟨kept, there, up.trans top⟩
  case above =>
    intro id entry at_id notRoot
    by_cases isLast : id = a.size
    · subst isLast
      cases last.symm.trans at_id
      exact ⟨parent, _, rfl, inside, changed, List.lookup_cons_self⟩
    · obtain ⟨old, atOld, segment', up, -⟩ := before at_id isLast
      obtain ⟨p, outer', toP, smaller, there, leads⟩ := tree.above atOld notRoot
      obtain ⟨kept, thereToo, -, -, leadsToo⟩ := kept there
      refine ⟨p, kept, up ▸ toP, smaller, thereToo, ?_⟩
      rw [← segment']
      exact leadsToo leads
  case below =>
    intro id entry text child at_id mem
    by_cases isOuter : id = parent
    · subst isOuter
      cases changed.symm.trans at_id
      rcases List.mem_cons.1 mem with new | mem
      · cases new
        exact ⟨_, last, rfl, rfl⟩
      · exact tree.below_of_keeps kept here mem
    · by_cases isLast : id = a.size
      · subst isLast
        cases last.symm.trans at_id
        cases mem
      · obtain ⟨old, atOld, -, -, children⟩ := before at_id isLast
        rw [← children isOuter] at mem
        exact tree.below_of_keeps kept atOld mem
  case distinct =>
    intro id entry at_id
    by_cases isOuter : id = parent
    · subst isOuter
      cases changed.symm.trans at_id
      refine List.nodup_cons.2 ⟨fun mem => ?_, tree.distinct here⟩
      obtain ⟨⟨text, child⟩, stands, same⟩ := List.mem_map.1 mem
      obtain rfl : text = segment := same
      have found := (lookup_eq_some_iff_mem (tree.distinct here)).2 stands
      rw [fresh] at found
      cases found
    · by_cases isLast : id = a.size
      · subst isLast
        cases last.symm.trans at_id
        exact List.nodup_nil
      · obtain ⟨old, atOld, -, -, children⟩ := before at_id isLast
        rw [← children isOuter]
        exact tree.distinct atOld

end Entering

/-- **A step down keeps a path tree**, whether it finds what stands there or enters it. -/
theorem PathTree.enter? (tree : a.PathTree) (inside : parent < a.size) (segment : String) :
    ∃ child grown, a.enter? parent segment = some (child, grown) ∧ grown.PathTree ∧
      child < grown.size := by
  obtain ⟨outer, here⟩ := exists_linked? inside
  cases stands : outer.children.lookup segment with
  | some child =>
    obtain ⟨inner, there, -⟩ := tree.exists_child here stands
    refine ⟨child, a, ?_, tree, lt_size_of_linked? there⟩
    rw [Arena.enter?, child?, here, Option.map_some, stands]
    rfl
  | none =>
    obtain ⟨grown, entered, size, entries⟩ := enter?_fresh here stands
    exact ⟨a.size, grown, entered, tree.enter_fresh here entries stands, by omega⟩

/-- **Entering the segments of a path keeps a path tree**, one step down after the other. -/
theorem PathTree.enterAll? (tree : a.PathTree) (inside : base < a.size) (path : Path) :
    ∃ reached grown, a.enterAll? base path = some (reached, grown) ∧ grown.PathTree ∧
      reached < grown.size := by
  induction path generalizing a base with
  | nil => exact ⟨base, a, rfl, tree, inside⟩
  | cons segment rest ih =>
    obtain ⟨child, opened, entered, grows, insideToo⟩ := tree.enter? inside segment
    obtain ⟨reached, grown, enteredAll, growsToo, atEnd⟩ := ih grows insideToo
    refine ⟨reached, grown, ?_, growsToo, atEnd⟩
    rw [Arena.enterAll?, List.foldlM_cons, entered]
    exact enteredAll

/-- **Whether an arena is a path tree** is a matter of how its entries stand. -/
theorem PathTree.of_like {b : Arena} (tree : a.PathTree) (sizes : b.size = a.size)
    (like : ∀ {id : Nat} {entry other : Linked}, a.linked? id = some entry →
      b.linked? id = some other → entry.Like other) : b.PathTree := by
  have onto {id : Nat} {entry : Linked} (here : a.linked? id = some entry) :
      ∃ other, b.linked? id = some other ∧ entry.Like other := by
    have inside := lt_size_of_linked? here
    obtain ⟨other, there⟩ := exists_linked? (sizes ▸ inside)
    exact ⟨other, there, like here there⟩
  have back {id : Nat} {other : Linked} (there : b.linked? id = some other) :
      ∃ entry, a.linked? id = some entry ∧ entry.Like other := by
    have inside := lt_size_of_linked? there
    obtain ⟨entry, here⟩ := exists_linked? (sizes ▸ inside)
    exact ⟨entry, here, like here there⟩
  constructor
  case root =>
    obtain ⟨entry, atRoot, top⟩ := tree.root
    obtain ⟨other, there, stands⟩ := onto atRoot
    exact ⟨other, there, stands.parent.trans top⟩
  case above =>
    intro id other there notRoot
    obtain ⟨entry, here, stands⟩ := back there
    obtain ⟨parent, outer, up, smaller, atParent, leads⟩ := tree.above here notRoot
    obtain ⟨outer', atParent', stands'⟩ := onto atParent
    refine ⟨parent, outer', stands.parent.trans up, smaller, atParent', ?_⟩
    rw [stands'.children, stands.segment, leads]
  case below =>
    intro id other segment child there mem
    obtain ⟨entry, here, stands⟩ := back there
    have found := (lookup_eq_some_iff_mem stands.distinct).2 mem
    rw [stands.children] at found
    obtain ⟨inner, atChild, spelled, up⟩ := tree.exists_child here found
    obtain ⟨inner', atChild', stands'⟩ := onto atChild
    exact ⟨inner', atChild', stands'.segment.trans spelled, stands'.parent.trans up⟩
  case distinct =>
    intro id other there
    obtain ⟨entry, here, stands⟩ := back there
    exact stands.distinct

/-- A change of a claim keeps a path tree. -/
theorem PathTree.claim (tree : a.PathTree) {entry : Linked} (here : a.linked? id = some entry)
    (further : Claim) : ∃ changed : Arena,
      a.update? id (fun entry => { entry with claim := further }) = some changed ∧
      changed.PathTree ∧ changed.size = a.size := by
  obtain ⟨changed, updated, size, entries⟩ :=
    update?_eq_some here fun entry => { entry with claim := further }
  refine ⟨changed, updated, tree.of_like size fun {number before after} at_a at_changed => ?_, size⟩
  rw [entries] at at_changed
  split at at_changed
  next same =>
    subst same
    cases at_changed
    cases here.symm.trans at_a
    have keys := tree.distinct here
    exact ⟨rfl, rfl, fun _ => rfl, keys⟩
  next =>
    cases at_a.symm.trans at_changed
    exact ⟨rfl, rfl, fun _ => rfl, tree.distinct at_a⟩

/-! ## The ways up and down -/

/-- The number where the way up from an entry ends; a longer way than the bound is not followed. -/
def top? (a : Arena) : Nat → Nat → Option Nat
  | 0, _ => none
  | bound + 1, id => do
    let entry ← a.linked? id
    match entry.parent with
    | none => return id
    | some parent => a.top? bound parent

theorem climb?_of_top {entry : Linked} (here : a.linked? id = some entry)
    (top : entry.parent = none) (bound : Nat) : a.climb? (bound + 1) id = some [] := by
  rw [climb?, here, Option.bind_eq_bind, Option.bind_some, top]
  rfl

/-- The way up from an entry is the way up from what it stands in, and its segment behind it. -/
theorem climb?_of_parent {entry : Linked} (here : a.linked? id = some entry)
    (up : entry.parent = some parent) (bound : Nat) :
    a.climb? (bound + 1) id = (a.climb? bound parent).map (· ++ [entry.segment]) := by
  rw [climb?, here, Option.bind_eq_bind, Option.bind_some, up]
  rw [Option.map_eq_bind]
  rfl

/-- A path is looked up one segment after the other. -/
theorem lookup?_cons {entry : Linked} (here : a.linked? base = some entry) (segment : String)
    (rest : Path) : a.lookup? base (segment :: rest) =
      (entry.children.lookup segment).elim (some none) fun child => a.lookup? child rest := by
  rw [lookup?, child?, here, Option.map_some, Option.bind_eq_bind, Option.bind_some]
  cases entry.children.lookup segment <;> rfl

/-- What stands at a segment below the entry that a path leads to is found at the longer path. -/
theorem lookup?_concat {entry : Linked} (found : a.lookup? base path = some (some id))
    (here : a.linked? id = some entry) (segment : String) :
    a.lookup? base (path ++ [segment]) = some (entry.children.lookup segment) := by
  induction path generalizing base with
  | nil =>
    cases found
    rw [List.nil_append, lookup?_cons here]
    cases entry.children.lookup segment <;> rfl
  | cons first rest ih =>
    cases onWay : a.linked? base with
    | none =>
      rw [lookup?, child?, onWay] at found
      cases found
    | some outer =>
      rw [lookup?_cons onWay] at found
      rw [List.cons_append, lookup?_cons onWay]
      cases step : outer.children.lookup first with
      | none =>
        rw [step] at found
        cases found
      | some child =>
        rw [step] at found
        exact ih found

namespace PathTree

variable (tree : a.PathTree)

include tree

/-- **The root alone stands in no other entry.** -/
theorem parent_eq_none_iff {entry : Linked} (here : a.linked? id = some entry) :
    entry.parent = none ↔ id = 0 := by
  constructor
  · intro top
    apply Classical.byContradiction
    intro notRoot
    obtain ⟨parent, -, up, -⟩ := tree.above here notRoot
    rw [top] at up
    cases up
  · rintro rfl
    obtain ⟨root, atRoot, top⟩ := tree.root
    cases here.symm.trans atRoot
    exact top

/-- **Every way up ends at the root**, by induction on the bound: the numbers on it only fall. -/
theorem top?_eq {bound : Nat} (inside : id < a.size) (enough : id < bound) :
    a.top? bound id = some 0 := by
  induction bound generalizing id with
  | zero => exact absurd enough (Nat.not_lt_zero _)
  | succ bound ih =>
    obtain ⟨entry, here⟩ := exists_linked? inside
    rw [top?, here, Option.bind_eq_bind, Option.bind_some]
    by_cases isRoot : id = 0
    · rw [(tree.parent_eq_none_iff here).2 isRoot, isRoot]
      rfl
    · obtain ⟨parent, outer, up, smaller, there, -⟩ := tree.above here isRoot
      rw [up]
      exact ih (lt_size_of_linked? there) (by omega)

/-- **The path of an entry** leads down to it from the root; it is read on the way up, however much
longer the way might be. -/
theorem exists_path (inside : id < a.size) :
    ∃ path, (∀ bound, id < bound → a.climb? bound id = some path) ∧
      a.lookup? 0 path = some (some id) := by
  induction id using Nat.strongRecOn with
  | ind id ih =>
  obtain ⟨entry, here⟩ := exists_linked? inside
  by_cases isRoot : id = 0
  · subst isRoot
    refine ⟨[], fun bound enough => ?_, rfl⟩
    obtain ⟨fewer, rfl⟩ := Nat.exists_eq_add_of_lt enough
    exact climb?_of_top here ((tree.parent_eq_none_iff here).2 rfl) _
  · obtain ⟨parent, outer, up, smaller, there, leads⟩ := tree.above here isRoot
    obtain ⟨path, climbs, found⟩ := ih parent smaller (lt_size_of_linked? there)
    refine ⟨path ++ [entry.segment], fun bound enough => ?_, ?_⟩
    · obtain ⟨fewer, rfl⟩ := Nat.exists_eq_add_of_lt enough
      rw [climb?_of_parent here up, climbs (id + fewer) (by omega), Option.map_some]
    · rw [lookup?_concat found there, leads]

theorem climb?_eq_pathOf? {bound : Nat} (inside : id < a.size) (enough : id < bound) :
    a.climb? bound id = a.pathOf? id := by
  obtain ⟨path, climbs, -⟩ := tree.exists_path inside
  rw [pathOf?, climbs _ enough, climbs _ inside]

/-- What a path leads to below an entry has the path of the entry, and that path behind it. -/
theorem pathOf?_of_lookup? {outer : Path} (atBase : a.pathOf? base = some outer)
    (inside : base < a.size) (found : a.lookup? base path = some (some id)) :
    id < a.size ∧ a.pathOf? id = some (outer ++ path) := by
  induction path generalizing base outer with
  | nil =>
    cases found
    rw [List.append_nil]
    exact ⟨inside, atBase⟩
  | cons segment rest ih =>
    obtain ⟨entry, here⟩ := exists_linked? inside
    rw [lookup?_cons here] at found
    cases step : entry.children.lookup segment with
    | none =>
      rw [step] at found
      cases found
    | some child =>
      rw [step] at found
      obtain ⟨inner, there, spelled, up⟩ := tree.exists_child here step
      have insideToo := lt_size_of_linked? there
      have longer : a.pathOf? child = some (outer ++ [segment]) := by
        rw [← tree.climb?_eq_pathOf? insideToo (Nat.lt_succ_of_lt insideToo),
          climb?_of_parent there up, ← pathOf?, atBase, spelled, Option.map_some]
      rw [← List.singleton_append, ← List.append_assoc]
      exact ih longer insideToo found

/-- No look-up goes out of the arena. -/
theorem lookup?_ne_none (inside : base < a.size) (path : Path) : a.lookup? base path ≠ none := by
  induction path generalizing base with
  | nil => nofun
  | cons segment rest ih =>
    obtain ⟨entry, here⟩ := exists_linked? inside
    rw [lookup?_cons here]
    cases step : entry.children.lookup segment with
    | none => nofun
    | some child =>
      obtain ⟨inner, there, -⟩ := tree.exists_child here step
      exact ih (lt_size_of_linked? there)

end PathTree

/-- **The paths of an arena are its addresses.** -/
structure Addressed (a : Arena) : Prop where
  /-- Every way up ends at the root, after no more steps than the number that it starts from. -/
  up : ∀ {id bound : Nat}, id < a.size → id < bound → a.top? bound id = some 0
  /-- Every entry has a path, and is found at it. -/
  atPath : ∀ {id : Nat}, id < a.size →
    ∃ path, a.pathOf? id = some path ∧ a.lookup? 0 path = some (some id)
  /-- No path leads out of the arena. -/
  known : ∀ {base : Nat} {path : Path}, base < a.size → a.lookup? base path ≠ none
  /-- What is found at a path has that path. -/
  path : ∀ {path : Path} {id : Nat}, a.lookup? 0 path = some (some id) →
    id < a.size ∧ a.pathOf? id = some path
  /-- No two entries have the same path. -/
  apart : ∀ {id other : Nat}, id < a.size → other < a.size → a.pathOf? id = a.pathOf? other →
    id = other

/-- **In a path tree the paths are addresses.** -/
theorem PathTree.addressed (tree : a.PathTree) : a.Addressed where
  up := tree.top?_eq
  atPath := by
    intro id inside
    obtain ⟨path, climbs, found⟩ := tree.exists_path inside
    exact ⟨path, climbs _ inside, found⟩
  known := fun inside => tree.lookup?_ne_none inside _
  path := by
    intro path id found
    obtain ⟨root, atRoot, top⟩ := tree.root
    have inside := lt_size_of_linked? atRoot
    have noPath : a.pathOf? 0 = some [] := by
      rw [← tree.climb?_eq_pathOf? inside Nat.one_pos]
      exact climb?_of_top atRoot top 0
    exact tree.pathOf?_of_lookup? noPath inside found
  apart := by
    intro id other inside insideToo same
    obtain ⟨path, climbs, found⟩ := tree.exists_path inside
    obtain ⟨path', climbs', found'⟩ := tree.exists_path insideToo
    rw [pathOf?, climbs _ inside, pathOf?, climbs' _ insideToo] at same
    cases same
    rw [found] at found'
    cases found'
    rfl

/-! ## Built arenas -/

/-- **A declaration keeps a path tree**, also one that is refused: it may leave behind what was
entered on the way. -/
theorem PathTree.declare (tree : a.PathTree) (inside : base < a.size) (path : Path)
    (further : Claim) : ∃ reached grown, a.enterAll? base path = some (reached, grown) ∧
      grown.PathTree ∧ reached < grown.size ∧
      ((∃ d, declare base path further a = some (.error d)) ∨
        ∃ changed, declare base path further a = some (.ok (reached, changed)) ∧
          changed.PathTree ∧ changed.size = grown.size) := by
  obtain ⟨reached, grown, entered, grows, atEnd⟩ := tree.enterAll? inside path
  refine ⟨reached, grown, entered, grows, atEnd, ?_⟩
  obtain ⟨entry, here⟩ := exists_linked? atEnd
  obtain ⟨whole, spelled, -⟩ := grows.addressed.atPath atEnd
  rw [Arena.declare, entered, demand_some, Checked.bind_of_ok rfl]
  simp only [here, spelled, demand_some]
  rw [Checked.bind_of_ok rfl, Checked.bind_of_ok rfl]
  cases merges : entry.claim.merge? further with
  | none => exact .inl ⟨_, rfl⟩
  | some merged =>
    obtain ⟨changed, updated, changes, size⟩ := grows.claim here merged
    simp only [updated, demand_some]
    exact .inr ⟨changed, rfl, changes, size⟩

/-- **An arena that declarations have built** from the root alone, each below a number that stands;
a declaration that is refused leaves what it has entered. -/
inductive Built : Arena → Prop
  | empty : Built empty
  | accepted {a grown : Arena} {base id : Nat} {path : Path} {further : Claim} :
    Built a → base < a.size → declare base path further a = some (.ok (id, grown)) → Built grown
  | refused {a left : Arena} {base id : Nat} {path : Path} {further : Claim} {d : Diagnostic} :
    Built a → base < a.size → declare base path further a = some (.error d) →
    a.enterAll? base path = some (id, left) → Built left

/-- **A built arena is a path tree**, by induction on the declarations. -/
theorem Built.pathTree (built : a.Built) : a.PathTree := by
  induction built with
  | empty => exact pathTree_empty
  | @accepted a grown base id path further _ inside run ih =>
    obtain ⟨_, _, -, -, -, ⟨_, refused⟩ | ⟨changed, accepted, changes, -⟩⟩ :=
      ih.declare inside path further
    · cases refused.symm.trans run
    · cases accepted.symm.trans run
      exact changes
  | @refused a left base id path further _ _ inside run entered ih =>
    obtain ⟨_, _, enteredToo, grows, -⟩ := ih.declare inside path further
    cases enteredToo.symm.trans entered
    exact grows

end Arena

end FrontEnd

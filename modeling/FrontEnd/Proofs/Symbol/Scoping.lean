import FrontEnd.Proofs.Symbol.Registered
import FrontEnd.Proofs.Symbol.Resolving

/-!
# Resolution is lexical scoping

After registration every declaration of a file has a node of its own, so what remains for a file to
be resolved is that each of its names in type position can be read (`Tree.exists_readsAll_iff`).

**The law** (`Compilation.resolveAll_iff_reads`): registered files are resolved exactly when each of
their names in type position is read in the scope of its declaration, and then what is noted for a
segment is the node of the path that the segment refers to.
-/

namespace FrontEnd

/-! ## What is noted last -/

namespace Resolutions

/-- What is found after insertions is the last of them, or was found before. -/
theorem get?_insertAll (r : Resolutions) (entries : List (Nat × Nat)) (key : Nat) :
    (r.insertAll entries).get? key = (entries.reverse.lookup key).or (r.get? key) := by
  induction entries generalizing r with
  | nil => rfl
  | cons first rest ih =>
    obtain ⟨k, v⟩ := first
    have step : (r.insertAll ((k, v) :: rest)).get? key =
        (rest.reverse.lookup key).or ((r.insert k v).get? key) := ih (r.insert k v)
    rw [step, get?_insert, List.reverse_cons, List.lookup_append, Option.or_assoc, lookup_entry]
    split <;> rfl

/-- **A number has the node that was noted last for it.** -/
theorem get?_insertAll_empty {entries : List (Nat × Nat)} {key value : Nat} :
    (empty.insertAll entries).get? key = some value ↔
      ∃ before after, entries = before ++ (key, value) :: after ∧ key ∉ after.map Prod.fst := by
  rw [get?_insertAll, get?_empty, Option.or_none, List.lookup_eq_some_iff]
  have absent : ∀ after : List (Nat × Nat),
      (∀ entry ∈ after, (key != entry.1) = true) ↔ key ∉ after.map Prod.fst := by
    intro after
    simp only [bne_iff_ne, List.mem_map, not_exists, not_and]
    constructor
    · exact fun different entry mem same => different entry mem same.symm
    · exact fun different entry mem same => different entry mem same.symm
  constructor
  · rintro ⟨after, before, split, other⟩
    refine ⟨before.reverse, after.reverse, ?_, ?_⟩
    · rw [← List.reverse_reverse entries, split]
      simp
    · rw [← absent]
      exact fun entry mem => other entry (List.mem_reverse.1 mem)
  · rintro ⟨before, after, rfl, other⟩
    refine ⟨after.reverse, before.reverse, by simp, fun entry mem => ?_⟩
    exact (absent after).2 other entry (List.mem_reverse.1 mem)

end Resolutions

/-! ## Declarations have nodes -/

theorem File.claimed_of_mem_demands {file : File} {module owner below : Path} {position : Position}
    (mem : .declared owner below position ∈ file.demands module) :
    ∃ r ∈ file.claims, owner ++ below = module ++ r.path := by
  obtain ⟨inner, claim, seeks, rfl, -⟩ := file.seeks_of_mem_demands mem
  exact ⟨⟨inner ++ below, claim⟩, file.mem_claims_iff.2 seeks.declares, List.append_assoc ..⟩

/-! ## Reading all names -/

namespace Tree

variable {t : Tree}

/-- Names are all read when each of them is. -/
theorem exists_readsAll_iff {names : List (Path × Name)} :
    (∃ references, t.ReadsAll names references) ↔
      ∀ scope name, (scope, name) ∈ names → ∃ references, t.ReadsName scope name references := by
  induction names with
  | nil => exact ⟨nofun, fun _ => ⟨[], .nil⟩⟩
  | cons first rest ih =>
    constructor
    · rintro ⟨references, reads⟩ scope name mem
      cases reads with
      | cons reads readsOn =>
        rcases List.mem_cons.1 mem with same | mem
        · cases same
          exact ⟨_, reads⟩
        · exact ih.1 ⟨_, readsOn⟩ scope name mem
    · intro each
      obtain ⟨inner, reads⟩ := each first.1 first.2 List.mem_cons_self
      obtain ⟨later, readsOn⟩ := ih.2 fun scope name mem =>
        each scope name (List.mem_cons_of_mem _ mem)
      exact ⟨inner ++ later, .cons reads readsOn⟩

/-- **Names are read in one way.** -/
theorem ReadsAll.unique {names : List (Path × Name)} {a b : List (Segment × Path)}
    (readsA : t.ReadsAll names a) (readsB : t.ReadsAll names b) : a = b := by
  induction readsA generalizing b with
  | nil =>
    cases readsB
    rfl
  | cons innerA _ ih =>
    cases readsB with
    | cons innerB laterB => rw [innerA.unique innerB, ih laterB]

/-- Reading names goes through all their segments, in their order. -/
theorem ReadsAll.map_fst {names : List (Path × Name)} {references : List (Segment × Path)}
    (reads : t.ReadsAll names references) :
    references.map Prod.fst = names.flatMap fun occurrence => occurrence.2.parts := by
  induction reads with
  | nil => rfl
  | cons reads _ ih => rw [List.map_append, reads.map_fst, ih, List.flatMap_cons]

theorem ReadsAll.hasType {names : List (Path × Name)} {references : List (Segment × Path)}
    (reads : t.ReadsAll names references) {part : Segment} {path : Path}
    (mem : (part, path) ∈ references) :
    t.HasType path ∧ t.arityAt path = part.arguments.length := by
  induction reads with
  | nil => cases mem
  | cons reads _ ih =>
    rcases List.mem_append.1 mem with mem | mem
    · exact reads.hasType mem
    · exact ih mem

/-- What a segment refers to has a node. -/
theorem HasType.exists_find? {path : Path} (holds : t.HasType path) :
    ∃ node, t.find? path = some node := by
  obtain ⟨claim, claimed, -⟩ := holds
  rw [← Option.isSome_iff_exists, find?_isSome_eq, claimed]
  rfl

end Tree

/-! ## Resolving registered files -/

namespace Compilation

/-- The names in type position of files. -/
def typeNames (files : List (Path × File)) : List (Path × Name) :=
  files.flatMap fun placed => placed.2.typeNames placed.1

/-- **Files whose declarations have nodes** are resolved exactly when their names are read. -/
theorem resolveAll_eq_ok_iff {t : Tree} {files : List (Path × File)} {r s : Resolutions}
    (knows : ∀ f ∈ files, ∀ c ∈ f.2.claims, t.Knows (f.1 ++ c.path)) :
    resolveAll t (files.map fun f => ⟨f.1, f.2⟩) r = .ok () s ↔
      ∃ references, t.ReadsAll (typeNames files) references ∧
        s = r.insertAll (t.noted references) := by
  unfold resolveAll
  induction files generalizing r with
  | nil =>
    rw [List.map_nil, forM_nil_eq_ok]
    constructor
    · rintro rfl
      exact ⟨[], .nil, rfl⟩
    · rintro ⟨references, reads, rfl⟩
      cases reads
      rfl
  | cons first rest ih =>
    have declared : ∀ owner below position,
        .declared owner below position ∈ first.2.demands first.1 → t.Knows (owner ++ below) := by
      intro owner below position mem
      obtain ⟨c, claimed, path⟩ := File.claimed_of_mem_demands mem
      rw [path]
      exact knows first List.mem_cons_self c claimed
    have names : typeNames (first :: rest) = first.2.typeNames first.1 ++ typeNames rest :=
      List.flatMap_cons
    have onRest := fun {r} => @ih r fun f mem => knows f (List.mem_cons_of_mem _ mem)
    rw [List.map_cons, forM_cons_eq_ok, names]
    constructor
    · rintro ⟨between, firstRun, restRun⟩
      obtain ⟨-, inner, reads, rfl⟩ := Tree.forM_meet_eq_ok_iff.1 firstRun
      obtain ⟨later, readsOn, rfl⟩ := onRest.1 restRun
      rw [File.filterMap_type?_demands] at reads
      have all : t.ReadsAll (first.2.typeNames first.1 ++ typeNames rest) (inner ++ later) :=
        Tree.readsAll_append_iff.2 ⟨inner, later, reads, readsOn, rfl⟩
      exact ⟨inner ++ later, all, Tree.insertAll_noted ..⟩
    · rintro ⟨references, all, rfl⟩
      obtain ⟨inner, later, reads, readsOn, rfl⟩ := Tree.readsAll_append_iff.1 all
      rw [← File.filterMap_type?_demands] at reads
      have firstRun : (first.2.demands first.1).forM t.meet r =
          .ok () (r.insertAll (t.noted inner)) :=
        Tree.forM_meet_eq_ok_iff.2 ⟨declared, inner, reads, rfl⟩
      exact ⟨_, firstRun, onRest.2 ⟨later, readsOn, (Tree.insertAll_noted ..).symm⟩⟩

/-- What is noted for a number is the node of what was read last for it. -/
theorem get?_noted_iff {t : Tree} {names : List (Path × Name)}
    {references : List (Segment × Path)} (reads : t.ReadsAll names references) {id node : Nat} :
    (Resolutions.empty.insertAll (t.noted references)).get? id = some node ↔
      ∃ before part path after, references = before ++ (part, path) :: after ∧ part.id = id ∧
        (∀ other ∈ after, other.1.id ≠ id) ∧ t.find? path = some node := by
  rw [Resolutions.get?_insertAll_empty]
  have found : ∀ part path, (part, path) ∈ references →
      t.find? path = some ((t.find? path).getD Tree.root) := by
    intro part path mem
    obtain ⟨node, here⟩ := (reads.hasType mem).1.exists_find?
    rw [here, Option.getD_some]
  constructor
  · rintro ⟨before, after, split, absent⟩
    obtain ⟨before, rest, rfl, rfl, back⟩ := List.map_eq_append_iff.1 split
    obtain ⟨⟨part, path⟩, after, rfl, same, rfl⟩ := List.map_eq_cons_iff.1 back
    cases same
    refine ⟨before, part, path, after, rfl, rfl, ?_, found part path (by simp)⟩
    rintro other mem same
    refine absent ?_
    rw [List.map_map, ← same]
    exact List.mem_map_of_mem mem
  · rintro ⟨before, part, path, after, rfl, rfl, absent, here⟩
    refine ⟨t.noted before, t.noted after, ?_, ?_⟩
    · rw [Tree.noted, List.map_append, List.map_cons, here, Option.getD_some]
      rfl
    · rw [Tree.noted, List.map_map]
      rintro mem
      obtain ⟨other, mem, same⟩ := List.mem_map.1 mem
      exact absent other mem same

/-- **Resolution is lexical scoping.** Registered files are resolved exactly when each of their
names in type position is read in the scope of its declaration. Then every segment of these names
has been read, and a number has the node of the path that the last segment of that number refers
to. -/
theorem resolveAll_iff_reads {config : Config} {files : List (Path × File)} {placed : List Placed}
    {t : Tree} (registered : registerAll config files .empty = .ok placed t) :
    ((∃ r, resolveAll t placed .empty = .ok () r) ↔
      ∀ scope name, (scope, name) ∈ typeNames files →
        ∃ references, t.ReadsName scope name references) ∧
    ∀ r references, resolveAll t placed .empty = .ok () r →
      t.ReadsAll (typeNames files) references →
      references.map Prod.fst = (typeNames files).flatMap (fun occurrence => occurrence.2.parts) ∧
      ∀ id node, r.get? id = some node ↔
        ∃ before part path after, references = before ++ (part, path) :: after ∧ part.id = id ∧
          (∀ other ∈ after, other.1.id ≠ id) ∧ t.find? path = some node := by
  obtain ⟨-, rfl, knows⟩ := registered_of_registerAll registered
  constructor
  · rw [← Tree.exists_readsAll_iff]
    constructor
    · rintro ⟨r, run⟩
      obtain ⟨references, reads, -⟩ := (resolveAll_eq_ok_iff knows).1 run
      exact ⟨references, reads⟩
    · rintro ⟨references, reads⟩
      exact ⟨_, (resolveAll_eq_ok_iff knows).2 ⟨references, reads, rfl⟩⟩
  · intro r references run reads
    obtain ⟨references', reads', rfl⟩ := (resolveAll_eq_ok_iff knows).1 run
    obtain rfl := reads.unique reads'
    exact ⟨reads.map_fst, fun id node => get?_noted_iff reads⟩

/-- A file in which a type argument names a structure inside the type that it is given to. -/
def innerArgument : File where
  file := "m"
  imports := []
  declarations :=
    [.struct ⟨false, "Box", [⟨"T", none, default⟩], [], [],
      [⟨false, "Inner", [], [], [], [], default⟩], default⟩,
     .synonym ⟨"Same", ⟨[⟨0, "Box", [.single 1 "Inner" default], default⟩], default⟩, default⟩]
  exports := []

/-- The tree of that file at a module. -/
def innerArgumentTree : Tree :=
  ⟨[⟨[], ⟨.builtin, .empty⟩⟩, ⟨["m"], .file "m"⟩,
    ⟨["m", "Box"], .declared .struct default 1⟩,
    ⟨["m", "Box", "T"], .declared .typeParameter default 0⟩,
    ⟨["m", "Box", "Inner"], .declared .struct default 0⟩,
    ⟨["m", "Same"], .declared .synonym default 0⟩, ⟨["int"], .builtinType⟩]⟩

/-- The names of that file are read. -/
theorem reads_innerArgument :
    registerAll ⟨["int"], [], "m"⟩ [(["m"], innerArgument)] .empty =
        .ok [⟨["m"], innerArgument⟩] innerArgumentTree ∧
      ∀ scope name, (scope, name) ∈ typeNames [(["m"], innerArgument)] →
        ∃ references, innerArgumentTree.ReadsName scope name references := by
  have registered : registerAll ⟨["int"], [], "m"⟩ [(["m"], innerArgument)] .empty =
      .ok [⟨["m"], innerArgument⟩] innerArgumentTree := rfl
  exact ⟨registered, (resolveAll_iff_reads registered).1.1 ⟨_, rfl⟩⟩

end Compilation

end FrontEnd

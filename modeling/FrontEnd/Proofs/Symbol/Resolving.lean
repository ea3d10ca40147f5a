import FrontEnd.Proofs.Action
import FrontEnd.Proofs.Symbol.Reading

/-!
# Resolving is reading

A name is resolved exactly when it is read, and then the node of each path is noted for its segment
(`Tree.resolveName_eq_ok_iff`). What is noted never matters for what is found, so the outcome of
several names is that of each, put together (`Tree.forM_meet_eq_ok_iff`).
-/

namespace FrontEnd

namespace Resolutions

/-- The outcomes with further ones, the later of which replace the earlier. -/
def insertAll (r : Resolutions) (entries : List (Nat × Nat)) : Resolutions :=
  entries.foldl (fun r entry => r.insert entry.1 entry.2) r

theorem insertAll_append (r : Resolutions) (a b : List (Nat × Nat)) :
    r.insertAll (a ++ b) = (r.insertAll a).insertAll b :=
  List.foldl_append

end Resolutions

namespace Tree

variable {t : Tree} {scope : Path}

/-- What is noted for the segments that were read: the node of the path of each. -/
def noted (t : Tree) (references : List (Segment × Path)) : List (Nat × Nat) :=
  references.map fun reference => (reference.1.id, (t.find? reference.2).getD root)

/-- What is noted for segments and then for further ones is noted for all of them. -/
theorem insertAll_noted (t : Tree) (r : Resolutions) (a b : List (Segment × Path)) :
    (r.insertAll (t.noted a)).insertAll (t.noted b) = r.insertAll (t.noted (a ++ b)) := by
  rw [← Resolutions.insertAll_append, noted, noted, noted, List.map_append]

theorem note_eq_ok_iff {segment : Nat} {path : Path} {r s : Resolutions} :
    note t segment path r = .ok () s ↔ s = r.insert segment ((t.find? path).getD root) := by
  change EStateM.Result.ok () (r.insert segment ((t.find? path).getD root)) = .ok () s ↔ _
  simp [eq_comm]

/-- A search as what a text may mean. -/
def finds (find : String → Option Path) (text : String) (path : Path) : Prop :=
  find text = some path

theorem finds_typeBelow (t : Tree) (owner : Path) :
    finds (t.typeBelow? owner) = t.MeansBelow owner := by
  funext text path
  exact propext typeBelow?_eq_some_iff

theorem finds_typeInScope (t : Tree) (scope : Path) :
    finds (t.typeInScope? scope) = t.MeansInScope scope := by
  funext text path
  exact propext typeInScope?_eq_some_iff

theorem finds_typeInArgument (t : Tree) (scope owner : Path) :
    finds (fun text => t.nestedType? owner text <|> t.typeInScope? scope text) =
      t.MeansInArgument scope owner := by
  funext text path
  exact propext typeInArgument?_eq_some_iff

mutual
theorem resolveSegments_eq_ok_iff (segments : List Segment) {find : String → Option Path}
    {r s : Resolutions} :
    resolveSegments t scope find segments r = .ok () s ↔
      ∃ references, t.ReadsSegments scope (finds find) segments references ∧
        s = r.insertAll (t.noted references) := by
  cases segments with
  | nil =>
    rw [resolveSegments, pure_eq_ok]
    constructor
    · rintro ⟨-, rfl⟩
      exact ⟨[], .nil, rfl⟩
    · rintro ⟨references, reads, rfl⟩
      cases reads
      exact ⟨rfl, rfl⟩
  | cons first rest =>
    rw [resolveSegments, bind_eq_ok]
    constructor
    · rintro ⟨found, between, firstRun, restRun⟩
      obtain ⟨finds, arity, inner, reads, rfl⟩ := (resolveSegment_eq_ok_iff first).1 firstRun
      obtain ⟨later, readsOn, rfl⟩ := (resolveSegments_eq_ok_iff rest).1 restRun
      rw [finds_typeBelow] at readsOn
      exact ⟨_, .cons finds arity reads readsOn, insertAll_noted ..⟩
    · rintro ⟨references, reads, rfl⟩
      cases reads with
      | @cons _ _ _ found inner later finds arity reads readsOn =>
        rw [← finds_typeBelow] at readsOn
        have firstRun : resolveSegment t scope find first r =
            .ok found (r.insertAll (t.noted ((first, found) :: inner))) :=
          (resolveSegment_eq_ok_iff first).2 ⟨finds, arity, inner, reads, rfl⟩
        have restRun := (resolveSegments_eq_ok_iff rest).2
          ⟨later, readsOn, (insertAll_noted t r ((first, found) :: inner) later).symm⟩
        exact ⟨found, _, firstRun, restRun⟩
theorem resolveSegment_eq_ok_iff (segment : Segment) {find : String → Option Path} {found : Path}
    {r s : Resolutions} :
    resolveSegment t scope find segment r = .ok found s ↔
      find segment.text = some found ∧ t.arityAt found = segment.arguments.length ∧
        ∃ inner, t.ReadsArguments scope found segment.arguments inner ∧
          s = r.insertAll (t.noted ((segment, found) :: inner)) := by
  cases segment with
  | mk id text arguments span =>
    rw [resolveSegment]
    cases result : find text with
    | none => exact iff_of_false throw_ne_ok nofun
    | some path =>
      by_cases arity : t.arityAt path = arguments.length
      · simp only [arity, if_true, bind_eq_ok, pure_eq_ok, Option.some.injEq]
        constructor
        · rintro ⟨⟨⟩, _, notes, ⟨⟩, _, run, rfl, rfl⟩
          obtain rfl := note_eq_ok_iff.1 notes
          obtain ⟨inner, reads, rfl⟩ := (resolveArguments_eq_ok_iff arguments).1 run
          exact ⟨rfl, arity, inner, reads, rfl⟩
        · rintro ⟨rfl, -, inner, reads, rfl⟩
          have run : resolveArguments t scope path arguments (r.insert id ((t.find? path).getD root)) =
              .ok () ((r.insert id ((t.find? path).getD root)).insertAll (t.noted inner)) :=
            (resolveArguments_eq_ok_iff arguments).2 ⟨inner, reads, rfl⟩
          exact ⟨(), _, rfl, (), _, run, rfl, rfl⟩
      · simp only [arity, if_false]
        refine iff_of_false throw_ne_ok ?_
        rintro ⟨same, arity', -⟩
        cases same
        exact arity arity'
theorem resolveArguments_eq_ok_iff (arguments : List Name) {owner : Path} {r s : Resolutions} :
    resolveArguments t scope owner arguments r = .ok () s ↔
      ∃ references, t.ReadsArguments scope owner arguments references ∧
        s = r.insertAll (t.noted references) := by
  cases arguments with
  | nil =>
    rw [resolveArguments, pure_eq_ok]
    constructor
    · rintro ⟨-, rfl⟩
      exact ⟨[], .nil, rfl⟩
    · rintro ⟨references, reads, rfl⟩
      cases reads
      exact ⟨rfl, rfl⟩
  | cons first rest =>
    rw [resolveArguments, bind_eq_ok]
    constructor
    · rintro ⟨⟨⟩, between, firstRun, restRun⟩
      obtain ⟨inner, reads, rfl⟩ := (resolveName_eq_ok_iff first).1 firstRun
      obtain ⟨later, readsOn, rfl⟩ := (resolveArguments_eq_ok_iff rest).1 restRun
      rw [finds_typeInArgument] at reads
      exact ⟨_, .cons reads readsOn, insertAll_noted ..⟩
    · rintro ⟨references, reads, rfl⟩
      cases reads with
      | @cons _ _ _ inner later reads readsOn =>
        rw [← finds_typeInArgument] at reads
        have restRun := (resolveArguments_eq_ok_iff rest).2
          ⟨later, readsOn, (insertAll_noted t r inner later).symm⟩
        exact ⟨(), _, (resolveName_eq_ok_iff first).2 ⟨inner, reads, rfl⟩, restRun⟩
/-- **A name is resolved exactly when it is read**, and the node of each path is noted for its
segment. -/
theorem resolveName_eq_ok_iff (name : Name) {find : String → Option Path} {r s : Resolutions} :
    resolveName t scope find name r = .ok () s ↔
      ∃ references, t.ReadsSegments scope (finds find) name.segments references ∧
        s = r.insertAll (t.noted references) := by
  cases name with
  | mk segments span =>
    rw [resolveName]
    exact resolveSegments_eq_ok_iff segments
end

/-! ## Demands and files -/

/-- **Names are read one after another**, each in its scope. -/
inductive ReadsAll (t : Tree) : List (Path × Name) → List (Segment × Path) → Prop
  | nil : ReadsAll t [] []
  | cons {scope : Path} {name : Name} {rest : List (Path × Name)}
      {inner later : List (Segment × Path)} :
    t.ReadsName scope name inner → ReadsAll t rest later →
    ReadsAll t ((scope, name) :: rest) (inner ++ later)

theorem readsAll_append_iff {a b : List (Path × Name)} {references : List (Segment × Path)} :
    t.ReadsAll (a ++ b) references ↔
      ∃ inner later, t.ReadsAll a inner ∧ t.ReadsAll b later ∧ references = inner ++ later := by
  constructor
  · intro reads
    induction a generalizing references with
    | nil => exact ⟨[], references, .nil, reads, rfl⟩
    | cons first rest ih =>
      cases reads with
      | @cons scope name _ inner later reads readsOn =>
        obtain ⟨between, last, readsRest, readsLast, rfl⟩ := ih readsOn
        exact ⟨inner ++ between, last, .cons reads readsRest, readsLast,
          (List.append_assoc ..).symm⟩
  · rintro ⟨inner, later, reads, readsOn, rfl⟩
    induction reads with
    | nil => exact readsOn
    | cons own _ ih =>
      rw [List.append_assoc]
      exact .cons own ih

theorem meet_eq_ok_iff {demand : Demand} {r s : Resolutions} :
    t.meet demand r = .ok () s ↔
      (∀ module below position, demand = .declared module below position →
        t.Knows (module ++ below)) ∧
      ∃ references, t.ReadsAll demand.type?.toList references ∧
        s = r.insertAll (t.noted references) := by
  cases demand with
  | declared module below position =>
    have known : (t.claimAt? (module ++ below)).any Claim.isKnown = true ↔
        t.Knows (module ++ below) := by
      simp [Option.any_eq_true, Claim.isKnown, Knows]
    rw [meet]
    split
    next knows =>
      rw [pure_eq_ok]
      constructor
      · rintro ⟨-, rfl⟩
        refine ⟨?_, [], .nil, rfl⟩
        rintro _ _ _ ⟨⟩
        exact known.1 knows
      · rintro ⟨-, references, reads, rfl⟩
        cases reads
        exact ⟨rfl, rfl⟩
    next unknown =>
      exact iff_of_false throw_ne_ok fun h => unknown (known.2 (h.1 _ _ _ rfl))
  | type scope name =>
    rw [meet, resolveName_eq_ok_iff, finds_typeInScope]
    constructor
    · rintro ⟨references, reads, rfl⟩
      refine ⟨nofun, references, ?_, rfl⟩
      rw [← List.append_nil references]
      exact .cons reads .nil
    · rintro ⟨-, references, reads, rfl⟩
      cases reads with
      | cons reads none =>
        cases none
        exact ⟨_, reads, by rw [List.append_nil]⟩

/-- **Demands are met one after another** exactly when what is declared has nodes and the names are
read, and then all that was read is noted. -/
theorem forM_meet_eq_ok_iff {demands : List Demand} {r s : Resolutions} :
    demands.forM t.meet r = .ok () s ↔
      (∀ module below position, .declared module below position ∈ demands →
        t.Knows (module ++ below)) ∧
      ∃ references, t.ReadsAll (demands.filterMap Demand.type?) references ∧
        s = r.insertAll (t.noted references) := by
  induction demands generalizing r with
  | nil =>
    rw [forM_nil_eq_ok]
    constructor
    · rintro rfl
      exact ⟨nofun, [], .nil, rfl⟩
    · rintro ⟨-, references, reads, rfl⟩
      cases reads
      rfl
  | cons first rest ih =>
    have names : (first :: rest).filterMap Demand.type? =
        first.type?.toList ++ rest.filterMap Demand.type? := by
      cases first <;> rfl
    rw [forM_cons_eq_ok, names]
    constructor
    · rintro ⟨between, firstRun, restRun⟩
      obtain ⟨knows, inner, reads, rfl⟩ := meet_eq_ok_iff.1 firstRun
      obtain ⟨knowsOn, later, readsOn, rfl⟩ := ih.1 restRun
      have all : t.ReadsAll (first.type?.toList ++ rest.filterMap Demand.type?) (inner ++ later) :=
        readsAll_append_iff.2 ⟨inner, later, reads, readsOn, rfl⟩
      refine ⟨fun module below position mem => ?_, inner ++ later, all, insertAll_noted ..⟩
      rcases List.mem_cons.1 mem with same | mem
      · exact knows module below position same.symm
      · exact knowsOn module below position mem
    · rintro ⟨knows, references, all, rfl⟩
      obtain ⟨inner, later, reads, readsOn, rfl⟩ := readsAll_append_iff.1 all
      have firstRun : t.meet first r = .ok () (r.insertAll (t.noted inner)) := by
        refine meet_eq_ok_iff.2 ⟨?_, inner, reads, rfl⟩
        rintro module below position rfl
        exact knows module below position List.mem_cons_self
      have restRun : rest.forM t.meet (r.insertAll (t.noted inner)) =
          .ok () (r.insertAll (t.noted (inner ++ later))) := by
        refine ih.2 ⟨fun module below position mem => ?_, later, readsOn, ?_⟩
        · exact knows module below position (List.mem_cons_of_mem _ mem)
        · exact (insertAll_noted ..).symm
      exact ⟨_, firstRun, restRun⟩

end Tree

end FrontEnd

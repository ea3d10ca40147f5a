import FrontEnd.Program.Relabel
import FrontEnd.Proofs.Symbol.Scoping

/-!
# What a reading looks at

A type name is read by the texts of its segments and by the claims of the tree. So a reading in one
tree is a reading in every tree in which the same is claimed, and the reading of a relabelled name is
the relabelled reading (`Tree.ReadsName.relabel`).
-/

namespace FrontEnd

namespace Tree

variable {t other : Tree} {scope : Path}

/-! ## What a text means -/

section Means

variable (claims : ∀ path, t.claimAt? path = other.claimAt? path)

include claims

theorem hasType_congr (path : Path) : t.HasType path ↔ other.HasType path := by
  simp only [HasType, claims]

theorem hasInnerType_congr (path : Path) : t.HasInnerType path ↔ other.HasInnerType path := by
  simp only [HasInnerType, claims]

theorem arityAt_congr (path : Path) : t.arityAt path = other.arityAt path := by
  simp only [arityAt, claims]

theorem MeansBelow.congr {owner path : Path} {text : String} (means : t.MeansBelow owner text path) :
    other.MeansBelow owner text path :=
  ⟨(hasType_congr claims _).1 means.1, means.2⟩

theorem MeansInScope.congr {path : Path} {text : String} (means : t.MeansInScope scope text path) :
    other.MeansInScope scope text path := by
  obtain ⟨outer, within, below, nearest⟩ := means
  refine ⟨outer, within, below.congr claims, fun longer isLonger above holds => ?_⟩
  exact nearest longer isLonger above ((hasType_congr claims _).2 holds)

theorem MeansInArgument.congr {owner path : Path} {text : String}
    (means : t.MeansInArgument scope owner text path) :
    other.MeansInArgument scope owner text path := by
  cases means with
  | inside holds => exact .inside ((hasInnerType_congr claims _).1 holds)
  | around absent means =>
    exact .around (fun holds => absent ((hasInnerType_congr claims _).2 holds)) (means.congr claims)

end Means

/-! ## Readings of relabelled names -/

/-- A segment with other labels and what it refers to. -/
def relabelReference (m : Relabel) (reference : Segment × Path) : Segment × Path :=
  (reference.1.relabel m, reference.2)

mutual
/-- **Relabelled segments are read as the segments are**, in every tree with the same claims. -/
theorem ReadsSegments.relabel (claims : ∀ path, t.claimAt? path = other.claimAt? path)
    (m : Relabel) : ∀ (segments : List Segment) {means meansToo : String → Path → Prop}
      {references : List (Segment × Path)}, (∀ text path, means text path → meansToo text path) →
      t.ReadsSegments scope means segments references →
      other.ReadsSegments scope meansToo (relabelSegments m segments)
        (references.map (relabelReference m))
  | [], _, _, _, _, reads => by
    cases reads
    exact .nil
  | ⟨id, text, arguments, span⟩ :: rest, _, _, _, carries, reads => by
    cases reads with
    | @cons _ _ _ path inner later found arity reads readsOn =>
      have arity' : other.arityAt path = (relabelNames m arguments).length := by
        rw [← arityAt_congr claims, arity, relabelNames_eq, List.length_map]
      rw [List.map_append, List.map_cons]
      refine .cons (carries _ _ found) arity' ?_ ?_
      · exact ReadsArguments.relabel claims m arguments reads
      · exact ReadsSegments.relabel claims m rest (fun _ _ means => means.congr claims) readsOn
theorem ReadsArguments.relabel (claims : ∀ path, t.claimAt? path = other.claimAt? path)
    (m : Relabel) : ∀ (arguments : List Name) {owner : Path} {references : List (Segment × Path)},
      t.ReadsArguments scope owner arguments references →
      other.ReadsArguments scope owner (relabelNames m arguments)
        (references.map (relabelReference m))
  | [], _, _, reads => by
    cases reads
    exact .nil
  | ⟨segments, span⟩ :: rest, _, _, reads => by
    cases reads with
    | cons reads readsOn =>
      rw [List.map_append]
      refine .cons ?_ (ReadsArguments.relabel claims m rest readsOn)
      exact ReadsSegments.relabel claims m segments (fun _ _ means => means.congr claims) reads
end

/-- **A relabelled name is read as the name is.** -/
theorem ReadsName.relabel (claims : ∀ path, t.claimAt? path = other.claimAt? path) (m : Relabel)
    {name : Name} {references : List (Segment × Path)} (reads : t.ReadsName scope name references) :
    other.ReadsName scope (name.relabel m) (references.map (relabelReference m)) := by
  have carried := ReadsSegments.relabel claims m name.segments
    (fun _ _ means => MeansInScope.congr claims means) reads
  rwa [relabelSegments_eq, ← Name.segments_relabel] at carried

mutual
/-- Segments are read when the relabelled segments are, in a tree with the same claims. -/
theorem ReadsSegments.exists_of_relabel (claims : ∀ path, t.claimAt? path = other.claimAt? path)
    {m : Relabel} : ∀ (segments : List Segment) {means meansToo : String → Path → Prop}
      {references : List (Segment × Path)}, (∀ text path, means text path → meansToo text path) →
      t.ReadsSegments scope means (relabelSegments m segments) references →
      ∃ originals, other.ReadsSegments scope meansToo segments originals
  | [], _, _, _, _, _ => ⟨[], .nil⟩
  | ⟨id, text, arguments, span⟩ :: rest, _, _, _, carries, reads => by
    cases reads with
    | @cons _ _ _ path inner later found arity reads readsOn =>
      obtain ⟨inner, reads⟩ := ReadsArguments.exists_of_relabel claims arguments reads
      obtain ⟨later, readsOn⟩ := ReadsSegments.exists_of_relabel claims rest
        (fun _ _ means => means.congr claims) readsOn
      have arity' : other.arityAt path = arguments.length := by
        rw [← arityAt_congr claims, arity, Segment.arguments_relabel, List.length_map]
      exact ⟨_, .cons (carries _ _ found) arity' reads readsOn⟩
theorem ReadsArguments.exists_of_relabel (claims : ∀ path, t.claimAt? path = other.claimAt? path)
    {m : Relabel} : ∀ (arguments : List Name) {owner : Path} {references : List (Segment × Path)},
      t.ReadsArguments scope owner (relabelNames m arguments) references →
      ∃ originals, other.ReadsArguments scope owner arguments originals
  | [], _, _, _ => ⟨[], .nil⟩
  | ⟨segments, span⟩ :: rest, _, _, reads => by
    cases reads with
    | cons reads readsOn =>
      obtain ⟨inner, reads⟩ := ReadsSegments.exists_of_relabel claims segments
        (fun _ _ means => means.congr claims) reads
      obtain ⟨later, readsOn⟩ := ReadsArguments.exists_of_relabel claims rest readsOn
      exact ⟨_, .cons reads readsOn⟩
end

theorem ReadsName.exists_of_relabel (claims : ∀ path, t.claimAt? path = other.claimAt? path)
    {m : Relabel} {name : Name} {references : List (Segment × Path)}
    (reads : t.ReadsName scope (name.relabel m) references) :
    ∃ originals, other.ReadsName scope name originals := by
  have relabelled : t.ReadsSegments scope (t.MeansInScope scope)
      (relabelSegments m name.segments) references := by
    rwa [relabelSegments_eq, ← Name.segments_relabel]
  exact ReadsSegments.exists_of_relabel claims name.segments
    (fun _ _ means => MeansInScope.congr claims means) relabelled

end Tree

end FrontEnd

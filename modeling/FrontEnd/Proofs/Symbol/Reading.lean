import FrontEnd.Proofs.Program.TypeName
import FrontEnd.Proofs.Symbol.Growth
import FrontEnd.Symbol.Resolution

/-!
# What a type name refers to

The path that each segment of a name in type position refers to, said of the claims of a tree alone
and not of a search.

The first segment of a name means the type that stands below the longest beginning of the scope
below which a type of that name stands (`Tree.MeansInScope`). In an argument of a type it means a
type declared inside that type, if there is one of that name (`Tree.MeansInArgument`). A further
segment means the type below the one before (`Tree.MeansBelow`). A name is read when each of its
segments, at every depth of arguments, means a path whose declaration takes as many arguments as the
segment has (`Tree.ReadsName`).

**The law** (`Tree.resolveName_eq_ok_iff`): a name is resolved exactly when it is read, and then the
node of each path is noted for its segment.
-/

namespace FrontEnd

namespace Tree

/-! ## What a text may mean -/

/-- Whether a path holds what can stand in type position. -/
def HasType (t : Tree) (path : Path) : Prop :=
  ∃ claim, t.claimAt? path = some claim ∧
    (claim.kind ∈ [.struct, .interface, .synonym, .enum, .typeParameter, .file] ∨
      claim = .builtinType)

/-- Whether a path holds a type that a declaration can have inside it. -/
def HasInnerType (t : Tree) (path : Path) : Prop :=
  ∃ claim, t.claimAt? path = some claim ∧ claim.kind ∈ [.struct, .interface, .synonym, .enum]

/-- A text means a type below a path. -/
def MeansBelow (t : Tree) (owner : Path) (text : String) (path : Path) : Prop :=
  t.HasType (owner ++ [text]) ∧ path = owner ++ [text]

/-- **A text means a type in a scope**: the one below the longest beginning of the scope below which
a type of that name stands. -/
def MeansInScope (t : Tree) (scope : Path) (text : String) (path : Path) : Prop :=
  ∃ outer, outer <+: scope ∧ t.MeansBelow outer text path ∧
    ∀ longer, longer <+: scope → outer.length < longer.length → ¬ t.HasType (longer ++ [text])

/-- **A text means a type in an argument** of the type at a path: one declared inside that type, or
else one in the scope. -/
inductive MeansInArgument (t : Tree) (scope owner : Path) (text : String) : Path → Prop
  | inside : t.HasInnerType (owner ++ [text]) → MeansInArgument t scope owner text (owner ++ [text])
  | around {path : Path} : ¬ t.HasInnerType (owner ++ [text]) → t.MeansInScope scope text path →
      MeansInArgument t scope owner text path

/-! ## Reading a name -/

mutual
/-- **Segments are read**, `means` saying what the first may mean, with the path that each segment
and each segment of its arguments refers to. -/
inductive ReadsSegments (t : Tree) (scope : Path) :
    (String → Path → Prop) → List Segment → List (Segment × Path) → Prop
  | nil {means : String → Path → Prop} : ReadsSegments t scope means [] []
  | cons {means : String → Path → Prop} {first : Segment} {rest : List Segment} {path : Path}
      {inner later : List (Segment × Path)} :
    means first.text path → t.arityAt path = first.arguments.length →
    ReadsArguments t scope path first.arguments inner →
    ReadsSegments t scope (t.MeansBelow path) rest later →
    ReadsSegments t scope means (first :: rest) ((first, path) :: inner ++ later)
/-- **Arguments are read** in the type at a path. -/
inductive ReadsArguments (t : Tree) (scope : Path) :
    Path → List Name → List (Segment × Path) → Prop
  | nil {owner : Path} : ReadsArguments t scope owner [] []
  | cons {owner : Path} {first : Name} {rest : List Name} {inner later : List (Segment × Path)} :
    ReadsSegments t scope (t.MeansInArgument scope owner) first.segments inner →
    ReadsArguments t scope owner rest later →
    ReadsArguments t scope owner (first :: rest) (inner ++ later)
end

/-- **A name is read in a scope**, with the path that each of its segments refers to. -/
def ReadsName (t : Tree) (scope : Path) (name : Name) (references : List (Segment × Path)) : Prop :=
  ReadsSegments t scope (t.MeansInScope scope) name.segments references

/-! ## What a reading gives -/

mutual
/-- **A reading goes through all segments**, in their order. -/
theorem ReadsSegments.map_fst {t : Tree} {scope : Path} :
    ∀ (segments : List Segment) {means : String → Path → Prop}
      {references : List (Segment × Path)}, t.ReadsSegments scope means segments references →
      references.map Prod.fst = partsOfSegments segments
  | [], _, _, reads => by
    cases reads
    rfl
  | ⟨id, text, arguments, span⟩ :: rest, _, _, reads => by
    cases reads with
    | cons _ _ reads readsOn =>
      rw [partsOfSegments, Segment.parts, List.map_append, List.map_cons,
        ReadsArguments.map_fst arguments reads, ReadsSegments.map_fst rest readsOn]
theorem ReadsArguments.map_fst {t : Tree} {scope : Path} :
    ∀ (arguments : List Name) {owner : Path} {references : List (Segment × Path)},
      t.ReadsArguments scope owner arguments references →
      references.map Prod.fst = partsOfNames arguments
  | [], _, _, reads => by
    cases reads
    rfl
  | ⟨segments, span⟩ :: rest, _, _, reads => by
    cases reads with
    | cons reads readsOn =>
      rw [partsOfNames, Name.parts, List.map_append, ReadsSegments.map_fst segments reads,
        ReadsArguments.map_fst rest readsOn]
end

theorem ReadsName.map_fst {t : Tree} {scope : Path} {name : Name}
    {references : List (Segment × Path)} (reads : t.ReadsName scope name references) :
    references.map Prod.fst = name.parts := by
  rw [Name.parts_eq]
  exact ReadsSegments.map_fst _ reads

theorem MeansInScope.hasType {t : Tree} {scope path : Path} {text : String}
    (means : t.MeansInScope scope text path) : t.HasType path := by
  obtain ⟨outer, -, ⟨holds, rfl⟩, -⟩ := means
  exact holds

theorem HasInnerType.hasType {t : Tree} {path : Path} (holds : t.HasInnerType path) :
    t.HasType path := by
  obtain ⟨claim, claimed, kind⟩ := holds
  refine ⟨claim, claimed, .inl ?_⟩
  simp only [List.mem_cons, List.not_mem_nil] at kind ⊢
  tauto

theorem MeansInArgument.hasType {t : Tree} {scope owner path : Path} {text : String}
    (means : t.MeansInArgument scope owner text path) : t.HasType path := by
  cases means with
  | inside holds => exact holds.hasType
  | around _ means => exact means.hasType

mutual
/-- **Each segment refers to a type** that takes as many arguments as the segment has. -/
theorem ReadsSegments.hasType {t : Tree} {scope : Path} {part : Segment} {path : Path} :
    ∀ (segments : List Segment) {means : String → Path → Prop}
      {references : List (Segment × Path)}, t.ReadsSegments scope means segments references →
      (∀ text found, means text found → t.HasType found) → (part, path) ∈ references →
      t.HasType path ∧ t.arityAt path = part.arguments.length
  | [], _, _, reads, _, mem => by
    cases reads
    cases mem
  | ⟨id, text, arguments, span⟩ :: rest, _, _, reads, types, mem => by
    cases reads with
    | cons found arity reads readsOn =>
      rcases List.mem_append.1 mem with mem | mem
      · rcases List.mem_cons.1 mem with same | mem
        · cases same
          exact ⟨types _ _ found, arity⟩
        · exact ReadsArguments.hasType arguments reads mem
      · refine ReadsSegments.hasType rest readsOn (fun text found means => ?_) mem
        obtain ⟨holds, rfl⟩ := means
        exact holds
theorem ReadsArguments.hasType {t : Tree} {scope : Path} {part : Segment} {path : Path} :
    ∀ (arguments : List Name) {owner : Path} {references : List (Segment × Path)},
      t.ReadsArguments scope owner arguments references → (part, path) ∈ references →
      t.HasType path ∧ t.arityAt path = part.arguments.length
  | [], _, _, reads, mem => by
    cases reads
    cases mem
  | ⟨segments, span⟩ :: rest, _, _, reads, mem => by
    cases reads with
    | cons reads readsOn =>
      rcases List.mem_append.1 mem with mem | mem
      · exact ReadsSegments.hasType segments reads (fun _ _ means => means.hasType) mem
      · exact ReadsArguments.hasType rest readsOn mem
end

theorem ReadsName.hasType {t : Tree} {scope : Path} {name : Name}
    {references : List (Segment × Path)} (reads : t.ReadsName scope name references)
    {part : Segment} {path : Path} (mem : (part, path) ∈ references) :
    t.HasType path ∧ t.arityAt path = part.arguments.length :=
  ReadsSegments.hasType _ reads (fun _ _ means => means.hasType) mem

/-! ## Look-up finds what a text means -/

theorem isType_iff {claim : Claim} :
    claim.isType = true ↔
      claim.kind ∈ [.struct, .interface, .synonym, .enum, .typeParameter, .file] ∨
        claim = .builtinType := by
  obtain ⟨kind, value⟩ := claim
  cases kind <;> simp [Claim.isType, Claim.builtinType]

theorem isNestedType_iff {claim : Claim} :
    claim.isNestedType = true ↔ claim.kind ∈ [.struct, .interface, .synonym, .enum] := by
  obtain ⟨kind, value⟩ := claim
  cases kind <;> simp [Claim.isNestedType]

theorem hasType_iff {t : Tree} {path : Path} :
    t.HasType path ↔ (t.claimAt? path).any Claim.isType = true := by
  simp only [Option.any_eq_true, isType_iff, HasType]

theorem hasInnerType_iff {t : Tree} {path : Path} :
    t.HasInnerType path ↔ (t.claimAt? path).any Claim.isNestedType = true := by
  simp only [Option.any_eq_true, isNestedType_iff, HasInnerType]

theorem typeBelow?_eq_some_iff {t : Tree} {owner path : Path} {text : String} :
    t.typeBelow? owner text = some path ↔ t.MeansBelow owner text path := by
  rw [typeBelow?, MeansBelow, hasType_iff]
  split <;> simp [*, eq_comm]

theorem typeBelow?_eq_none_iff {t : Tree} {owner : Path} {text : String} :
    t.typeBelow? owner text = none ↔ ¬ t.HasType (owner ++ [text]) := by
  rw [typeBelow?, hasType_iff]
  split <;> simp [*]

theorem nestedType?_eq_some_iff {t : Tree} {owner path : Path} {text : String} :
    t.nestedType? owner text = some path ↔
      t.HasInnerType (owner ++ [text]) ∧ path = owner ++ [text] := by
  rw [nestedType?, hasInnerType_iff]
  split <;> simp [*, eq_comm]

theorem nestedType?_eq_none_iff {t : Tree} {owner : Path} {text : String} :
    t.nestedType? owner text = none ↔ ¬ t.HasInnerType (owner ++ [text]) := by
  rw [nestedType?, hasInnerType_iff]
  split <;> simp [*]

/-- The first found from above is the greatest that finds anything. -/
theorem findSome?_range_reverse {α : Type} {find : Nat → Option α} {n : Nat} {found : α} :
    (List.range n).reverse.findSome? find = some found ↔
      ∃ k < n, find k = some found ∧ ∀ j, k < j → j < n → find j = none := by
  induction n with
  | zero => simp
  | succ n ih =>
    rw [List.range_succ, List.reverse_append, List.reverse_singleton, List.singleton_append,
      List.findSome?_cons]
    cases last : find n with
    | none =>
      rw [ih]
      constructor
      · rintro ⟨k, inside, here, above⟩
        refine ⟨k, by omega, here, fun j after inside => ?_⟩
        rcases Nat.lt_succ_iff_lt_or_eq.1 inside with inside | rfl
        · exact above j after inside
        · exact last
      · rintro ⟨k, inside, here, above⟩
        rcases Nat.lt_succ_iff_lt_or_eq.1 inside with inside | rfl
        · exact ⟨k, inside, here, fun j after inside => above j after (by omega)⟩
        · rw [last] at here
          cases here
    | some other =>
      constructor
      · rintro ⟨⟩
        exact ⟨n, by omega, last, fun j after inside => by omega⟩
      · rintro ⟨k, inside, here, above⟩
        rcases Nat.lt_succ_iff_lt_or_eq.1 inside with inside | rfl
        · rw [above n inside (by omega)] at last
          cases last
        · rw [← last, here]

/-- **The search from the inside out finds what a text means in a scope.** -/
theorem typeInScope?_eq_some_iff {t : Tree} {scope path : Path} {text : String} :
    t.typeInScope? scope text = some path ↔ t.MeansInScope scope text path := by
  rw [typeInScope?, Path.ancestors, List.findSome?_map, findSome?_range_reverse]
  simp only [Function.comp_apply, typeBelow?_eq_some_iff, typeBelow?_eq_none_iff]
  constructor
  · rintro ⟨k, inside, means, nearest⟩
    refine ⟨scope.take k, List.take_prefix .., means, fun longer within longerThan => ?_⟩
    rw [List.prefix_iff_eq_take.1 within]
    rw [List.length_take] at longerThan
    exact nearest longer.length (by omega) (Nat.lt_succ_of_le within.length_le)
  · rintro ⟨outer, within, means, nearest⟩
    refine ⟨outer.length, Nat.lt_succ_of_le within.length_le, ?_, fun j above inside => ?_⟩
    · rwa [← List.prefix_iff_eq_take.1 within]
    · refine nearest (scope.take j) (List.take_prefix ..) ?_
      rw [List.length_take]
      omega

/-- What a text means in an argument is found in the type first and then in the scope. -/
theorem typeInArgument?_eq_some_iff {t : Tree} {scope owner path : Path} {text : String} :
    (t.nestedType? owner text <|> t.typeInScope? scope text) = some path ↔
      t.MeansInArgument scope owner text path := by
  cases inner : t.nestedType? owner text with
  | none =>
    have absent := nestedType?_eq_none_iff.1 inner
    change t.typeInScope? scope text = some path ↔ _
    rw [typeInScope?_eq_some_iff]
    constructor
    · exact .around absent
    · rintro (holds | ⟨-, means⟩)
      · exact absurd holds absent
      · exact means
  | some found =>
    obtain ⟨holds, rfl⟩ := nestedType?_eq_some_iff.1 inner
    change some (owner ++ [text]) = some path ↔ _
    rw [Option.some.injEq]
    constructor
    · rintro rfl
      exact .inside holds
    · rintro (- | ⟨absent, -⟩)
      · rfl
      · exact absurd holds absent

/-! ## A name has one reading -/

/-- A text means at most one path. -/
def Functional (means : String → Path → Prop) : Prop :=
  ∀ ⦃text a b⦄, means text a → means text b → a = b

theorem functional_meansBelow (t : Tree) (owner : Path) : Functional (t.MeansBelow owner) := by
  rintro text a b ⟨-, rfl⟩ ⟨-, rfl⟩
  rfl

theorem functional_meansInScope (t : Tree) (scope : Path) :
    Functional (t.MeansInScope scope) := by
  intro text a b first second
  have foundA := typeInScope?_eq_some_iff.2 first
  have foundB := typeInScope?_eq_some_iff.2 second
  exact Option.some.inj (foundA.symm.trans foundB)

theorem functional_meansInArgument (t : Tree) (scope owner : Path) :
    Functional (t.MeansInArgument scope owner) := by
  intro text a b first second
  have foundA := typeInArgument?_eq_some_iff.2 first
  have foundB := typeInArgument?_eq_some_iff.2 second
  exact Option.some.inj (foundA.symm.trans foundB)

mutual
/-- **Segments are read in one way.** -/
theorem ReadsSegments.unique {t : Tree} {scope : Path} :
    ∀ (segments : List Segment) {means : String → Path → Prop} {a b : List (Segment × Path)},
      Functional means → t.ReadsSegments scope means segments a →
      t.ReadsSegments scope means segments b → a = b
  | [], _, _, _, _, readsA, readsB => by
    cases readsA
    cases readsB
    rfl
  | ⟨id, text, arguments, span⟩ :: rest, _, _, _, functional, readsA, readsB => by
    cases readsA with
    | cons foundA _ innerA laterA =>
      cases readsB with
      | cons foundB _ innerB laterB =>
        obtain rfl := functional foundA foundB
        rw [ReadsArguments.unique arguments innerA innerB,
          ReadsSegments.unique rest (functional_meansBelow t _) laterA laterB]
theorem ReadsArguments.unique {t : Tree} {scope : Path} :
    ∀ (arguments : List Name) {owner : Path} {a b : List (Segment × Path)},
      t.ReadsArguments scope owner arguments a → t.ReadsArguments scope owner arguments b → a = b
  | [], _, _, _, readsA, readsB => by
    cases readsA
    cases readsB
    rfl
  | ⟨segments, span⟩ :: rest, _, _, _, readsA, readsB => by
    cases readsA with
    | cons innerA laterA =>
      cases readsB with
      | cons innerB laterB =>
        rw [ReadsSegments.unique segments (functional_meansInArgument t scope _) innerA innerB,
          ReadsArguments.unique rest laterA laterB]
end

theorem ReadsName.unique {t : Tree} {scope : Path} {name : Name} {a b : List (Segment × Path)}
    (readsA : t.ReadsName scope name a) (readsB : t.ReadsName scope name b) : a = b :=
  ReadsSegments.unique _ (functional_meansInScope t scope) readsA readsB

end Tree

end FrontEnd

import FrontEnd.Proofs.Symbol.Held
import FrontEnd.Proofs.Symbol.Scoping

/-!
# A tree that grows below one segment

A further module whose first segment names nothing yet is registered below this segment alone: its
own path, its dotted functions and all that they contain begin with it. So the tree grows below the
segment, and elsewhere it holds what it held (`Tree.GrowsBelow`).

No search of an older declaration comes by there. A scope that stands is not below the segment, the
segment itself would have to be the first of a name, and a name that begins with it was not read
before. What a text meant it means in the grown tree.

**The laws** (`Compilation.growsBelow_of_registerAll`, `Tree.GrowsBelow.readsName`): the tree of
files and a further file grows below the first segment of the further module, and a name that was
read in a scope that stands is read alike.
-/

namespace FrontEnd

variable {segment : String}

/-! ## Registrations below a segment -/

/-- What begins with a segment has all its beginnings below the segment but for the root. -/
theorem Path.begins_of_prefix {path outer : Path} (begins : [segment] <+: path)
    (within : outer <+: path) (below : outer ≠ []) : [segment] <+: outer := by
  apply List.prefix_of_prefix_length_le begins within
  exact List.length_pos_iff.2 below

namespace Registration

/-- Registrations below a segment leave what is not below it, but for the root. -/
theorem foldlM_update?_apart {path : Path} {rs : List Registration}
    (begin : ∀ r ∈ rs, [segment] <+: r.path) (apart : ¬ [segment] <+: path) (below : path ≠ [])
    (held : Option Claim) : rs.foldlM (update? path) held = some held := by
  refine foldlM_update?_outside (fun r mem within => apart ?_) held
  exact Path.begins_of_prefix (begin r mem) within below

/-- Registrations that are refused at a path are refused where one of them stands. -/
theorem exists_here_of_refused {path : Path} {rs : List Registration} {held : Option Claim}
    (refused : rs.foldlM (update? path) held = none) : ∃ r ∈ rs, r.path = path := by
  induction rs generalizing held with
  | nil => cases refused
  | cons first rest ih =>
    by_cases here : first.path = path
    · exact ⟨first, List.mem_cons_self, here⟩
    · obtain ⟨opens, run, -, -⟩ := update?_elsewhere first.claim here
      rw [List.foldlM_cons, run held] at refused
      obtain ⟨r, mem, here⟩ := ih refused
      exact ⟨r, List.mem_cons_of_mem _ mem, here⟩

/-- What is built in stands directly below the root. -/
theorem exists_path_of_ofConfig {config : Config} {r : Registration} (mem : r ∈ ofConfig config) :
    ∃ name, r.path = [name] := by
  rcases List.mem_append.1 mem with isType | isFunction
  · obtain ⟨name, -, rfl⟩ := List.mem_map.1 isType
    exact ⟨name, rfl⟩
  · obtain ⟨name, -, rfl⟩ := List.mem_map.1 isFunction
    exact ⟨name, rfl⟩

end Registration

/-- **A file at a module is registered below the first segment of the module.** -/
theorem File.begins_of_registrations {module : Path} {file : File} {r : Registration}
    (begins : [segment] <+: module) (mem : r ∈ file.registrations module) :
    [segment] <+: r.path := by
  rcases List.mem_append.1 mem with ofModule | declared
  · obtain ⟨within, below, -⟩ := Registration.mem_ofModule_iff.1 ofModule
    exact Path.begins_of_prefix begins within below
  · obtain ⟨r, -, rfl⟩ := List.mem_map.1 declared
    exact begins.trans (List.prefix_append ..)

/-! ## Growing below a segment -/

namespace Tree

variable {t grown : Tree}

/-- **A tree grows below a segment**: nothing stood there, and every other path holds what it
held. -/
structure GrowsBelow (segment : String) (t grown : Tree) : Prop where
  fresh : ∀ path, [segment] <+: path → t.claimAt? path = none
  same : ∀ path, ¬ [segment] <+: path → grown.claimAt? path = t.claimAt? path

/-- Where the segment does not stand nothing stands below it. -/
theorem IsMap.claimAt?_of_begins (isMap : t.IsMap) (fresh : t.claimAt? [segment] = none)
    {path : Path} (begins : [segment] <+: path) : t.claimAt? path = none := by
  rw [claimAt?_eq_none_iff] at fresh ⊢
  intro stands
  exact fresh (isMap.closed stands begins)

namespace GrowsBelow

variable (grows : GrowsBelow segment t grown)

include grows

/-- What is claimed stands apart from the segment. -/
theorem apart {path : Path} {claim : Claim} (claimed : t.claimAt? path = some claim) :
    ¬ [segment] <+: path := by
  intro begins
  rw [grows.fresh path begins] at claimed
  cases claimed

/-- **What is claimed stays claimed.** -/
theorem claimAt?_eq_some {path : Path} {claim : Claim} (claimed : t.claimAt? path = some claim) :
    grown.claimAt? path = some claim := by
  rw [grows.same path (grows.apart claimed), claimed]

theorem hasType {path : Path} (holds : t.HasType path) : grown.HasType path := by
  obtain ⟨claim, claimed, isType⟩ := holds
  exact ⟨claim, grows.claimAt?_eq_some claimed, isType⟩

theorem hasInnerType {path : Path} (holds : t.HasInnerType path) : grown.HasInnerType path := by
  obtain ⟨claim, claimed, isInner⟩ := holds
  exact ⟨claim, grows.claimAt?_eq_some claimed, isInner⟩

theorem arityAt_eq {path : Path} (holds : t.HasType path) : grown.arityAt path = t.arityAt path := by
  obtain ⟨claim, claimed, -⟩ := holds
  rw [arityAt, arityAt, grows.claimAt?_eq_some claimed, claimed]

theorem meansBelow {owner path : Path} {text : String} (means : t.MeansBelow owner text path) :
    grown.MeansBelow owner text path := by
  obtain ⟨holds, rfl⟩ := means
  exact ⟨grows.hasType holds, rfl⟩

/-- What stands below a path that is apart from the segment is what stood there. -/
theorem same_below {owner : Path} (apart : ¬ [segment] <+: owner) (below : owner ≠ [])
    (text : String) : grown.claimAt? (owner ++ [text]) = t.claimAt? (owner ++ [text]) := by
  apply grows.same
  intro begins
  exact apart (Path.begins_of_prefix begins (List.prefix_append ..) below)

/-- **What a text means in a scope it means in the grown tree**: further in than the type that it
means nothing is new. -/
theorem meansInScope {scope path : Path} {text : String} (apart : ¬ [segment] <+: scope)
    (means : t.MeansInScope scope text path) : grown.MeansInScope scope text path := by
  obtain ⟨outer, within, means, nearest⟩ := means
  refine ⟨outer, within, grows.meansBelow means, ?_⟩
  intro longer withinToo longerThan holds
  apply nearest longer withinToo longerThan
  have below : longer ≠ [] := List.ne_nil_of_length_pos (by omega)
  have apartToo : ¬ [segment] <+: longer := fun begins => apart (begins.trans withinToo)
  obtain ⟨claim, claimed, isType⟩ := holds
  rw [grows.same_below apartToo below] at claimed
  exact ⟨claim, claimed, isType⟩

/-- What a text means in an argument of a type it means in the grown tree. -/
theorem meansInArgument {scope owner path : Path} {text : String} (apart : ¬ [segment] <+: scope)
    (isType : t.HasType owner) (below : owner ≠ [])
    (means : t.MeansInArgument scope owner text path) :
    grown.MeansInArgument scope owner text path := by
  cases means with
  | inside holds => exact .inside (grows.hasInnerType holds)
  | around absent means =>
    apply MeansInArgument.around _ (grows.meansInScope apart means)
    rintro ⟨claim, claimed, isInner⟩
    obtain ⟨own, stands, -⟩ := isType
    rw [grows.same_below (grows.apart stands) below] at claimed
    exact absent ⟨claim, claimed, isInner⟩

end GrowsBelow

/-! ## Names are read alike -/

variable {scope : Path}

mutual
/-- **Segments are read alike** where the first means what it meant. -/
theorem GrowsBelow.readsSegments (grows : GrowsBelow segment t grown) (noType : ¬ t.HasType [])
    (apart : ¬ [segment] <+: scope) : ∀ (segments : List Segment) {means further : String → Path → Prop}
    {references : List (Segment × Path)}, (∀ text path, means text path → t.HasType path) →
    (∀ text path, means text path → further text path) →
    t.ReadsSegments scope means segments references →
    grown.ReadsSegments scope further segments references
  | [], _, _, _, _, _, reads => by
    cases reads
    exact .nil
  | ⟨id, text, arguments, span⟩ :: rest, _, _, _, types, carries, reads => by
    cases reads with
    | cons found arity reads readsOn =>
      have isType := types _ _ found
      apply ReadsSegments.cons (carries _ _ found)
      · rw [grows.arityAt_eq isType, arity]
      · exact grows.readsArguments noType apart arguments isType reads
      · apply grows.readsSegments noType apart rest _ _ readsOn
        · rintro text path ⟨holds, rfl⟩
          exact holds
        · intro text path means
          exact grows.meansBelow means
/-- Arguments are read alike. -/
theorem GrowsBelow.readsArguments (grows : GrowsBelow segment t grown) (noType : ¬ t.HasType [])
    (apart : ¬ [segment] <+: scope) : ∀ (arguments : List Name) {owner : Path}
    {references : List (Segment × Path)}, t.HasType owner →
    t.ReadsArguments scope owner arguments references →
    grown.ReadsArguments scope owner arguments references
  | [], _, _, _, reads => by
    cases reads
    exact .nil
  | ⟨segments, span⟩ :: rest, owner, _, isType, reads => by
    cases reads with
    | cons reads readsOn =>
      have below : owner ≠ [] := by
        rintro rfl
        exact noType isType
      apply ReadsArguments.cons
      · apply grows.readsSegments noType apart segments _ _ reads
        · intro text path means
          exact means.hasType
        · intro text path means
          exact grows.meansInArgument apart isType below means
      · exact grows.readsArguments noType apart rest isType readsOn
end

/-- **A name is read alike** in a scope that is apart from the segment. -/
theorem GrowsBelow.readsName (grows : GrowsBelow segment t grown) (noType : ¬ t.HasType [])
    (apart : ¬ [segment] <+: scope) {name : Name} {references : List (Segment × Path)}
    (reads : t.ReadsName scope name references) : grown.ReadsName scope name references := by
  apply grows.readsSegments noType apart _ _ _ reads
  · intro text path means
    exact means.hasType
  · intro text path means
    exact grows.meansInScope apart means

/-- Names are read alike in scopes that are apart from the segment. -/
theorem GrowsBelow.readsAll (grows : GrowsBelow segment t grown) (noType : ¬ t.HasType [])
    {names : List (Path × Name)} {references : List (Segment × Path)}
    (apart : ∀ scope name, (scope, name) ∈ names → ¬ [segment] <+: scope)
    (reads : t.ReadsAll names references) : grown.ReadsAll names references := by
  induction reads with
  | nil => exact .nil
  | cons reads _ ih =>
    apply ReadsAll.cons
    · exact grows.readsName noType (apart _ _ List.mem_cons_self) reads
    · exact ih fun scope name mem => apart scope name (List.mem_cons_of_mem _ mem)

end Tree

/-! ## Scopes stand -/

/-- **A name in type position is written in the scope of a declaration** that the file registers. -/
theorem File.claimed_of_mem_typeNames {file : File} {module scope : Path} {name : Name}
    (mem : (scope, name) ∈ file.typeNames module) :
    ∃ r ∈ file.claims, scope = module ++ r.path := by
  obtain ⟨d, inFile, mem⟩ := List.mem_flatMap.1 mem
  obtain ⟨r, ofDecl, path⟩ : ∃ r ∈ Registration.ofDecl d, scope = module ++ r.path := by
    cases d with
    | struct d =>
      obtain ⟨⟨scope, inner⟩, within, mem⟩ := List.mem_flatMap.1 mem
      obtain ⟨_, -, same⟩ := List.mem_map.1 mem
      cases same
      obtain ⟨path, inside, rfl⟩ := StructDecl.mem_withInner_iff.1 within
      exact ⟨_, Registration.mem_ofDecl_iff.2 (.struct inside), rfl⟩
    | function d | interface d =>
      obtain ⟨_, -, same⟩ := List.mem_map.1 mem
      cases same
      exact ⟨_, List.mem_cons_self, rfl⟩
    | synonym d =>
      cases List.mem_singleton.1 mem
      exact ⟨_, List.mem_cons_self, rfl⟩
    | enum d => cases mem
  exact ⟨r, List.mem_flatMap.2 ⟨d, inFile, ofDecl⟩, path⟩

/-! ## Registering a further file -/

namespace Compilation

variable {config : Config} {files : List (Path × File)} {placed : List Placed} {t : Tree}

/-- What registered files leave is a map. -/
theorem isMap_of_registerAll (run : registerAll config files .empty = .ok placed t) : t.IsMap := by
  have outcome := outcome_registerAll config files
  rw [run] at outcome
  cases outcome with
  | accepted isMap _ _ => exact isMap

/-- The root is no type. -/
theorem not_hasType_root (run : registerAll config files .empty = .ok placed t) :
    ¬ t.HasType [] := by
  rw [Tree.hasType_iff, claimAt?_root run]
  nofun

/-- The names of registered files are written in scopes that stand. -/
theorem claimed_of_mem_typeNames (run : registerAll config files .empty = .ok placed t)
    {scope : Path} {name : Name} (mem : (scope, name) ∈ typeNames files) :
    ∃ claim, t.claimAt? scope = some claim := by
  obtain ⟨f, inFiles, mem⟩ := List.mem_flatMap.1 mem
  obtain ⟨r, claims, rfl⟩ := File.claimed_of_mem_typeNames mem
  obtain ⟨-, -, knows⟩ := registered_of_registerAll run
  obtain ⟨claim, claimed, -⟩ := knows f inFiles r claims
  exact ⟨claim, claimed⟩

/-- Files are registered one after another. -/
theorem registerUnits_append (first rest : List (Path × File)) :
    registerUnits (first ++ rest) =
      (do let placed ← registerUnits first
          let further ← registerUnits rest
          return placed ++ further) := by
  induction first with
  | nil => simp [registerUnits]
  | cons f first ih => simp [registerUnits, ih]

variable {module : Path} {file : File}

/-- **The tree of files and a further file** grows below the first segment of the further module. -/
theorem growsBelow_of_registerAll (run : registerAll config files .empty = .ok placed t)
    (fresh : t.claimAt? [segment] = none) (begins : [segment] <+: module)
    {further : List Placed} {grown : Tree}
    (runToo : registerAll config (files ++ [(module, file)]) .empty = .ok further grown) :
    t.GrowsBelow segment grown where
  fresh := fun path begins => (isMap_of_registerAll run).claimAt?_of_begins fresh begins
  same := by
    intro path apart
    by_cases below : path = []
    · rw [below, claimAt?_root run, claimAt?_root runToo]
    · have leads := leads_of_registerAll run path
      have leadsToo := leads_of_registerAll runToo path
      have own : [(module, file)].flatMap (fun f => f.2.registrations f.1) =
          file.registrations module := List.append_nil _
      rw [registrations, List.foldlM_append] at leads
      rw [registrations, List.flatMap_append, own, List.foldlM_append, List.foldlM_append] at leadsToo
      obtain ⟨between, first, later⟩ := Option.bind_eq_some_iff.1 leads
      have unmoved := Registration.foldlM_update?_apart
        (fun r mem => file.begins_of_registrations begins mem) apart below between
      rw [first, Option.bind_eq_bind, Option.bind_some, unmoved, Option.bind_some,
        later] at leadsToo
      exact (Option.some.inj leadsToo).symm

/-- A file by itself is refused when its registration is. -/
theorem register_eq_error_of_registerUnits {between after : Tree} {d : Diagnostic}
    (failed : registerUnits [(module, file)] between = .error d after) :
    Tree.register module file between = .error d after := by
  rcases bind_eq_error.1 failed with refused | ⟨node, reached, -, failed⟩
  · exact refused
  · cases failed

/-- **What is built in stands beside a further module**: it is not refused behind one when it was
not refused without it, since it does not stand at the segment that was free. -/
theorem registerBuiltins_ne_error (fresh : t.claimAt? [segment] = none)
    (begins : [segment] <+: module) {between opened after : Tree} {further : List Placed}
    {d : Diagnostic} (isMap : between.IsMap) (hasRoot : between.HasRoot)
    (builtIn : Tree.registerBuiltins config between = .ok () t)
    (own : registerUnits [(module, file)] between = .ok further opened) :
    Tree.registerBuiltins config opened ≠ .error d after := by
  intro refused
  have made (r : Registration) (mem : r ∈ Registration.ofConfig config) : r.claim.Made :=
    Registration.ofConfig_made mem
  have outcome := Tree.outcome_declareAll_root isMap hasRoot made
  have outcomeOwn := outcome_registerUnits [(module, file)] isMap hasRoot
  rw [Tree.registerBuiltins] at builtIn refused
  rw [builtIn] at outcome
  rw [own] at outcomeOwn
  cases outcome with
  | accepted _ _ leads =>
    cases outcomeOwn with
    | accepted isMapToo grows leadsOwn =>
      have outcomeToo := Tree.outcome_declareAll_root isMapToo (grows.hasRoot hasRoot) made
      rw [refused] at outcomeToo
      cases outcomeToo with
      | refused conflict =>
        obtain ⟨path, conflict⟩ := conflict
        obtain ⟨r, mem, rfl⟩ := Registration.exists_here_of_refused conflict
        obtain ⟨held, claimed, -⟩ := leads.holds mem (made r mem).known
        obtain ⟨name, here⟩ := Registration.exists_path_of_ofConfig mem
        have apart : ¬ [segment] <+: r.path := by
          intro begins
          rw [here] at begins claimed
          rw [← begins.eq_of_length rfl, fresh] at claimed
          cases claimed
        have below : r.path ≠ [] := by
          rw [here]
          exact List.cons_ne_nil _ _
        have unmoved := leadsOwn r.path
        rw [List.flatMap_singleton, Registration.foldlM_update?_apart
          (fun r mem => file.begins_of_registrations begins mem) apart below] at unmoved
        rw [← Option.some.inj unmoved, leads r.path] at conflict
        cases conflict

/-- **A further file is refused for its own registrations alone**, and not for what is built in,
which is registered behind it. -/
theorem register_eq_error_of_registerAll (run : registerAll config files .empty = .ok placed t)
    (fresh : t.claimAt? [segment] = none) (begins : [segment] <+: module)
    {d : Diagnostic} {after : Tree}
    (failed : registerAll config (files ++ [(module, file)]) .empty = .error d after) :
    ∃ placed between, registerUnits files .empty = .ok placed between ∧
      Tree.register module file between = .error d after := by
  obtain ⟨placed, between, unitsRun, later⟩ := bind_eq_ok.1 run
  obtain ⟨⟨⟩, reached, builtIn, same⟩ := bind_eq_ok.1 later
  obtain ⟨rfl, rfl⟩ := pure_eq_ok.1 same
  refine ⟨placed, between, unitsRun, ?_⟩
  have split : registerUnits (files ++ [(module, file)]) .empty =
      (registerUnits [(module, file)] >>= fun further => pure (placed ++ further)) between := by
    rw [registerUnits_append]
    change EStateM.bind _ _ _ = _
    rw [EStateM.bind, unitsRun]
  rcases bind_eq_error.1 failed with refused | ⟨further, opened, ownRun, refused⟩
  · rw [split] at refused
    rcases bind_eq_error.1 refused with refused | ⟨further, opened, -, refused⟩
    · exact register_eq_error_of_registerUnits refused
    · cases refused
  · exfalso
    rw [split] at ownRun
    obtain ⟨own, opened, fileRun, same⟩ := bind_eq_ok.1 ownRun
    obtain ⟨rfl, rfl⟩ := pure_eq_ok.1 same
    have outcome := outcome_registerUnits files Tree.isMap_empty Tree.hasRoot_empty
    rw [unitsRun] at outcome
    cases outcome with
    | accepted isMap grows _ =>
      rcases bind_eq_error.1 refused with refused | ⟨_, _, -, refused⟩
      · exact registerBuiltins_ne_error fresh begins isMap (grows.hasRoot Tree.hasRoot_empty)
          builtIn fileRun refused
      · cases refused

end Compilation

end FrontEnd

import FrontEnd.Proofs.Symbol.Registered
import FrontEnd.Proofs.Symbol.Relabelled
import Mathlib.Data.List.Nodup

/-!
# Registration at other positions

Registration compares claims, and with them the positions of declarations: the same claim made again
is no fault, a further one is. So positions are not inert, but all that matters is whether two of
them are the same. A relabelling that tells apart the claims it is given (`Relabel.TellsApart`)
leaves registration as it is: from the relabelled claims the relabelled tree is built, and where one
run is refused the other is refused with the same fault (`Tree.alike_declareAll`).

Two lists of different positions, of the same length, give such a relabelling
(`Relabel.moving_tellsApart`).
-/

namespace FrontEnd

variable {m : Relabel} {known : Claim → Prop}

/-- **A relabelling tells claims apart** when different claims of a class stay different. -/
def Relabel.TellsApart (m : Relabel) (known : Claim → Prop) : Prop :=
  ∀ a b, known a → known b → a.relabel m = b.relabel m → a = b

namespace Claim

/-- A claim without a position is the same at every other position. -/
theorem relabel_eq_iff {claim plain : Claim} (noPosition : ∀ position arity,
    plain.value ≠ .declared position arity) : claim.relabel m = plain ↔ claim = plain := by
  obtain ⟨kind, value⟩ := claim
  obtain ⟨plainKind, plainValue⟩ := plain
  cases value with
  | declared position arity =>
    have differs : Symbol.Value.declared position arity ≠ plainValue :=
      fun same => noPosition _ _ same.symm
    have differsToo : Symbol.Value.declared (m.position position) arity ≠ plainValue :=
      fun same => noPosition _ _ same.symm
    simp [relabel, Symbol.Value.relabel, differs, differsToo]
  | _ => rfl

/-- **Relabelled claims merge as the claims do**, where the relabelling tells them apart. -/
theorem merge?_relabel (apart : m.TellsApart known) {held further : Claim} (knownHeld : known held)
    (knownFurther : known further) :
    (held.relabel m).merge? (further.relabel m) = (held.merge? further).map (relabel m) := by
  have same : further.relabel m = held.relabel m ↔ further = held :=
    ⟨apart _ _ knownFurther knownHeld, congrArg _⟩
  have bare : further.relabel m = namespaceOnly ↔ further = namespaceOnly :=
    relabel_eq_iff nofun
  have repeats (p q : Prop) [Decidable p] [Decidable q] (equal : p ↔ q) (claim : Claim) :
      (if p then some (claim.relabel m) else none) =
        (if q then some claim else none).map (relabel m) := by
    rw [apply_ite (Option.map (relabel m))]
    exact if_congr equal rfl rfl
  obtain ⟨kind, value⟩ := held
  cases kind with
  | unknown => rfl
  | file =>
    cases value with
    | empty => exact repeats _ _ Iff.rfl further
    | file name => exact repeats _ _ (or_congr same bare) _
    | builtin _ | declared _ _ => exact repeats _ _ same _
  | _ => exact repeats _ _ same _

/-- What claims merge to is one of them. -/
theorem known_of_merge?_eq_some {held further merged : Claim} (h : held.merge? further = some merged)
    (knownHeld : known held) (knownFurther : known further) : known merged := by
  rcases merge?_eq_some_iff.1 h with ⟨-, rfl⟩ | ⟨-, -, rfl⟩ | ⟨-, rfl, -⟩
  · exact knownFurther
  · exact knownFurther
  · exact knownHeld

end Claim

namespace Tree

/-- Every claim of a tree is of a class. -/
def Holds (t : Tree) (known : Claim → Prop) : Prop :=
  ∀ node ∈ t.nodes, known node.claim

/-! ## The parts of a declaration -/

section Parts

variable {t : Tree}

theorem Holds.claimAt? (holds : t.Holds known) {path : Path} {held : Claim}
    (claimed : t.claimAt? path = some held) : known held := by
  obtain ⟨node, found, rfl⟩ := Option.map_eq_some_iff.1 claimed
  exact holds node (List.mem_of_find?_eq_some found)

theorem Holds.claim (holds : t.Holds known) {path : Path} {claim : Claim} (isKnown : known claim) :
    (t.claim path claim).Holds known := by
  refine List.forall_mem_map.2 fun node mem => ?_
  split
  · exact isKnown
  · exact holds node mem

theorem Holds.push (holds : t.Holds known) {path : Path} {claim : Claim} (isKnown : known claim) :
    (t.push path claim).Holds known := by
  refine List.forall_mem_append.2 ⟨holds, ?_⟩
  exact List.forall_mem_singleton.2 isKnown

theorem Holds.reserveAll (holds : t.Holds known) (free : known .unclaimed) (paths : List Path) :
    (paths.foldl reserve t).Holds known := by
  induction paths generalizing t with
  | nil => exact holds
  | cons first rest ih =>
    apply ih
    unfold reserve
    split
    · exact holds
    · exact holds.push free

variable (m t)

theorem size_relabel : (t.relabel m).size = t.size :=
  List.length_map _

theorem relabel_claim (path : Path) (claim : Claim) :
    (t.claim path claim).relabel m = (t.relabel m).claim path (claim.relabel m) := by
  rw [Tree.claim, Tree.claim, relabel, relabel, List.map_map, List.map_map]
  refine congrArg Tree.mk (List.map_congr_left fun node _ => ?_)
  exact apply_ite (Node.relabel m) ..

theorem relabel_push (path : Path) (claim : Claim) :
    (t.push path claim).relabel m = (t.relabel m).push path (claim.relabel m) :=
  congrArg Tree.mk List.map_append

theorem relabel_reserveAll (paths : List Path) :
    (paths.foldl reserve t).relabel m = paths.foldl reserve (t.relabel m) := by
  induction paths generalizing t with
  | nil => rfl
  | cons first rest ih =>
    have same : (t.reserve first).relabel m = (t.relabel m).reserve first := by
      rw [reserve, reserve, find?_relabel, apply_ite (relabel m), relabel_push]
      rfl
    rw [List.foldl_cons, List.foldl_cons, ih, same]

end Parts

/-! ## Declaring -/

/-- **Runs that are alike**: both end well, the second with the relabelled tree, or both are refused
with the same fault. -/
inductive Alike {α : Type} (m : Relabel) (known : Claim → Prop) :
    EStateM.Result Diagnostic Tree α → EStateM.Result Diagnostic Tree α → Prop
  | ok {value : α} {t : Tree} : t.Holds known → Alike m known (.ok value t) (.ok value (t.relabel m))
  | error {d e : Diagnostic} {t r : Tree} : d.fault = e.fault →
    Alike m known (.error d t) (.error e r)

/-- **A relabelled claim is declared as the claim is**, in the relabelled tree. -/
theorem alike_declare (apart : m.TellsApart known) (free : known .unclaimed) (base : Nat)
    (path : Path) {further : Claim} (knownFurther : known further) {t : Tree}
    (holds : t.Holds known) :
    Alike m known (declare base path further t)
      (declare base path (further.relabel m) (t.relabel m)) := by
  have added (target : Path) :
      Alike m known (.ok (target.between.foldl reserve t).size
          ((target.between.foldl reserve t).push target further))
        (.ok (target.between.foldl reserve (t.relabel m)).size
          ((target.between.foldl reserve (t.relabel m)).push target (further.relabel m))) := by
    rw [← relabel_reserveAll, ← relabel_push, size_relabel]
    exact .ok ((holds.reserveAll free _).push knownFurther)
  unfold declare
  rw [pathOf_relabel]
  dsimp only
  rw [find?_relabel, claimAt?_relabel]
  cases t.find? (t.pathOf base ++ path) with
  | none => exact added _
  | some id =>
    cases claimed : t.claimAt? (t.pathOf base ++ path) with
    | none => exact added _
    | some held =>
      have knownHeld := holds.claimAt? claimed
      dsimp only [Option.map_some]
      rw [Claim.merge?_relabel apart knownHeld knownFurther]
      cases merges : held.merge? further with
      | none => exact .error rfl
      | some merged =>
        dsimp only [Option.map_some]
        rw [← relabel_claim]
        exact .ok (holds.claim (Claim.known_of_merge?_eq_some merges knownHeld knownFurther))

/-- Declarations one after another, taken apart at the first. -/
theorem declareAll_cons (base : Nat) (r : Registration) (rest : List Registration) (t : Tree) :
    declareAll base (r :: rest) t =
      match declare base r.path r.claim t with
      | .ok _ between => declareAll base rest between
      | .error d between => .error d between := by
  change EStateM.bind (EStateM.map (fun _ => ()) (declare base r.path r.claim))
    (fun _ => declareAll base rest) t = _
  unfold EStateM.bind EStateM.map
  cases declare base r.path r.claim t <;> rfl

/-- **Relabelled claims are declared as the claims are**, one after another. -/
theorem alike_declareAll (apart : m.TellsApart known) (free : known .unclaimed) (base : Nat)
    {claims : List Registration} (knownAll : ∀ r ∈ claims, known r.claim) {t : Tree}
    (holds : t.Holds known) :
    Alike m known (declareAll base claims t)
      (declareAll base (claims.map (Registration.relabel m)) (t.relabel m)) := by
  induction claims generalizing t with
  | nil => exact .ok holds
  | cons first rest ih =>
    obtain ⟨knownFirst, knownRest⟩ := List.forall_mem_cons.1 knownAll
    have front := alike_declare apart free base first.path knownFirst holds
    rw [List.map_cons, declareAll_cons, declareAll_cons]
    change Alike m known _ (match declare base first.path (first.claim.relabel m) (t.relabel m) with
      | .ok _ between => declareAll base (rest.map (Registration.relabel m)) between
      | .error d between => .error d between)
    generalize declare base first.path first.claim t = result at front
    generalize declare base first.path (first.claim.relabel m) (t.relabel m) = other at front
    cases front with
    | ok holds => exact ih knownRest holds
    | error same => exact .error same

theorem declareAll_append (base : Nat) (a b : List Registration) (t : Tree) :
    declareAll base (a ++ b) t =
      match declareAll base a t with
      | .ok _ between => declareAll base b between
      | .error d between => .error d between := by
  induction a generalizing t with
  | nil => rfl
  | cons first rest ih =>
    rw [List.cons_append, declareAll_cons, declareAll_cons]
    cases declare base first.path first.claim t with
    | ok _ between => exact ih between
    | error d between => rfl

end Tree

/-! ## Positions moved one by one -/

/-- Whether a claim that has a position has it from a list. -/
def Claim.StandsAt (positions : List Position) (claim : Claim) : Prop :=
  ∀ position arity, claim.value = .declared position arity → position ∈ positions

/-- **The relabelling that moves positions to others** one by one. -/
def Relabel.moving (positions others : List Position) : Relabel :=
  ⟨fun id => id, fun p => (others[positions.idxOf p]?).getD default, fun file => file⟩

section Moving

variable {positions others : List Position}

theorem Relabel.moving_getElem (nodup : positions.Nodup) {i : Nat} (inside : i < positions.length)
    (insideToo : i < others.length) :
    (moving positions others).position positions[i] = others[i] := by
  have found : positions.idxOf positions[i] = i := nodup.idxOf_getElem i inside
  simp [moving, found, insideToo]

/-- **Different positions that are moved to different positions are told apart.** -/
theorem Relabel.moving_tellsApart (nodup : positions.Nodup) (nodupOthers : others.Nodup)
    (same : positions.length = others.length) :
    (moving positions others).TellsApart (Claim.StandsAt positions) := by
  intro a b standsA standsB equal
  obtain ⟨kind, value⟩ := a
  cases value with
  | declared p n =>
    obtain ⟨kindB, valueB⟩ := b
    have kinds : kind = kindB := congrArg Claim.kind equal
    have values := congrArg Claim.value equal
    cases valueB with
    | declared q k =>
      obtain ⟨moved, arity⟩ := Symbol.Value.declared.inj values
      obtain ⟨i, insideI, rfl⟩ := List.getElem_of_mem (standsA p n rfl)
      obtain ⟨j, insideJ, rfl⟩ := List.getElem_of_mem (standsB q k rfl)
      rw [moving_getElem nodup insideI (same ▸ insideI),
        moving_getElem nodup insideJ (same ▸ insideJ)] at moved
      have index := (List.Nodup.getElem_inj_iff nodupOthers).1 moved
      subst kinds index arity
      rfl
    | _ => cases values
  | _ =>
    refine ((Claim.relabel_eq_iff ?_).1 equal.symm).symm
    nofun

end Moving

/-- The positions at which claims are made. -/
def Registration.positions (claims : List Registration) : List Position :=
  claims.map (·.claim.value.position)

/-- **Claims of sources that are the same up to their positions** are the claims with their positions
moved. -/
theorem Registration.eq_map_moving {claims others : List Registration}
    (ofSource : ∀ r ∈ claims, r.claim.OfSource) (ofSourceToo : ∀ r ∈ others, r.claim.OfSource)
    (nodup : (positions claims).Nodup)
    (same : claims.map (relabel .placeless) = others.map (relabel .placeless)) :
    others = claims.map (relabel (.moving (positions claims) (positions others))) := by
  have length : claims.length = others.length := by
    simpa using congrArg List.length same
  refine List.ext_getElem (by simp [length]) fun i insideToo _ => ?_
  have inside : i < claims.length := length ▸ insideToo
  have pair : claims[i].relabel .placeless = others[i].relabel .placeless := by
    have at_i := congrArg (·[i]?) same
    simpa [inside, insideToo] using at_i
  have moved : (Relabel.moving (positions claims) (positions others)).position
      claims[i].claim.value.position = others[i].claim.value.position := by
    have at_i := Relabel.moving_getElem nodup
      (show i < (positions claims).length by simpa [positions] using inside)
      (show i < (positions others).length by simpa [positions] using insideToo)
    simpa [positions] using at_i
  rw [List.getElem_map]
  have source := ofSource _ (List.getElem_mem inside)
  have sourceToo := ofSourceToo _ (List.getElem_mem insideToo)
  generalize claims[i] = a at pair moved source
  generalize others[i] = b at pair moved sourceToo
  obtain ⟨path, claim⟩ := a
  obtain ⟨pathToo, claimToo⟩ := b
  cases source with
  | declared => cases sourceToo with
    | declared =>
      simp_all [relabel, Claim.relabel, Symbol.Value.relabel, Symbol.Value.position]

/-! ## A file at the root -/

namespace Compilation

/-- **Registering one file at the root** is declaring its claims and what is built in. -/
theorem registerAll_root (config : Config) (file : File) :
    registerAll config [([], file)] .empty =
      match Tree.declareAll Tree.root (file.claims ++ Registration.ofConfig config) .empty with
      | .ok _ t => .ok [⟨[], file⟩] t
      | .error d t => .error d t := by
  have registers : Tree.register [] file .empty =
      match Tree.declareAll Tree.root file.claims .empty with
      | .ok _ t => .ok Tree.root t
      | .error d t => .error d t := by
    change EStateM.bind (Tree.declareAll Tree.root file.claims) (fun _ => pure Tree.root) .empty = _
    unfold EStateM.bind
    cases Tree.declareAll Tree.root file.claims .empty <;> rfl
  change EStateM.bind
    (EStateM.bind (Tree.register [] file) fun module t => .ok [Placed.mk (t.pathOf module) file] t)
    (fun placed => EStateM.bind (Tree.registerBuiltins config) fun _ => pure placed) .empty = _
  unfold EStateM.bind
  rw [registers, Tree.declareAll_append]
  cases declares : Tree.declareAll Tree.root file.claims .empty with
  | error d t => rfl
  | ok value t =>
    have grows := (Tree.grows_of_declareAll declares Nat.zero_lt_one fun r mem =>
      File.claims_made mem).1
    have atRoot : t.pathOf Tree.root = [] := grows.pathOf_eq Nat.zero_lt_one
    change EStateM.bind (Tree.registerBuiltins config)
      (fun _ => pure [Placed.mk (t.pathOf Tree.root) file]) t =
        match Tree.declareAll Tree.root (Registration.ofConfig config) t with
        | .ok _ grown => .ok [⟨[], file⟩] grown
        | .error d grown => .error d grown
    unfold EStateM.bind Tree.registerBuiltins
    rw [atRoot]
    cases Tree.declareAll Tree.root (Registration.ofConfig config) t <;> rfl

/-- Erasing the positions of what was moved is erasing them. -/
theorem relabel_placeless_moving (positions others : List Position) (t : Tree) :
    (t.relabel (.moving positions others)).relabel .placeless = t.relabel .placeless := by
  have claims (claim : Claim) :
      (claim.relabel (.moving positions others)).relabel .placeless = claim.relabel .placeless := by
    obtain ⟨kind, value⟩ := claim
    cases value <;> rfl
  rw [Tree.relabel, Tree.relabel, Tree.relabel, List.map_map]
  exact congrArg Tree.mk (List.map_congr_left fun node _ => congrArg (Node.mk node.path) (claims _))

/-- **Files that make the same claims up to positions are registered alike** at the root, if each
makes its claims at different positions: with trees that are the same up to positions, or with the
same fault. -/
theorem registerAll_root_alike (config : Config) {file other : File}
    (nodup : (Registration.positions file.claims).Nodup)
    (nodupOther : (Registration.positions other.claims).Nodup)
    (same : file.claims.map (Registration.relabel .placeless) =
      other.claims.map (Registration.relabel .placeless)) :
    (∃ t r, registerAll config [([], file)] .empty = .ok [⟨[], file⟩] t ∧
      registerAll config [([], other)] .empty = .ok [⟨[], other⟩] r ∧
      t.relabel .placeless = r.relabel .placeless) ∨
    ∃ d e t r, registerAll config [([], file)] .empty = .error d t ∧
      registerAll config [([], other)] .empty = .error e r ∧ d.fault = e.fault := by
  let positions := Registration.positions file.claims
  let others := Registration.positions other.claims
  let m := Relabel.moving positions others
  have length : positions.length = others.length := by
    simpa [positions, others, Registration.positions] using congrArg List.length same
  have moved : other.claims = file.claims.map (Registration.relabel m) :=
    Registration.eq_map_moving (fun _ => File.claims_ofSource) (fun _ => File.claims_ofSource)
      nodup same
  have builtins : Registration.ofConfig config =
      (Registration.ofConfig config).map (Registration.relabel m) := by
    rw [Registration.ofConfig, List.map_append, List.map_map, List.map_map]
    rfl
  have stands : ∀ r ∈ file.claims ++ Registration.ofConfig config,
      r.claim.StandsAt positions := by
    intro r mem position arity declared
    rcases List.mem_append.1 mem with mem | mem
    · refine List.mem_map.2 ⟨r, mem, ?_⟩
      rw [declared]
      rfl
    · rcases List.mem_append.1 mem with mem | mem <;>
        obtain ⟨name, -, rfl⟩ := List.mem_map.1 mem <;> cases declared
  have empty : Tree.empty.Holds (Claim.StandsAt positions) :=
    List.forall_mem_singleton.2 nofun
  have alike := Tree.alike_declareAll (Relabel.moving_tellsApart nodup nodupOther length) nofun
    Tree.root stands empty
  rw [List.map_append, ← moved, ← builtins] at alike
  rw [registerAll_root, registerAll_root]
  change Tree.Alike _ _ _ (Tree.declareAll Tree.root (other.claims ++ Registration.ofConfig config)
    .empty) at alike
  generalize Tree.declareAll Tree.root (file.claims ++ _) .empty = run at alike
  generalize Tree.declareAll Tree.root (other.claims ++ _) .empty = runOther at alike
  cases alike with
  | ok => exact .inl ⟨_, _, rfl, rfl, (relabel_placeless_moving ..).symm⟩
  | error fault => exact .inr ⟨_, _, _, _, rfl, rfl, fault⟩

end Compilation

end FrontEnd

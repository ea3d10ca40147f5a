import FrontEnd.Proofs.Symbol.PathMap
import FrontEnd.Proofs.Symbol.Registered

/-!
# Registrations in another order

What a registration does to a tree can be said path by path: it merges its claim with the one at its
own path, and it opens the beginnings of its path (`Registration.update?`). Whether registrations are
accepted, and what each path then holds, is what these updates make of the claims that were there
(`Tree.Outcome`).

Two updates of one path commute, since merging does: a module may be named before or after it is
claimed without a name, and any other claim only agrees with itself. So the order of the
registrations is of no importance.

**The law** (`Compilation.registerAll_perm`): the same registrations in another order are accepted
too, and leave a tree with the same nodes.
-/

namespace FrontEnd

/-! ## Claims merge in any order -/

namespace Claim

/-- What a module that names no file merges with. -/
theorem merge?_namespaceOnly (further : Claim) :
    namespaceOnly.merge? further = if further.kind = .file then some further else none := rfl

/-- What a module that is a file merges with. -/
theorem merge?_file (name : String) (further : Claim) :
    (file name).merge? further =
      if further = file name ∨ further = namespaceOnly then some (file name) else none := rfl

/-- What a claim of another kind merges with. -/
theorem merge?_of_kind {held : Claim} (known : held.kind ≠ .unknown) (other : held.kind ≠ .file)
    (further : Claim) : held.merge? further = if further = held then some held else none := by
  obtain ⟨kind, value⟩ := held
  cases kind with
  | unknown => exact absurd rfl known
  | file => exact absurd rfl other
  | _ => rfl

theorem merge?_of_kind_ne {held further : Claim} (known : held.kind ≠ .unknown)
    (different : further.kind ≠ held.kind) : held.merge? further = none := by
  rw [Option.eq_none_iff_forall_ne_some]
  intro merged merges
  rcases merge?_eq_some_iff.1 merges with ⟨isOpen, -⟩ | ⟨rfl, isModule, -⟩ | ⟨-, -, agrees⟩
  · exact known isOpen
  · exact different isModule
  · rcases agrees with rfl | ⟨name, rfl, rfl⟩ <;> exact different rfl

/-- Two registered claims merge alike either way round. -/
theorem merge?_symm {a b : Claim} (madeA : a.Made) (madeB : b.Made) :
    a.merge? b = b.merge? a := by
  by_cases same : a.kind = b.kind
  · by_cases isModule : a.kind = .file
    · rcases madeA.module isModule with rfl | ⟨name, rfl⟩ <;>
        rcases madeB.module (same ▸ isModule) with rfl | ⟨other, rfl⟩
      · rfl
      · rfl
      · rfl
      · by_cases equal : name = other
        · rw [equal]
        · rw [merge?_file, merge?_file]
          simp [file, namespaceOnly, equal, Ne.symm equal]
    · rw [merge?_of_kind madeA.known isModule, merge?_of_kind madeB.known (same ▸ isModule)]
      by_cases equal : a = b
      · rw [equal]
      · rw [if_neg equal, if_neg (Ne.symm equal)]
  · rw [merge?_of_kind_ne madeA.known (Ne.symm same), merge?_of_kind_ne madeB.known same]

/-- A claim that is neither open nor a module without a file stays as it is. -/
theorem eq_held_of_merge? {held further merged : Claim} (known : held.kind ≠ .unknown)
    (settled : held ≠ .namespaceOnly) (merges : held.merge? further = some merged) :
    merged = held := by
  rcases merge?_eq_some_iff.1 merges with ⟨isOpen, -⟩ | ⟨bare, -⟩ | ⟨-, same, -⟩
  · exact absurd isOpen known
  · exact absurd bare settled
  · exact same

/-- **Merging two registered claims commutes**, whatever is held. -/
theorem merge?_comm {a b : Claim} (madeA : a.Made) (madeB : b.Made) (held : Claim) :
    (held.merge? a).bind (·.merge? b) = (held.merge? b).bind (·.merge? a) := by
  by_cases isOpen : held.kind = .unknown
  · have takes (further : Claim) : held.merge? further = some further :=
      merge?_eq_some_iff.2 (.inl ⟨isOpen, rfl⟩)
    rw [takes, takes]
    exact merge?_symm madeA madeB
  by_cases bare : held = .namespaceOnly
  · rw [bare, merge?_namespaceOnly, merge?_namespaceOnly]
    by_cases isModuleA : a.kind = .file <;> by_cases isModuleB : b.kind = .file
    · rw [if_pos isModuleA, if_pos isModuleB]
      exact merge?_symm madeA madeB
    · rw [if_pos isModuleA, if_neg isModuleB]
      exact merge?_of_kind_ne madeA.known fun same => isModuleB (same.trans isModuleA)
    · rw [if_neg isModuleA, if_pos isModuleB]
      exact (merge?_of_kind_ne madeB.known fun same => isModuleA (same.trans isModuleB)).symm
    · rw [if_neg isModuleA, if_neg isModuleB]
      rfl
  · have settled {further merged : Claim} := @eq_held_of_merge? held further merged isOpen bare
    cases first : held.merge? a with
    | none =>
      cases second : held.merge? b with
      | none => rfl
      | some merged =>
        obtain rfl := settled second
        exact first.symm
    | some merged =>
      obtain rfl := settled first
      cases second : merged.merge? b with
      | none => exact second
      | some merged' =>
        obtain rfl := settled second
        exact second.trans first.symm

end Claim

/-! ## What registrations do path by path -/

namespace Registration

/-- A registration with its path below a module. -/
def below (module : Path) (r : Registration) : Registration :=
  ⟨module ++ r.path, r.claim⟩

/-- **What a registration makes of the claim at a path**, if it is compatible with it: it merges its
own claim into that at its own path, and opens the beginnings of its path. -/
def update? (path : Path) (held : Option Claim) (r : Registration) : Option (Option Claim) :=
  if r.path = path then ((held.getD .unclaimed).merge? r.claim).map some
  else if path <+: r.path then some (some (held.getD .unclaimed))
  else some held

theorem update?_here (path : Path) (claim : Claim) (held : Option Claim) :
    update? path held ⟨path, claim⟩ = ((held.getD .unclaimed).merge? claim).map some :=
  if_pos rfl

/-- A registration at another path keeps what is claimed. -/
theorem update?_elsewhere {path other : Path} (claim : Claim) (elsewhere : other ≠ path) :
    ∃ opens : Option Claim → Option Claim,
      (∀ held, update? path held ⟨other, claim⟩ = some (opens held)) ∧
      (∀ claim, opens (some claim) = some claim) ∧
      ∀ held, (opens held).getD .unclaimed = held.getD .unclaimed := by
  by_cases within : path <+: other
  · refine ⟨fun held => some (held.getD .unclaimed), fun held => ?_, fun _ => rfl, fun _ => rfl⟩
    rw [update?, if_neg elsewhere, if_pos within]
  · refine ⟨fun held => held, fun held => ?_, fun _ => rfl, fun _ => rfl⟩
    rw [update?, if_neg elsewhere, if_neg within]

/-- **Two registrations make the same of a path in either order.** -/
theorem update?_comm {a b : Registration} (madeA : a.claim.Made) (madeB : b.claim.Made)
    (path : Path) (held : Option Claim) :
    (update? path held a).bind (update? path · b) = (update? path held b).bind (update? path · a) := by
  obtain ⟨pathA, a⟩ := a
  obtain ⟨pathB, b⟩ := b
  by_cases atA : pathA = path <;> by_cases atB : pathB = path
  · subst atA atB
    have comm := congrArg (Option.map some)
      (Claim.merge?_comm madeA madeB (held.getD .unclaimed))
    rw [Option.map_bind, Option.map_bind] at comm
    simp only [update?_here, Option.bind_map]
    exact comm
  · subst atA
    obtain ⟨opens, run, keeps, same⟩ := update?_elsewhere b atB
    simp only [update?_here, run, Option.bind_some, same]
    cases (held.getD .unclaimed).merge? a <;> simp [keeps]
  · subst atB
    obtain ⟨opens, run, keeps, same⟩ := update?_elsewhere a atA
    simp only [update?_here, run, Option.bind_some, same]
    cases (held.getD .unclaimed).merge? b <;> simp [keeps]
  · unfold update?
    grind

/-- **Registrations make the same of a path in every order.** -/
theorem foldlM_update?_perm {rs rs' : List Registration} (perm : rs.Perm rs')
    (made : ∀ r ∈ rs, r.claim.Made) (path : Path) (held : Option Claim) :
    rs.foldlM (update? path) held = rs'.foldlM (update? path) held := by
  induction perm generalizing held with
  | nil => rfl
  | cons r _ ih =>
    rw [List.foldlM_cons, List.foldlM_cons]
    exact bind_congr fun held => ih (fun r mem => made r (List.mem_cons_of_mem _ mem)) held
  | swap a b rest =>
    have comm := update?_comm (made b List.mem_cons_self)
      (made a (List.mem_cons_of_mem _ List.mem_cons_self)) path held
    simp only [List.foldlM_cons, ← bind_assoc]
    exact congrArg (· >>= fun held => rest.foldlM (update? path) held) comm
  | trans first _ ih ihOn =>
    exact (ih made held).trans (ihOn (fun r mem => made r (first.mem_iff.2 mem)) held)

end Registration

/-! ## What registrations come to -/

namespace Tree

variable {t between grown : Tree} {rs rs' : List Registration}

/-- **Registrations lead from a tree to another** when they make the claims of the one those of the
other, path by path. -/
def Leads (t : Tree) (rs : List Registration) (grown : Tree) : Prop :=
  ∀ path, rs.foldlM (Registration.update? path) (t.claimAt? path) = some (grown.claimAt? path)

/-- Registrations conflict in a tree when one of them is not compatible with what is claimed at its
path by then. -/
def Conflict (t : Tree) (rs : List Registration) : Prop :=
  ∃ path, rs.foldlM (Registration.update? path) (t.claimAt? path) = none

/-- **What registrations come to**: they lead to a tree, or they conflict and are refused. -/
inductive Outcome {α : Type} (t : Tree) (rs : List Registration) :
    EStateM.Result Diagnostic Tree α → Prop
  | accepted {value : α} {grown : Tree} : grown.IsMap → t.Grows grown → t.Leads rs grown →
    Outcome t rs (.ok value grown)
  | refused {diagnostic : Diagnostic} {after : Tree} : t.Conflict rs →
    Outcome t rs (.error diagnostic after)

theorem Leads.append (first : t.Leads rs between) (second : between.Leads rs' grown) :
    t.Leads (rs ++ rs') grown := by
  intro path
  rw [List.foldlM_append, first path]
  exact second path

theorem Conflict.append (first : t.Conflict rs) (rs' : List Registration) :
    t.Conflict (rs ++ rs') := by
  obtain ⟨path, refused⟩ := first
  refine ⟨path, ?_⟩
  rw [List.foldlM_append, refused]
  rfl

theorem Leads.conflict (first : t.Leads rs between) (second : between.Conflict rs') :
    t.Conflict (rs ++ rs') := by
  obtain ⟨path, refused⟩ := second
  refine ⟨path, ?_⟩
  rw [List.foldlM_append, first path]
  exact refused

namespace Outcome

variable {α β : Type} {action : EStateM Diagnostic Tree α}

theorem pure (isMap : t.IsMap) (value : α) :
    Outcome t [] ((Pure.pure value : EStateM Diagnostic Tree α) t) :=
  .accepted isMap (grows_refl t) fun _ => rfl

/-- **Registrations behind others** come to what both come to. -/
theorem bind {next : α → EStateM Diagnostic Tree β} (first : Outcome t rs (action t))
    (second : ∀ value between, action t = .ok value between → between.IsMap → t.Grows between →
      Outcome between rs' (next value between)) :
    Outcome t (rs ++ rs') ((action >>= next) t) := by
  change Outcome t (rs ++ rs') (EStateM.bind action next t)
  unfold EStateM.bind
  generalize run : action t = result at first
  cases first with
  | @accepted value between isMap grows leads =>
    have later := second value between run isMap grows
    dsimp only
    generalize next value between = result at later
    cases later with
    | accepted isMapToo growsOn leadsOn =>
      exact .accepted isMapToo (grows.trans growsOn) (leads.append leadsOn)
    | refused conflict => exact .refused (leads.conflict conflict)
  | refused conflict => exact .refused (conflict.append rs')

/-- What is given behind registrations is of no importance. -/
theorem gives (outcome : Outcome t rs (action t)) (f : α → β) :
    Outcome t rs ((action >>= fun value => Pure.pure (f value)) t) := by
  have whole := outcome.bind fun value _ _ isMap _ => Outcome.pure isMap (f value)
  rwa [List.append_nil] at whole

theorem discard (outcome : Outcome t rs (action t)) :
    Outcome t rs (Functor.discard action t) := by
  change Outcome t rs (((fun _ => ()) <$> action : EStateM Diagnostic Tree Unit) t)
  rw [map_eq_pure_bind]
  exact outcome.gives fun _ => ()

end Outcome

/-- A claim that is put into a tree is one registration. -/
theorem Puts.leads {path : Path} {further merged : Claim} (puts : t.Puts path merged grown)
    (merges : ((t.claimAt? path).getD .unclaimed).merge? further = some merged) :
    t.Leads [⟨path, further⟩] grown := by
  intro other
  have single : [(⟨path, further⟩ : Registration)].foldlM (Registration.update? other)
      (t.claimAt? other) = Registration.update? other (t.claimAt? other) ⟨path, further⟩ :=
    bind_pure _
  rw [single]
  by_cases here : path = other
  · subst here
    rw [Registration.update?_here, merges, puts.here, Option.map_some]
  · unfold Registration.update?
    rw [if_neg here]
    split
    next within =>
      cases claimed : t.claimAt? other with
      | none =>
        rw [puts.above other within (Ne.symm here) claimed, Option.getD_none]
      | some claim =>
        rw [puts.elsewhere other (Ne.symm here) (.inl (by rw [claimed]; nofun)), claimed,
          Option.getD_some]
    next outside =>
      rw [puts.elsewhere other (Ne.symm here) (.inr outside)]

/-- **A declaration is one registration**, on the whole path. -/
theorem outcome_declare {base : Nat} {path : Path} {further : Claim} (isMap : t.IsMap)
    (inside : base < t.size) (made : further.Made) :
    Outcome t [⟨t.pathOf base ++ path, further⟩] (declare base path further t) := by
  cases claimed : t.claimAt? (t.pathOf base ++ path) with
  | none =>
    have run := declare_of_absent further claimed
    rw [run]
    refine .accepted (isMap.declare inside run) (grows_of_declare run made.known).1 ?_
    refine (puts_push (isMap.root_mem inside) claimed further).leads ?_
    rw [claimed]
    rfl
  | some held =>
    obtain ⟨id, -, run⟩ := declare_of_claimed further claimed
    cases merges : held.merge? further with
    | some merged =>
      rw [merges] at run
      dsimp only at run
      rw [run]
      refine .accepted (isMap.declare inside run) (grows_of_declare run made.known).1 ?_
      refine (puts_claim isMap claimed merged).leads ?_
      rwa [claimed]
    | none =>
      rw [merges] at run
      dsimp only at run
      rw [run]
      refine .refused ⟨t.pathOf base ++ path, ?_⟩
      rw [List.foldlM_cons, Registration.update?_here, claimed, Option.getD_some, merges]
      rfl

/-- **Declarations one after another** are registrations below a node. -/
theorem outcome_declareAll {base : Nat} {claims : List Registration} (isMap : t.IsMap)
    (inside : base < t.size) (made : ∀ r ∈ claims, r.claim.Made) :
    Outcome t (claims.map (.below (t.pathOf base))) (declareAll base claims t) := by
  induction claims generalizing t with
  | nil => exact .pure isMap ()
  | cons first rest ih =>
    have declares : Outcome t [first.below (t.pathOf base)]
        (declare base first.path first.claim t) :=
      outcome_declare isMap inside (made first List.mem_cons_self)
    refine declares.discard.bind fun _ between _ isMapToo grows => ?_
    rw [← grows.pathOf_eq inside]
    exact ih isMapToo (Nat.lt_of_lt_of_le inside grows.size_le)
      fun r mem => made r (List.mem_cons_of_mem _ mem)

end Tree

/-- **The registrations of a file at a module**, on whole paths. -/
def File.registrations (module : Path) (file : File) : List Registration :=
  Registration.ofModule module file.file ++ file.claims.map (.below module)

theorem File.registrations_made {module : Path} {file : File} {r : Registration}
    (mem : r ∈ file.registrations module) : r.claim.Made := by
  rcases List.mem_append.1 mem with mem | mem
  · exact Registration.ofModule_made mem
  · obtain ⟨claimed, inFile, rfl⟩ := List.mem_map.1 mem
    have made : claimed.claim.Made := File.claims_made inFile
    exact made

namespace Tree

variable {t : Tree}

theorem map_below_root (claims : List Registration) : claims.map (.below []) = claims :=
  List.map_id' claims

/-- Declarations at the root are registrations as they stand. -/
theorem outcome_declareAll_root {claims : List Registration} (isMap : t.IsMap)
    (hasRoot : t.HasRoot) (made : ∀ r ∈ claims, r.claim.Made) :
    Outcome t claims (declareAll root claims t) := by
  have outcome := outcome_declareAll isMap (lt_size_of_find? hasRoot) made
  rwa [pathOf_of_find? hasRoot, map_below_root] at outcome

/-- **Registering a file** comes to what its registrations come to. -/
theorem outcome_register {module : Path} {file : File} (isMap : t.IsMap) (hasRoot : t.HasRoot) :
    Outcome t (file.registrations module) (register module file t) := by
  refine (outcome_declareAll_root isMap hasRoot fun r mem =>
    Registration.ofModule_made mem).bind fun _ opened run isMapToo grows => ?_
  obtain ⟨-, node, found⟩ := find?_of_declareAll_ofModule run hasRoot
  rw [get_bind, found, Option.getD_some]
  have inFile := outcome_declareAll isMapToo (lt_size_of_find? found)
    fun r (mem : r ∈ file.claims) => File.claims_made mem
  rw [pathOf_of_find? found] at inFile
  exact inFile.gives fun _ => node

end Tree

namespace Compilation

open FrontEnd.Tree

variable {t : Tree}

/-- **The registrations of files at their modules and of what is built in**, on whole paths. -/
def registrations (config : Config) (files : List (Path × File)) : List Registration :=
  files.flatMap (fun f => f.2.registrations f.1) ++ Registration.ofConfig config

theorem outcome_registerUnits (files : List (Path × File)) (isMap : t.IsMap)
    (hasRoot : t.HasRoot) :
    Outcome t (files.flatMap fun f => f.2.registrations f.1) (registerUnits files t) := by
  induction files generalizing t with
  | nil => exact .pure isMap []
  | cons first rest ih =>
    obtain ⟨module, file⟩ := first
    rw [List.flatMap_cons]
    refine (outcome_register isMap hasRoot).bind fun node between _ isMapToo grows => ?_
    rw [get_bind]
    exact (ih isMapToo (grows.hasRoot hasRoot)).gives fun placed => _ :: placed

/-- **Registering files and what is built in** comes to what the registrations come to. -/
theorem outcome_registerAll (config : Config) (files : List (Path × File)) :
    Outcome .empty (registrations config files) (registerAll config files .empty) := by
  refine (outcome_registerUnits _ isMap_empty hasRoot_empty).bind fun placed between _ isMap grows => ?_
  have builtIn := outcome_declareAll_root isMap (grows.hasRoot hasRoot_empty)
    fun r (mem : r ∈ Registration.ofConfig config) => Registration.ofConfig_made mem
  exact builtIn.gives fun _ => placed

theorem registrations_made {config : Config} {files : List (Path × File)} {r : Registration}
    (mem : r ∈ registrations config files) : r.claim.Made := by
  rcases List.mem_append.1 mem with mem | mem
  · obtain ⟨f, -, mem⟩ := List.mem_flatMap.1 mem
    exact File.registrations_made mem
  · exact Registration.ofConfig_made mem

end Compilation

/-! ## The order of registrations -/

namespace Tree

variable {t other : Tree}

/-- In a map the nodes are the claimed paths with their claims. -/
theorem IsMap.mem_nodes_iff (isMap : t.IsMap) {node : Node} :
    node ∈ t.nodes ↔ t.claimAt? node.path = some node.claim := by
  rw [isMap.claimAt?_eq_some_iff, List.mem_iff_getElem?]
  constructor
  · rintro ⟨id, found⟩
    refine ⟨id, node, found, ?_, rfl⟩
    rw [pathOf, node?, found, Option.elim_some]
  · rintro ⟨id, stands, found, samePath, sameClaim⟩
    rw [pathOf, found, Option.elim_some] at samePath
    refine ⟨id, ?_⟩
    rw [← node?, found, Option.some.injEq]
    cases stands
    cases node
    simp_all

/-- Maps in which the same is claimed have the same nodes. -/
theorem IsMap.nodes_perm (isMap : t.IsMap) (otherIsMap : other.IsMap)
    (same : ∀ path, t.claimAt? path = other.claimAt? path) : t.nodes.Perm other.nodes := by
  rw [List.perm_ext_iff_of_nodup isMap.distinct.of_map otherIsMap.distinct.of_map]
  intro node
  rw [isMap.mem_nodes_iff, otherIsMap.mem_nodes_iff, same]

end Tree

namespace Compilation

/-- **The order of registrations is of no importance**: files whose registrations are those of
others in another order are registered too when the others are, with the same nodes. -/
theorem registerAll_perm {config : Config} {files files' : List (Path × File)}
    (perm : (registrations config files).Perm (registrations config files'))
    {placed : List Placed} {t : Tree} (run : registerAll config files .empty = .ok placed t) :
    ∃ placed' t', registerAll config files' .empty = .ok placed' t' ∧
      (∀ path, t.claimAt? path = t'.claimAt? path) ∧ t.nodes.Perm t'.nodes := by
  have made (r : Registration) (mem : r ∈ registrations config files) : r.claim.Made :=
    registrations_made mem
  have outcome := outcome_registerAll config files
  rw [run] at outcome
  cases outcome with
  | accepted isMap _ leads =>
    have outcome' := outcome_registerAll config files'
    generalize run' : registerAll config files' .empty = result at outcome'
    cases outcome' with
    | @accepted placed' t' isMap' _ leads' =>
      have same (path : Path) : t.claimAt? path = t'.claimAt? path := by
        have here := leads path
        rw [Registration.foldlM_update?_perm perm made, leads' path] at here
        exact (Option.some.inj here).symm
      exact ⟨placed', t', rfl, same, isMap.nodes_perm isMap' same⟩
    | refused conflict =>
      obtain ⟨path, refused⟩ := conflict
      have here := leads path
      rw [Registration.foldlM_update?_perm perm made, refused] at here
      cases here

end Compilation

end FrontEnd

import FrontEnd.Proofs.Symbol.Reordering
import FrontEnd.Symbol.Resolution

/-!
# Registering and resolving again

A session registers files at their modules and then what is built in, and resolves the types of each
file at its module. Run again on the tree that it left, it finds every claim that it makes already
standing: a claim that was merged is merged without effect from then on
(`Registration.update?_again`), whatever is registered between the two, for the order of
registrations is of no importance. So no claim changes, and a tree that grows without a change of its
claims does not grow at all.

**The law** (`Tree.session_again`): a session that succeeds succeeds again on its own tree, which
stays as it is, node for node; it gives the same modules and resolves the same. A file that is
resolved alone is a session of one file at the root (`resolveSymbols_eq`).
-/

namespace FrontEnd

/-! ## Claims that are made again -/

namespace Claim

/-- **A claim that was merged** is merged again without effect. -/
theorem merge?_again {held further merged : Claim} (merges : held.merge? further = some merged) :
    merged.merge? further = some merged := by
  rcases merge?_eq_some_iff.1 merges with ⟨-, rfl⟩ | ⟨-, -, rfl⟩ | ⟨-, rfl, -⟩
  · exact refines_refl merged
  · exact refines_refl merged
  · exact merges

end Claim

namespace Registration

variable {path : Path} {held next : Option Claim}

/-- **A registration that was accepted** is accepted again and changes nothing. -/
theorem update?_again {r : Registration} (accepted : update? path held r = some next) :
    update? path next r = some next := by
  obtain ⟨at_r, further⟩ := r
  by_cases elsewhere : at_r = path
  · subst elsewhere
    rw [update?_here] at accepted ⊢
    obtain ⟨merged, merges, rfl⟩ := Option.map_eq_some_iff.1 accepted
    rw [Option.getD_some, Claim.merge?_again merges, Option.map_some]
  · unfold update? at accepted ⊢
    grind

/-- What changes nothing still changes nothing behind another registration. -/
theorem update?_settled {r s : Registration} (madeR : r.claim.Made) (madeS : s.claim.Made)
    (settled : update? path held r = some held) (accepted : update? path held s = some next) :
    update? path next r = some next := by
  have comm := update?_comm madeR madeS path held
  rw [settled, accepted, Option.bind_some, Option.bind_some, accepted] at comm
  exact comm.symm

/-- What changes nothing still changes nothing behind any number of registrations. -/
theorem foldlM_update?_settled {r : Registration} {rs : List Registration} (madeR : r.claim.Made)
    (made : ∀ s ∈ rs, s.claim.Made) (settled : update? path held r = some held)
    (accepted : rs.foldlM (update? path) held = some next) : update? path next r = some next := by
  induction rs generalizing held with
  | nil =>
    obtain rfl := Option.some.inj accepted
    exact settled
  | cons first rest ih =>
    rw [List.foldlM_cons] at accepted
    obtain ⟨between, firstRun, restRun⟩ := Option.bind_eq_some_iff.1 accepted
    apply ih (fun s mem => made s (List.mem_cons_of_mem _ mem)) _ restRun
    exact update?_settled madeR (made first List.mem_cons_self) settled firstRun

/-- **Registrations that were accepted** each change nothing from then on. -/
theorem update?_of_foldlM {rs : List Registration} (made : ∀ r ∈ rs, r.claim.Made)
    (accepted : rs.foldlM (update? path) held = some next) :
    ∀ r ∈ rs, update? path next r = some next := by
  induction rs generalizing held with
  | nil =>
    intro r mem
    cases mem
  | cons first rest ih =>
    rw [List.foldlM_cons] at accepted
    obtain ⟨between, firstRun, restRun⟩ := Option.bind_eq_some_iff.1 accepted
    have madeRest : ∀ r ∈ rest, r.claim.Made := fun r mem => made r (List.mem_cons_of_mem _ mem)
    intro r mem
    rcases List.mem_cons.1 mem with rfl | mem
    · exact foldlM_update?_settled (made r List.mem_cons_self) madeRest (update?_again firstRun)
        restRun
    · exact ih madeRest restRun r mem

/-- Registrations of which none changes anything change nothing together. -/
theorem foldlM_update?_fixed {rs : List Registration}
    (settled : ∀ r ∈ rs, update? path held r = some held) :
    rs.foldlM (update? path) held = some held := by
  induction rs with
  | nil => rfl
  | cons first rest ih =>
    rw [List.foldlM_cons, settled first List.mem_cons_self]
    exact ih fun r mem => settled r (List.mem_cons_of_mem _ mem)

end Registration

namespace Tree

variable {t grown : Tree} {rs : List Registration}

/-- **Registrations that lead to a tree** lead from that tree to itself. -/
theorem Leads.again (leads : t.Leads rs grown) (made : ∀ r ∈ rs, r.claim.Made) :
    grown.Leads rs grown := by
  intro path
  exact Registration.foldlM_update?_fixed (Registration.update?_of_foldlM made (leads path))

/-! ## Trees that do not grow -/

/-- In a map the nodes are the paths with what is claimed at them. -/
theorem IsMap.nodes_eq (isMap : t.IsMap) :
    t.nodes = t.paths.map fun path => ⟨path, (t.claimAt? path).getD .unclaimed⟩ := by
  rw [Tree.paths, List.map_map]
  refine (List.map_id t.nodes).symm.trans (List.map_congr_left fun node mem => ?_)
  rw [Function.comp_apply, isMap.mem_nodes_iff.1 mem, Option.getD_some, id]

/-- **A tree that grows without a change of its claims** stays as it is, node for node. -/
theorem Grows.eq_of_claims (grows : t.Grows grown) (isMap : t.IsMap) (isMapToo : grown.IsMap)
    (same : ∀ path, t.claimAt? path = grown.claimAt? path) : grown = t := by
  have paths : grown.paths = t.paths := by
    obtain ⟨added, further⟩ := grows.paths
    have distinct := isMapToo.distinct
    rw [← further, List.nodup_append] at distinct
    have none : added = [] := by
      apply List.eq_nil_iff_forall_not_mem.2
      intro path mem
      have stands : path ∈ grown.paths := further ▸ List.mem_append_right _ mem
      obtain ⟨claim, claimed⟩ := mem_paths_iff.1 stands
      rw [← same] at claimed
      exact distinct.2.2 path (mem_paths_iff.2 ⟨claim, claimed⟩) path mem rfl
    rw [← further, none, List.append_nil]
  have nodes : grown.nodes = t.nodes := by
    rw [isMapToo.nodes_eq, isMap.nodes_eq, paths]
    simp only [same]
  cases t
  cases grown
  exact congrArg Tree.mk nodes

/-- The root stands in front in every tree that declarations have built. -/
theorem Built.hasRoot (built : t.Built) : t.HasRoot := by
  induction built with
  | empty => exact hasRoot_empty
  | @accepted t grown base id path further _ _ run ih =>
    have kept : t.paths <+: grown.paths := by
      rcases declare_eq_ok run with ⟨held, merged, -, -, -, rfl⟩ | ⟨-, rfl⟩
      · simp only [paths_claim, List.prefix_rfl]
      · rw [paths_push]
        exact (paths_reserveAll t _).trans (List.prefix_append ..)
    obtain ⟨added, further⟩ := kept
    rw [HasRoot, find?_eq] at ih ⊢
    rw [← further, List.findIdx?_append, ih, Option.some_or]
  | refused _ _ run ih =>
    rw [declare_error run]
    exact ih

/-! ## Sessions -/

/-- Registers files at their modules and gives the nodes of the modules. -/
def registerEach : List (Path × File) → EStateM Diagnostic Tree (List Nat)
  | [] => pure []
  | (modulePath, file) :: rest => do
    let module ← register modulePath file
    let modules ← registerEach rest
    return module :: modules

/-- Registers files at their modules and then what is built in, and gives the nodes of the modules. -/
def registerFiles (config : Config) (files : List (Path × File)) :
    EStateM Diagnostic Tree (List Nat) := do
  let modules ← registerEach files
  registerBuiltins config
  return modules

/-- Resolves the types of each file at the node of its module. -/
def resolveEach (t : Tree) (placed : List (Nat × File)) : Resolve Unit :=
  placed.forM fun (module, file) => t.resolve (t.pathOf module) file

/-- **A session**: files are registered at their modules, then what is built in, and then the types
of each file are resolved at the node of its module. It gives these nodes and what is resolved. -/
def session (config : Config) (files : List (Path × File)) :
    EStateM Diagnostic Tree (List Nat × Resolutions) := do
  let modules ← registerFiles config files
  let t ← get
  match (t.resolveEach (modules.zip (files.map Prod.snd))).run .empty with
  | .ok _ resolutions => return (modules, resolutions)
  | .error diagnostic _ => throw diagnostic

/-- **Registering files** lets the tree grow, and gives the numbers that the paths of the modules
have from then on. -/
theorem grows_of_registerEach {files : List (Path × File)} {modules : List Nat}
    (h : registerEach files t = .ok modules grown) (hasRoot : t.HasRoot) :
    t.Grows grown ∧ ∀ later, grown.Grows later →
      modules = files.map fun f => (later.find? f.1).getD root := by
  induction files generalizing t modules with
  | nil =>
    obtain ⟨rfl, rfl⟩ := pure_eq_ok.1 h
    exact ⟨grows_refl t, fun _ _ => rfl⟩
  | cons first rest ih =>
    obtain ⟨modulePath, file⟩ := first
    unfold registerEach at h
    obtain ⟨module, between, firstRun, h⟩ := bind_eq_ok.1 h
    obtain ⟨others, final, restRun, h⟩ := bind_eq_ok.1 h
    obtain ⟨rfl, rfl⟩ := pure_eq_ok.1 h
    obtain ⟨grows, found, -⟩ := grows_of_register firstRun hasRoot
    obtain ⟨growsOn, numbers⟩ := ih restRun (grows.hasRoot hasRoot)
    refine ⟨grows.trans growsOn, ?_⟩
    intro later growsLater
    have stands : later.find? modulePath = some module := (growsOn.trans growsLater).find?_eq found
    rw [List.map_cons, stands, Option.getD_some, ← numbers later growsLater]

/-- What registering files gives can be read off the tree that it leaves. -/
theorem modules_of_registerFiles {config : Config} {files : List (Path × File)}
    {modules : List Nat} (h : registerFiles config files t = .ok modules grown)
    (hasRoot : t.HasRoot) : modules = files.map fun f => (grown.find? f.1).getD root := by
  unfold registerFiles at h
  obtain ⟨modules', between, filesRun, h⟩ := bind_eq_ok.1 h
  obtain ⟨⟨⟩, final, builtinsRun, h⟩ := bind_eq_ok.1 h
  obtain ⟨rfl, rfl⟩ := pure_eq_ok.1 h
  obtain ⟨grows, numbers⟩ := grows_of_registerEach filesRun hasRoot
  apply numbers
  have inside := lt_size_of_find? (grows.hasRoot hasRoot)
  exact (grows_of_declareAll builtinsRun inside fun _ mem => Registration.ofConfig_made mem).1

theorem outcome_registerEach {files : List (Path × File)} (isMap : t.IsMap) (hasRoot : t.HasRoot) :
    Outcome t (files.flatMap fun f => f.2.registrations f.1) (registerEach files t) := by
  induction files generalizing t with
  | nil => exact .pure isMap []
  | cons first rest ih =>
    obtain ⟨modulePath, file⟩ := first
    rw [List.flatMap_cons]
    apply (outcome_register isMap hasRoot).bind
    intro module between _ isMapToo grows
    exact (ih isMapToo (grows.hasRoot hasRoot)).gives (module :: ·)

/-- **Registering files and what is built in** comes to what the registrations come to. -/
theorem outcome_registerFiles {config : Config} {files : List (Path × File)} (isMap : t.IsMap)
    (hasRoot : t.HasRoot) :
    Outcome t (Compilation.registrations config files) (registerFiles config files t) := by
  apply (outcome_registerEach isMap hasRoot).bind
  intro modules between _ isMapToo grows
  have builtIn := outcome_declareAll_root isMapToo (grows.hasRoot hasRoot)
    fun r (mem : r ∈ Registration.ofConfig config) => Registration.ofConfig_made mem
  exact builtIn.gives fun _ => modules

/-- **What is registered can be registered again**: the tree stays as it is, and the modules are the
same. -/
theorem registerFiles_again {config : Config} {files : List (Path × File)} {modules : List Nat}
    (isMap : t.IsMap) (hasRoot : t.HasRoot) (run : registerFiles config files t = .ok modules grown) :
    registerFiles config files grown = .ok modules grown := by
  have outcome : Outcome t (Compilation.registrations config files) (registerFiles config files t) :=
    outcome_registerFiles isMap hasRoot
  rw [run] at outcome
  cases outcome with
  | accepted isMapToo grows leads =>
    have hasRootToo := grows.hasRoot hasRoot
    have again := leads.again fun r mem => Compilation.registrations_made mem
    have outcome : Outcome grown (Compilation.registrations config files)
        (registerFiles config files grown) := outcome_registerFiles isMapToo hasRootToo
    generalize second : registerFiles config files grown = result at outcome
    cases outcome with
    | @accepted modules' grown' isMap' grows' leads' =>
      have same (path : Path) : grown.claimAt? path = grown'.claimAt? path := by
        have here := again path
        rw [leads' path] at here
        exact (Option.some.inj here).symm
      obtain rfl := grows'.eq_of_claims isMapToo isMap' same
      rw [modules_of_registerFiles run hasRoot, modules_of_registerFiles second hasRootToo]
    | refused conflict =>
      obtain ⟨path, refused⟩ := conflict
      rw [again path] at refused
      cases refused

/-- A session that succeeds, taken apart. -/
theorem session_eq_ok {config : Config} {files : List (Path × File)} {modules : List Nat}
    {r : Resolutions} :
    session config files t = .ok (modules, r) grown ↔
      registerFiles config files t = .ok modules grown ∧
        grown.resolveEach (modules.zip (files.map Prod.snd)) .empty = .ok () r := by
  unfold session
  rw [bind_eq_ok]
  constructor
  · rintro ⟨modules', between, registers, h⟩
    rw [get_bind] at h
    cases resolves : (between.resolveEach (modules'.zip (files.map Prod.snd))).run .empty with
    | ok value resolutions =>
      rw [resolves] at h
      obtain ⟨same, rfl⟩ := pure_eq_ok.1 h
      cases same
      exact ⟨registers, resolves⟩
    | error diagnostic _ =>
      rw [resolves] at h
      exact absurd h throw_ne_ok
  · rintro ⟨registers, resolves⟩
    refine ⟨modules, grown, registers, ?_⟩
    have run : (grown.resolveEach (modules.zip (files.map Prod.snd))).run .empty = .ok () r :=
      resolves
    rw [get_bind, run]
    rfl

end Tree

/-- **A file that is resolved alone** is a session of this file at the root. -/
theorem resolveSymbols_eq (file : File) :
    resolveSymbols file = Prod.snd <$> Tree.session .standard [([], file)] := by
  have one (t : Tree) (module : Nat) :
      t.resolveEach [(module, file)] = t.resolve (t.pathOf module) file := by
    simp only [Tree.resolveEach, List.forM_eq_forM, List.forM_cons, List.forM_nil, bind_pure_unit]
  simp only [resolveSymbols, Tree.session, Tree.registerFiles, Tree.registerEach, bind_assoc,
    pure_bind, map_bind, List.map_cons, List.map_nil, List.zip_cons_cons, List.zip_nil_right, one]
  refine bind_congr fun module => bind_congr fun _ => bind_congr fun t => ?_
  cases (t.resolve (t.pathOf module) file).run .empty <;> rfl

namespace Tree

/-- **A session again**: a session that succeeds on a tree that declarations have built succeeds
again on the tree that it left, which stays as it is, and gives the same modules and resolves the
same. So does a file that is resolved alone. -/
theorem session_again {t : Tree} (built : t.Built) :
    (∀ config files modules r grown, session config files t = .ok (modules, r) grown →
      session config files grown = .ok (modules, r) grown) ∧
    ∀ file r grown, resolveSymbols file t = .ok r grown → resolveSymbols file grown = .ok r grown := by
  have again {config : Config} {files : List (Path × File)} {modules : List Nat} {r : Resolutions}
      {grown : Tree} (run : session config files t = .ok (modules, r) grown) :
      session config files grown = .ok (modules, r) grown := by
    obtain ⟨registers, resolves⟩ := session_eq_ok.1 run
    exact session_eq_ok.2 ⟨registerFiles_again built.isMap built.hasRoot registers, resolves⟩
  constructor
  · intro config files modules r grown run
    exact again run
  · intro file r grown run
    rw [resolveSymbols_eq] at run ⊢
    rw [map_eq_pure_bind, bind_eq_ok] at run ⊢
    obtain ⟨⟨modules, resolutions⟩, between, runs, gives⟩ := run
    obtain ⟨rfl, rfl⟩ := pure_eq_ok.1 gives
    exact ⟨_, _, again runs, rfl⟩

/-- A file that gives another name to a structure that stands in its module. -/
def boxOfInt : File where
  file := "m.tx"
  imports := []
  declarations := [.synonym ⟨"Same", ⟨[⟨0, "Box", [.single 1 "int" default], default⟩], default⟩,
    default⟩]
  exports := []

/-- A module that no source claims becomes a module without a file, and then one with a file; a
further session finds it as it is. -/
theorem session_again_boxOfInt :
    nestedBox.Built ∧ ∃ r grown,
      session ⟨["int"], [], "m.tx"⟩ [(["m", "deep"], ⟨"deep.tx", [], [], []⟩), (["m"], boxOfInt)]
          nestedBox = .ok ([3, 1], r) grown ∧
        session ⟨["int"], [], "m.tx"⟩ [(["m", "deep"], ⟨"deep.tx", [], [], []⟩), (["m"], boxOfInt)]
          grown = .ok ([3, 1], r) grown := by
  have built : nestedBox.Built :=
    @Built.accepted empty nestedBox 0 2 ["m", "Box"] _ .empty (by decide) rfl
  exact ⟨built, _, _, rfl, (session_again built).1 _ _ _ _ _ rfl⟩

end Tree

end FrontEnd

import FrontEnd.Proofs.Symbol.Reordering

/-!
# What a path holds in the end

After registrations that lead from a tree to another a path holds a claim that one of them made
there, or that was held before (`Tree.Leads.source`). A claim that says something is never given up:
its path holds a claim of its kind from then on, and the claim itself unless it is that of a module,
which a file may still name (`Tree.Leads.holds`).

So two declarations that register at one path make the same claim, and a path holds a module exactly
when a unit has its module there or below.
-/

namespace FrontEnd

/-- **A claim stands for another** when it is of its kind, and is the claim itself unless that is the
claim of a module. -/
def Claim.StandsFor (held claim : Claim) : Prop :=
  held.kind = claim.kind ∧ (claim.kind ≠ .file → held = claim)

namespace Registration

variable {path : Path} {held next : Option Claim} {claim : Claim} {r : Registration}

/-- A registration that is accepted leaves a claim at its path that refines its own. -/
theorem refines_of_update? (accepted : update? path held ⟨path, claim⟩ = some next) :
    ∃ merged, next = some merged ∧ merged.Refines claim := by
  rw [update?_here] at accepted
  obtain ⟨merged, merges, rfl⟩ := Option.map_eq_some_iff.1 accepted
  exact ⟨merged, rfl, Claim.refines_further_of_merge? merges⟩

/-- A known claim that a path holds after a registration was held before or is that of the
registration. -/
theorem source_of_update? (known : claim.kind ≠ .unknown)
    (accepted : update? path held r = some (some claim)) : held = some claim ∨ r = ⟨path, claim⟩ := by
  have held_of (same : held.getD .unclaimed = claim) : held = some claim := by
    cases held with
    | none => exact absurd (congrArg Claim.kind same).symm known
    | some here => exact congrArg some same
  obtain ⟨at_r, further⟩ := r
  by_cases elsewhere : at_r = path
  · subst elsewhere
    rw [update?_here] at accepted
    obtain ⟨merged, merges, same⟩ := Option.map_eq_some_iff.1 accepted
    obtain rfl := Option.some.inj same
    rcases Claim.merge?_eq_some_iff.1 merges with ⟨-, rfl⟩ | ⟨-, -, rfl⟩ | ⟨-, same, -⟩
    · exact .inr rfl
    · exact .inr rfl
    · exact .inl (held_of same.symm)
  · obtain ⟨opens, run, -, same⟩ := update?_elsewhere further elsewhere
    rw [run, Option.some.injEq] at accepted
    refine .inl (held_of ?_)
    rw [← same held, accepted, Option.getD_some]

end Registration

namespace Claim.Refines

variable {path : Path} {next : Option Claim} {here claim : Claim} {r : Registration}

/-- **What refines a claim still does after a further registration.** -/
theorem update? (refines : here.Refines claim)
    (accepted : Registration.update? path (some here) r = some next) :
    ∃ merged, next = some merged ∧ merged.Refines claim := by
  obtain ⟨at_r, further⟩ := r
  by_cases elsewhere : at_r = path
  · subst elsewhere
    rw [Registration.update?_here] at accepted
    obtain ⟨merged, merges, rfl⟩ := Option.map_eq_some_iff.1 accepted
    exact ⟨merged, rfl, (refines_of_merge? merges).trans refines⟩
  · obtain ⟨opens, run, keeps, -⟩ := Registration.update?_elsewhere further elsewhere
    rw [run, keeps] at accepted
    exact ⟨here, (Option.some.inj accepted).symm, refines⟩

/-- What refines a claim still does after any number of registrations. -/
theorem foldlM {rs : List Registration} (refines : here.Refines claim)
    (accepted : rs.foldlM (Registration.update? path) (some here) = some next) :
    ∃ merged, next = some merged ∧ merged.Refines claim := by
  induction rs generalizing here with
  | nil => exact ⟨here, (Option.some.inj accepted).symm, refines⟩
  | cons first rest ih =>
    rw [List.foldlM_cons] at accepted
    obtain ⟨between, firstRun, restRun⟩ := Option.bind_eq_some_iff.1 accepted
    obtain ⟨merged, rfl, refinesToo⟩ := refines.update? firstRun
    exact ih refinesToo restRun

/-- A claim that refines another which says something stands for it. -/
theorem standsFor (refines : here.Refines claim) (known : claim.kind ≠ .unknown) :
    here.StandsFor claim := by
  refine ⟨refines.kind_eq known, fun notModule => ?_⟩
  rcases refines_iff.1 refines with isOpen | ⟨rfl, -⟩ | same
  · exact absurd isOpen known
  · exact absurd rfl notModule
  · exact same

/-- A module that is a file stays this file. -/
theorem eq_file {name : String} (refines : here.Refines (.file name)) : here = .file name := by
  rcases refines_iff.1 refines with isOpen | ⟨bare, -⟩ | same
  · cases isOpen
  · cases bare
  · exact same

end Claim.Refines

namespace Registration

/-- **A module is registered** at its own path as its file, and at the beginnings of it as a module
without one. -/
theorem mem_ofModule_iff {module path : Path} {file : String} {claim : Claim} :
    ⟨path, claim⟩ ∈ ofModule module file ↔
      path <+: module ∧ path ≠ [] ∧
        claim = if path = module then .file file else .namespaceOnly := by
  rw [ofModule]
  by_cases atRoot : module = []
  · subst atRoot
    rw [if_pos List.isEmpty_nil]
    refine iff_of_false List.not_mem_nil ?_
    rintro ⟨within, below, -⟩
    exact below (List.prefix_nil.1 within)
  rw [if_neg (by simpa using atRoot), List.mem_append, List.mem_singleton]
  constructor
  · rintro (outer | itself)
    · obtain ⟨outer, between, same⟩ := List.mem_map.1 outer
      cases same
      obtain ⟨within, below, other⟩ := Path.mem_between_iff.1 between
      exact ⟨within, below, (if_neg other).symm⟩
    · cases itself
      exact ⟨List.prefix_rfl, atRoot, (if_pos rfl).symm⟩
  · rintro ⟨within, below, rfl⟩
    by_cases whole : path = module
    · rw [if_pos whole, whole]
      exact .inr rfl
    · rw [if_neg whole]
      have between := Path.mem_between_iff.2 ⟨within, below, whole⟩
      exact .inl (List.mem_map_of_mem between)

theorem exists_ofModule {module path : Path} (file : String) (within : path <+: module)
    (below : path ≠ []) : ∃ claim, ⟨path, claim⟩ ∈ ofModule module file ∧ claim.kind = .file := by
  refine ⟨_, mem_ofModule_iff.2 ⟨within, below, rfl⟩, ?_⟩
  split <;> rfl

/-- Registrations that a path does not lead to leave what it holds. -/
theorem foldlM_update?_outside {path : Path} {rs : List Registration}
    (outside : ∀ r ∈ rs, ¬ path <+: r.path) (held : Option Claim) :
    rs.foldlM (update? path) held = some held := by
  induction rs with
  | nil => rfl
  | cons first rest ih =>
    have apart := outside first List.mem_cons_self
    have elsewhere : first.path ≠ path := fun same => apart (same ▸ List.prefix_rfl)
    rw [List.foldlM_cons, update?, if_neg elsewhere, if_neg apart]
    exact ih fun r mem => outside r (List.mem_cons_of_mem _ mem)

end Registration

namespace Tree.Leads

variable {t grown : Tree} {rs : List Registration}

/-- **What is registered at a path is refined there in the end.** -/
theorem refines (leads : t.Leads rs grown) {r : Registration} (mem : r ∈ rs) :
    ∃ held, grown.claimAt? r.path = some held ∧ held.Refines r.claim := by
  obtain ⟨before, after, rfl⟩ := List.append_of_mem mem
  have run := leads r.path
  rw [List.foldlM_append] at run
  obtain ⟨reached, -, run⟩ := Option.bind_eq_some_iff.1 run
  rw [List.foldlM_cons] at run
  obtain ⟨next, here, run⟩ := Option.bind_eq_some_iff.1 run
  obtain ⟨merged, rfl, refines⟩ := Registration.refines_of_update? here
  exact refines.foldlM run

/-- **What is registered at a path stands there in the end.** -/
theorem holds (leads : t.Leads rs grown) {r : Registration} (mem : r ∈ rs)
    (known : r.claim.kind ≠ .unknown) :
    ∃ held, grown.claimAt? r.path = some held ∧ held.StandsFor r.claim := by
  obtain ⟨held, claimed, refines⟩ := leads.refines mem
  exact ⟨held, claimed, refines.standsFor known⟩

/-- **What a path holds in the end** was held before or is registered there. -/
theorem source (leads : t.Leads rs grown) {path : Path} {claim : Claim}
    (claimed : grown.claimAt? path = some claim) (known : claim.kind ≠ .unknown) :
    t.claimAt? path = some claim ∨ ⟨path, claim⟩ ∈ rs := by
  have run := leads path
  rw [claimed] at run
  generalize t.claimAt? path = held at run ⊢
  clear claimed leads
  induction rs generalizing held with
  | nil => exact .inl (Option.some.inj run)
  | cons first rest ih =>
    rw [List.foldlM_cons] at run
    obtain ⟨between, firstRun, restRun⟩ := Option.bind_eq_some_iff.1 run
    rcases ih between restRun with rfl | later
    · rcases Registration.source_of_update? known firstRun with before | rfl
      · exact .inl before
      · exact .inr List.mem_cons_self
    · exact .inr (List.mem_cons_of_mem _ later)

/-- **Registrations at one path make the same claim**, unless it is that of a module. -/
theorem claim_eq (leads : t.Leads rs grown) {r s : Registration} (mem : r ∈ rs) (memToo : s ∈ rs)
    (known : r.claim.kind ≠ .unknown) (knownToo : s.claim.kind ≠ .unknown)
    (notModule : r.claim.kind ≠ .file) (here : r.path = s.path) : r.claim = s.claim := by
  obtain ⟨held, claimed, -, same⟩ := leads.holds mem known
  obtain ⟨heldToo, claimedToo, kind, sameToo⟩ := leads.holds memToo knownToo
  obtain rfl := same notModule
  rw [here, claimedToo] at claimed
  obtain rfl := Option.some.inj claimed
  exact sameToo fun isModule => notModule (kind.trans isModule)

end Tree.Leads

namespace Compilation

variable {config : Config} {files : List (Path × File)} {placed : List Placed} {t : Tree}

/-- Files that are registered lead from the root alone to their tree. -/
theorem leads_of_registerAll (run : registerAll config files .empty = .ok placed t) :
    Tree.empty.Leads (registrations config files) t := by
  have outcome := outcome_registerAll config files
  rw [run] at outcome
  cases outcome with
  | accepted _ _ leads => exact leads

/-- The root holds what it held. -/
theorem claimAt?_root (run : registerAll config files .empty = .ok placed t) :
    t.claimAt? [] = some ⟨.builtin, .empty⟩ := by
  have itself := Claim.refines_refl ⟨.builtin, .empty⟩
  obtain ⟨held, claimed, refines⟩ := itself.foldlM (leads_of_registerAll run [])
  rw [claimed, (refines.standsFor nofun).2 nofun]

/-- **A path below the root holds a module** exactly when it leads to the module of a file. -/
theorem isModule_iff (run : registerAll config files .empty = .ok placed t) {path : Path}
    {claim : Claim} (claimed : t.claimAt? path = some claim) (below : path ≠ []) :
    claim.kind = .file ↔ ∃ f ∈ files, path <+: f.1 := by
  have leads := leads_of_registerAll run
  constructor
  · intro isModule
    rcases leads.source claimed (by rw [isModule]; nofun) with before | registered
    · have atRoot : path ∈ Tree.empty.paths := Tree.mem_paths_iff.2 ⟨claim, before⟩
      exact absurd (List.mem_singleton.1 atRoot) below
    rcases List.mem_append.1 registered with ofFile | builtIn
    · obtain ⟨f, mem, ofFile⟩ := List.mem_flatMap.1 ofFile
      rcases List.mem_append.1 ofFile with ofModule | declared
      · exact ⟨f, mem, (Registration.mem_ofModule_iff.1 ofModule).1⟩
      · obtain ⟨r, inFile, same⟩ := List.mem_map.1 declared
        cases same
        exact absurd isModule (File.claims_ofSource inFile).notModule
    · rcases List.mem_append.1 builtIn with builtIn | builtIn <;>
        obtain ⟨name, -, same⟩ := List.mem_map.1 builtIn <;> cases same <;> cases isModule
  · rintro ⟨f, mem, within⟩
    obtain ⟨module, registered, isModule⟩ := Registration.exists_ofModule f.2.file within below
    obtain ⟨held, claimedToo, kind, -⟩ := leads.holds
      (List.mem_append_left _ (List.mem_flatMap.2 ⟨f, mem, List.mem_append_left _ registered⟩))
      (by rw [isModule]; nofun)
    rw [claimed] at claimedToo
    rw [Option.some.inj claimedToo, kind, isModule]

end Compilation

end FrontEnd

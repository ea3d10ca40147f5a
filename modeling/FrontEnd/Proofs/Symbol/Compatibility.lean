import FrontEnd.Proofs.Symbol.Reordering
import Mathlib.Data.List.Pairwise

/-!
# Which claims stand together

Claims meet at a path one after another, and each meets what those before it have left there. What
they leave is again compatible with just the claims that all of them are compatible with
(`Claim.admits_of_merge?`), so that it is enough to compare the claims two by two: nothing that was
merged in between, and no path that was only opened on the way to another, makes a difference.

**The law** (`Tree.declareAll_in_any_order`): claims on a new tree are accepted exactly when any two
of them on one path are compatible, so in one order when in another, and every order leaves the same
nodes.
-/

namespace FrontEnd

namespace Claim

variable {held further merged : Claim}

/-- **Two claims can stand at one path**: they are equal, or both are modules of which one names no
file. -/
def Compatible (a b : Claim) : Prop :=
  a = b ∨ a.kind = .file ∧ b.kind = .file ∧ (a.value = .empty ∨ b.value = .empty)

instance (a b : Claim) : Decidable (a.Compatible b) :=
  inferInstanceAs (Decidable (_ ∨ _))

theorem compatible_refl (claim : Claim) : claim.Compatible claim :=
  .inl rfl

theorem Compatible.symm {a b : Claim} (compatible : a.Compatible b) : b.Compatible a := by
  rcases compatible with rfl | ⟨isModuleA, isModuleB, oneBare⟩
  · exact compatible_refl _
  · exact .inr ⟨isModuleB, isModuleA, oneBare.symm⟩

/-- A module that names no file stands together with the modules. -/
theorem namespaceOnly_compatible_iff : namespaceOnly.Compatible further ↔ further.kind = .file := by
  constructor
  · rintro (rfl | ⟨-, isModule, -⟩)
    · rfl
    · exact isModule
  · exact fun isModule => .inr ⟨rfl, isModule, .inl rfl⟩

/-- Only modules stand together with a module. -/
theorem Compatible.kind_eq {a b : Claim} (compatible : a.Compatible b) : a.kind = b.kind := by
  rcases compatible with rfl | ⟨isModuleA, isModuleB, -⟩
  · rfl
  · rw [isModuleA, isModuleB]

/-- **What a path admits** where a claim is held: anything as long as it is open, and then what is
compatible with it. -/
def Admits (held further : Claim) : Prop :=
  held.kind = .unknown ∨ held.Compatible further

/-- What a claim admits that says something is what it is compatible with. -/
theorem Made.admits_iff (made : held.Made) : held.Admits further ↔ held.Compatible further :=
  or_iff_right made.known

/-- **A claim is merged exactly where it is admitted.** -/
theorem exists_merge?_iff (madeHeld : held.kind = .unknown ∨ held.Made) (made : further.Made) :
    (∃ merged, held.merge? further = some merged) ↔ held.Admits further := by
  constructor
  · rintro ⟨merged, merges⟩
    rcases merge?_eq_some_iff.1 merges with
      ⟨isOpen, -⟩ | ⟨rfl, isModule, -⟩ | ⟨-, -, rfl | ⟨name, rfl, rfl⟩⟩
    · exact .inl isOpen
    · exact .inr (namespaceOnly_compatible_iff.2 isModule)
    · exact .inr (compatible_refl _)
    · exact .inr (namespaceOnly_compatible_iff.2 rfl).symm
  · rintro (isOpen | rfl | ⟨isModule, isModuleToo, oneBare⟩)
    · exact ⟨further, merge?_eq_some_iff.2 (.inl ⟨isOpen, rfl⟩)⟩
    · exact ⟨held, refines_refl held⟩
    · have known : held.Made := madeHeld.resolve_left (by rw [isModule]; nofun)
      rcases known.module isModule with rfl | ⟨name, rfl⟩
      · exact ⟨further, merge?_eq_some_iff.2 (.inr (.inl ⟨rfl, isModuleToo, rfl⟩))⟩
      · rcases made.module isModuleToo with rfl | ⟨other, rfl⟩
        · exact ⟨file name, merge?_eq_some_iff.2
            (.inr (.inr ⟨known.known, rfl, .inr ⟨name, rfl, rfl⟩⟩))⟩
        · rcases oneBare with ⟨⟨⟩⟩ | ⟨⟨⟩⟩

/-- What was merged says something, as the claim did that was merged into it. -/
theorem made_of_merge? (madeHeld : held.kind = .unknown ∨ held.Made) (made : further.Made)
    (merges : held.merge? further = some merged) : merged.Made := by
  rcases merge?_eq_some_iff.1 merges with ⟨-, rfl⟩ | ⟨-, -, rfl⟩ | ⟨known, rfl, -⟩
  · exact made
  · exact made
  · exact madeHeld.resolve_left known

/-- **What was merged admits what both claims admitted.** -/
theorem admits_of_merge? (merges : held.merge? further = some merged) (made : further.Made)
    {later : Claim} : merged.Admits later ↔ held.Admits later ∧ further.Compatible later := by
  have bareOf (module : Claim) (isModule : module.kind = .file)
      (compatible : module.Compatible later) : namespaceOnly.Compatible later :=
    namespaceOnly_compatible_iff.2 (compatible.kind_eq ▸ isModule)
  rcases merge?_eq_some_iff.1 merges with
    ⟨isOpen, rfl⟩ | ⟨rfl, isModule, rfl⟩ | ⟨known, rfl, rfl | ⟨name, rfl, rfl⟩⟩
  · rw [made.admits_iff]
    exact ⟨fun compatible => ⟨.inl isOpen, compatible⟩, And.right⟩
  · rw [made.admits_iff]
    exact ⟨fun compatible => ⟨.inr (bareOf _ isModule compatible), compatible⟩, And.right⟩
  · rw [made.admits_iff, and_self]
  · exact ⟨fun admits => ⟨admits, bareOf _ rfl (admits.resolve_left known)⟩, And.left⟩

end Claim

namespace Registration

/-- Two registrations at one path claim what can stand together there. -/
def Agrees (r s : Registration) : Prop :=
  r.path = s.path → r.claim.Compatible s.claim

theorem agrees_refl (r : Registration) : r.Agrees r :=
  fun _ => r.claim.compatible_refl

instance : Std.Symm Agrees :=
  ⟨fun _ _ agrees same => (agrees same.symm).symm⟩

/-- **Registrations are accepted at a path** when it admits each of them there, and any two of them
there are compatible. -/
theorem exists_foldlM_update?_iff {path : Path} {rs : List Registration}
    (made : ∀ r ∈ rs, r.claim.Made) (held : Option Claim)
    (madeHeld : (held.getD .unclaimed).kind = .unknown ∨ (held.getD .unclaimed).Made) :
    (∃ left, rs.foldlM (update? path) held = some left) ↔
      (∀ r ∈ rs, r.path = path → (held.getD .unclaimed).Admits r.claim) ∧
        rs.Pairwise fun r s => r.path = path → s.path = path → r.claim.Compatible s.claim := by
  induction rs generalizing held with
  | nil => simp
  | cons first rest ih =>
    obtain ⟨at_first, further⟩ := first
    have madeFirst : further.Made := made _ List.mem_cons_self
    have madeRest : ∀ r ∈ rest, r.claim.Made := fun r mem => made r (List.mem_cons_of_mem _ mem)
    rw [List.forall_mem_cons, List.pairwise_cons, List.foldlM_cons]
    by_cases here : at_first = path
    · subst here
      simp only [update?_here, forall_const]
      rw [← Claim.exists_merge?_iff madeHeld madeFirst]
      cases merges : (held.getD .unclaimed).merge? further with
      | none => simp
      | some merged =>
        have later := ih madeRest (some merged)
          (.inr (Claim.made_of_merge? madeHeld madeFirst merges))
        simp only [Option.map_some, Option.bind_eq_bind, Option.bind_some, later, Option.getD_some,
          Claim.admits_of_merge? merges madeFirst]
        grind
    · obtain ⟨opens, run, -, same⟩ := update?_elsewhere further here
      have later := ih madeRest (opens held) (by rwa [same])
      simp only [run, Option.bind_eq_bind, Option.bind_some, later, same]
      grind

end Registration

namespace Tree

/-- On a new tree only the root is claimed. -/
theorem claimAt?_empty (path : Path) :
    empty.claimAt? path = if path = [] then some ⟨.builtin, .empty⟩ else none := by
  by_cases atRoot : path = []
  · rw [if_pos atRoot, atRoot]
    rfl
  · rw [if_neg atRoot, claimAt?_eq_none_iff]
    simpa [paths, empty] using atRoot

/-- **A new tree takes claims exactly when each path takes them.** -/
theorem exists_declareAll_iff {claims : List Registration} (made : ∀ r ∈ claims, r.claim.Made) :
    (∃ t, declareAll root claims .empty = .ok () t) ↔
      ∀ path, ∃ left,
        claims.foldlM (Registration.update? path) (empty.claimAt? path) = some left := by
  have outcome := outcome_declareAll_root isMap_empty hasRoot_empty made
  generalize run : declareAll root claims .empty = result at outcome ⊢
  cases outcome with
  | accepted _ _ leads => exact ⟨fun _ path => ⟨_, leads path⟩, fun _ => ⟨_, rfl⟩⟩
  | refused conflict =>
    obtain ⟨path, refused⟩ := conflict
    refine ⟨nofun, fun accepted => ?_⟩
    obtain ⟨left, accepts⟩ := accepted path
    rw [refused] at accepts
    cases accepts

/-- Claims below the root are taken exactly when any two of them on one path are compatible. -/
theorem exists_declareAll_iff_agree {claims : List Registration}
    (below : ∀ r ∈ claims, r.path ≠ []) (made : ∀ r ∈ claims, r.claim.Made) :
    (∃ t, declareAll root claims .empty = .ok () t) ↔ ∀ r ∈ claims, ∀ s ∈ claims, r.Agrees s := by
  rw [exists_declareAll_iff made]
  have atPath (path : Path) :
      (∃ left, claims.foldlM (Registration.update? path) (empty.claimAt? path) = some left) ↔
        claims.Pairwise fun r s => r.path = path → s.path = path → r.claim.Compatible s.claim := by
    rw [Registration.exists_foldlM_update?_iff made, and_iff_right_iff_imp]
    · rintro - r mem rfl
      rw [claimAt?_empty, if_neg (below r mem)]
      exact .inl rfl
    · rw [claimAt?_empty]
      split
      · exact .inr ⟨nofun, nofun⟩
      · exact .inl rfl
  simp only [atPath]
  constructor
  · intro accepted
    have agree : claims.Pairwise Registration.Agrees := by
      rw [List.pairwise_iff_getElem]
      intro i j hi hj before same
      exact List.pairwise_iff_getElem.1 (accepted claims[j].path) i j hi hj before same rfl
    exact fun r memR s memS => agree.forall_of_forall (fun r _ => r.agrees_refl) memR memS
  · intro agree path
    refine List.pairwise_of_forall_mem_list fun r memR s memS atR atS => ?_
    exact agree r memR s memS (atR.trans atS.symm)

/-- **The order of claims is of no importance.** Claims below the root are declared on a new tree in
one order when they are in another, both orders leave the same nodes, and they are declared exactly
when any two of them on one path are compatible. -/
theorem declareAll_in_any_order {claims others : List Registration} (perm : claims.Perm others)
    (below : ∀ r ∈ claims, r.path ≠ []) (made : ∀ r ∈ claims, r.claim.Made) :
    ((∃ t, declareAll root claims .empty = .ok () t) ↔
        ∃ u, declareAll root others .empty = .ok () u) ∧
      (∀ t u, declareAll root claims .empty = .ok () t → declareAll root others .empty = .ok () u →
        t.nodes.Perm u.nodes) ∧
      ((∃ t, declareAll root claims .empty = .ok () t) ↔
        ∀ r ∈ claims, ∀ s ∈ claims, r.path = s.path → r.claim.Compatible s.claim) := by
  have madeOthers : ∀ r ∈ others, r.claim.Made := fun r mem => made r (perm.mem_iff.2 mem)
  refine ⟨?_, fun t u run runOther => ?_, exists_declareAll_iff_agree below made⟩
  · rw [exists_declareAll_iff made, exists_declareAll_iff madeOthers]
    exact forall_congr' fun path => by rw [Registration.foldlM_update?_perm perm made]
  · have outcome := outcome_declareAll_root isMap_empty hasRoot_empty made
    have outcomeOther := outcome_declareAll_root isMap_empty hasRoot_empty madeOthers
    rw [run] at outcome
    rw [runOther] at outcomeOther
    cases outcome with
    | accepted isMap _ leads =>
      cases outcomeOther with
      | accepted isMapToo _ leadsToo =>
        refine isMap.nodes_perm isMapToo fun path => Option.some.inj ?_
        rw [← leads path, ← leadsToo path, Registration.foldlM_update?_perm perm made]

/-- A module, the file that it is and a structure in it: the structure opens the module before it is
claimed, and the module is claimed without a name before and after it is claimed with one. -/
def moduleOfBox : List Registration :=
  [⟨["m", "Box"], .declared .struct (.first "m.tx") 1⟩, ⟨["m"], .namespaceOnly⟩,
    ⟨["m"], .file "m.tx"⟩, ⟨["m"], .namespaceOnly⟩]

/-- Those claims stand together, in the order above and in the opposite one. -/
theorem declareAll_moduleOfBox :
    (∀ r ∈ moduleOfBox, r.path ≠ []) ∧ (∀ r ∈ moduleOfBox, r.claim.Made) ∧
      (∃ t, declareAll root moduleOfBox .empty = .ok () t) ∧
      ∃ u, declareAll root moduleOfBox.reverse .empty = .ok () u := by
  have below : ∀ r ∈ moduleOfBox, r.path ≠ [] := by decide
  have made : ∀ r ∈ moduleOfBox, r.claim.Made := by
    simp only [moduleOfBox, List.forall_mem_cons]
    refine ⟨⟨nofun, nofun⟩, ⟨nofun, fun _ => .inl rfl⟩, ⟨nofun, fun _ => .inr ⟨_, rfl⟩⟩,
      ⟨nofun, fun _ => .inl rfl⟩, nofun⟩
  obtain ⟨either, -, exactly⟩ :=
    declareAll_in_any_order (List.reverse_perm moduleOfBox).symm below made
  have accepted := exactly.2 (by decide)
  exact ⟨below, made, accepted, either.1 accepted⟩

end Tree

end FrontEnd

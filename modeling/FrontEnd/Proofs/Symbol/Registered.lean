import FrontEnd.Compilation
import FrontEnd.Proofs.Program.Declared
import FrontEnd.Proofs.Symbol.Growth

/-!
# What registration leaves

Registering files lets the tree grow, and every claim of a file is declared below its module from
then on (`Compilation.registered_of_registerAll`). The module of a file stands at the path that was
given for it.
-/

namespace FrontEnd

/-- **What holds of every claim that is registered**: it says something, and of a module it says
which file the module is, or nothing further. -/
structure Claim.Made (claim : Claim) : Prop where
  known : claim.kind ≠ .unknown
  module : claim.kind = .file → claim = .namespaceOnly ∨ ∃ name, claim = .file name

/-- **A claim that a declaration of a source makes**: it has a position, and its kind is neither that
of a module nor that of what is built in. -/
inductive Claim.OfSource : Claim → Prop
  | declared {kind : Symbol.Kind} {position : Position} {arity : Nat} (known : kind ≠ .unknown)
    (notModule : kind ≠ .file) (notBuiltin : kind ≠ .builtin) :
    OfSource (.declared kind position arity)

theorem Claim.OfSource.made {claim : Claim} (ofSource : claim.OfSource) : claim.Made := by
  cases ofSource with
  | declared known notModule notBuiltin =>
    exact ⟨known, fun isModule => absurd isModule notModule⟩

theorem Claim.OfSource.notModule {claim : Claim} (ofSource : claim.OfSource) :
    claim.kind ≠ .file := by
  cases ofSource with
  | declared known notModule notBuiltin => exact notModule

theorem Claim.OfSource.notBuiltin {claim : Claim} (ofSource : claim.OfSource) :
    claim.kind ≠ .builtin := by
  cases ofSource with
  | declared known notModule notBuiltin => exact notBuiltin

namespace Registration

theorem ofDecl_ofSource {r : Registration} {d : Decl} (mem : r ∈ ofDecl d) :
    r.claim.OfSource := by
  obtain ⟨path, claim⟩ := r
  cases mem_ofDecl_iff.1 mem <;> exact .declared nofun nofun nofun

theorem ofModule_made {r : Registration} {path : Path} {file : String}
    (mem : r ∈ ofModule path file) : r.claim.Made := by
  unfold ofModule at mem
  split at mem
  · cases mem
  · rcases List.mem_append.1 mem with mem | mem
    · obtain ⟨between, -, rfl⟩ := List.mem_map.1 mem
      exact ⟨nofun, fun _ => .inl rfl⟩
    · obtain rfl := List.mem_singleton.1 mem
      exact ⟨nofun, fun _ => .inr ⟨file, rfl⟩⟩

theorem ofConfig_made {r : Registration} {config : Config} (mem : r ∈ ofConfig config) :
    r.claim.Made := by
  rcases List.mem_append.1 mem with mem | mem <;> obtain ⟨name, -, rfl⟩ := List.mem_map.1 mem <;>
    exact ⟨nofun, nofun⟩

end Registration

/-- **Every claim of a file** is one of a declaration. -/
theorem File.claims_ofSource {file : File} {r : Registration} (mem : r ∈ file.claims) :
    r.claim.OfSource := by
  obtain ⟨d, -, mem⟩ := List.mem_flatMap.1 mem
  exact Registration.ofDecl_ofSource mem

theorem File.claims_made {file : File} {r : Registration} (mem : r ∈ file.claims) :
    r.claim.Made :=
  (File.claims_ofSource mem).made

namespace Tree

/-- **Declarations one after another** let the tree grow, and each path is declared at the end. -/
theorem grows_of_declareAll {base : Nat} {claims : List Registration} {t grown : Tree}
    (h : declareAll base claims t = .ok () grown) (inside : base < t.size)
    (made : ∀ r ∈ claims, r.claim.Made) :
    t.Grows grown ∧ ∀ r ∈ claims, grown.Knows (t.pathOf base ++ r.path) := by
  unfold declareAll at h
  induction claims generalizing t with
  | nil =>
    obtain rfl := forM_nil_eq_ok.1 h
    exact ⟨grows_refl t, fun r mem => by cases mem⟩
  | cons first rest ih =>
    obtain ⟨between, firstRun, restRun⟩ := forM_cons_eq_ok.1 h
    obtain ⟨id, declares⟩ := discard_eq_ok.1 firstRun
    obtain ⟨grows, knows⟩ := grows_of_declare declares (made first List.mem_cons_self).known
    obtain ⟨growsOn, knowsOn⟩ := ih restRun (Nat.lt_of_lt_of_le inside grows.size_le)
      fun r mem => made r (List.mem_cons_of_mem _ mem)
    refine ⟨grows.trans growsOn, fun r mem => ?_⟩
    rcases List.mem_cons.1 mem with rfl | mem
    · exact growsOn.knows knows
    · rw [← grows.pathOf_eq inside]
      exact knowsOn r mem

/-- The root stands in front of all other nodes. -/
def HasRoot (t : Tree) : Prop :=
  t.find? [] = some root

theorem hasRoot_empty : empty.HasRoot := rfl

theorem Grows.hasRoot {t grown : Tree} (grows : t.Grows grown) (hasRoot : t.HasRoot) :
    grown.HasRoot :=
  grows.find?_eq hasRoot

/-- Where something is declared a node stands. -/
theorem Knows.exists_find? {t : Tree} {path : Path} (knows : t.Knows path) :
    ∃ id, t.find? path = some id := by
  obtain ⟨claim, claimed, -⟩ := knows
  rw [← Option.isSome_iff_exists, find?_isSome_eq, claimed]
  rfl

/-- Declaring a module puts a node at its path. -/
theorem find?_of_declareAll_ofModule {modulePath : Path} {file : String} {t opened : Tree}
    (h : declareAll root (Registration.ofModule modulePath file) t = .ok () opened)
    (hasRoot : t.HasRoot) : t.Grows opened ∧ ∃ module, opened.find? modulePath = some module := by
  obtain ⟨grows, knows⟩ := grows_of_declareAll h (lt_size_of_find? hasRoot)
    fun r mem => Registration.ofModule_made mem
  refine ⟨grows, ?_⟩
  by_cases atRoot : modulePath = []
  · exact ⟨root, atRoot ▸ grows.hasRoot hasRoot⟩
  · have mem : ⟨modulePath, .file file⟩ ∈ Registration.ofModule modulePath file := by
      rw [Registration.ofModule, if_neg (by simpa using atRoot)]
      exact List.mem_append_right _ (List.mem_singleton_self _)
    have declared := knows _ mem
    rw [pathOf_of_find? hasRoot, List.nil_append] at declared
    exact declared.exists_find?

/-- **Registering a file** at a module lets the tree grow; the module stands at its path, and every
claim of the file is declared below it. -/
theorem grows_of_register {modulePath : Path} {file : File} {t grown : Tree} {module : Nat}
    (h : register modulePath file t = .ok module grown) (hasRoot : t.HasRoot) :
    t.Grows grown ∧ grown.find? modulePath = some module ∧
      ∀ r ∈ file.claims, grown.Knows (modulePath ++ r.path) := by
  unfold register at h
  obtain ⟨⟨⟩, opened, moduleRun, h⟩ := bind_eq_ok.1 h
  obtain ⟨t', opened', read, h⟩ := bind_eq_ok.1 h
  cases read
  obtain ⟨⟨⟩, registered, fileRun, h⟩ := bind_eq_ok.1 h
  obtain ⟨rfl, rfl⟩ := pure_eq_ok.1 h
  obtain ⟨grows, module, found⟩ := find?_of_declareAll_ofModule moduleRun hasRoot
  rw [found, Option.getD_some] at fileRun ⊢
  obtain ⟨growsOn, knowsOn⟩ := grows_of_declareAll fileRun (lt_size_of_find? found)
    fun r mem => File.claims_made mem
  rw [pathOf_of_find? found] at knowsOn
  exact ⟨grows.trans growsOn, growsOn.find?_eq found, knowsOn⟩

end Tree

namespace Compilation

/-- Registering files one after another places each at its module. -/
theorem grows_of_registerUnits {files : List (Path × File)} {t grown : Tree} {placed : List Placed}
    (h : registerUnits files t = .ok placed grown) (hasRoot : t.HasRoot) :
    t.Grows grown ∧ placed = files.map (fun f => ⟨f.1, f.2⟩) ∧
      ∀ f ∈ files, ∀ r ∈ f.2.claims, grown.Knows (f.1 ++ r.path) := by
  induction files generalizing t placed with
  | nil =>
    obtain ⟨rfl, rfl⟩ := pure_eq_ok.1 h
    exact ⟨Tree.grows_refl t, rfl, fun f mem => by cases mem⟩
  | cons first rest ih =>
    obtain ⟨modulePath, file⟩ := first
    unfold registerUnits at h
    obtain ⟨module, between, firstRun, h⟩ := bind_eq_ok.1 h
    obtain ⟨t', between', read, h⟩ := bind_eq_ok.1 h
    cases read
    obtain ⟨placedRest, final, restRun, h⟩ := bind_eq_ok.1 h
    obtain ⟨rfl, rfl⟩ := pure_eq_ok.1 h
    obtain ⟨grows, atModule, knows⟩ := Tree.grows_of_register firstRun hasRoot
    obtain ⟨growsOn, placedOn, knowsOn⟩ := ih restRun (grows.hasRoot hasRoot)
    refine ⟨grows.trans growsOn, ?_, fun f mem r claimed => ?_⟩
    · rw [Tree.pathOf_of_find? atModule, placedOn, List.map_cons]
    · rcases List.mem_cons.1 mem with rfl | mem
      · exact growsOn.knows (knows r claimed)
      · exact knowsOn f mem r claimed

/-- **What registration leaves**: each file at its module, the root in front, and every claim of a
file declared below its module. -/
theorem registered_of_registerAll {config : Config} {files : List (Path × File)} {t : Tree}
    {placed : List Placed} (h : registerAll config files .empty = .ok placed t) :
    t.HasRoot ∧ placed = files.map (fun f => ⟨f.1, f.2⟩) ∧
      ∀ f ∈ files, ∀ r ∈ f.2.claims, t.Knows (f.1 ++ r.path) := by
  unfold registerAll at h
  obtain ⟨placed', between, unitsRun, h⟩ := bind_eq_ok.1 h
  obtain ⟨⟨⟩, final, builtinsRun, h⟩ := bind_eq_ok.1 h
  obtain ⟨rfl, rfl⟩ := pure_eq_ok.1 h
  obtain ⟨grows, placed, knows⟩ := grows_of_registerUnits unitsRun Tree.hasRoot_empty
  have hasRoot := grows.hasRoot Tree.hasRoot_empty
  obtain ⟨growsOn, -⟩ := Tree.grows_of_declareAll builtinsRun (Tree.lt_size_of_find? hasRoot)
    fun r mem => Registration.ofConfig_made mem
  refine ⟨growsOn.hasRoot hasRoot, placed, fun f mem r claimed => ?_⟩
  exact growsOn.knows (knows f mem r claimed)

end Compilation

end FrontEnd

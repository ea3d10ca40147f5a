import FrontEnd.Proofs.Symbol.Arena
import FrontEnd.Proofs.Symbol.Reordering

/-!
# Registering by number

Files can be registered in an arena: a declaration is entered below the number of what it stands in,
and what stands in it below the number that it gets. The module of a file is opened first, with what
it stands in, by slices of its path.

**The law** (`Arena.answers_registerAll`): registering files by number answers registering them at
their paths, and every file is given with the number of its module.
-/

namespace FrontEnd

/-- The first segments of a path, if there are so many. -/
def Path.first? (path : Path) (count : Nat) : Option Path :=
  if count ≤ path.length then some (path.take count) else none

namespace Arena

/-- Declares claims below an entry, one after another. -/
def declareEach (parent : Nat) (claims : List Registration) : Guarded Arena Unit :=
  claims.forM fun r => discard (declare parent r.path r.claim)

mutual
/-- **Registers a structure below an entry**, and what stands in it below its own. -/
def registerStruct (parent : Nat) : StructDecl → Guarded Arena Unit
  | ⟨_, name, parameters, _, fields, inner, span⟩ => do
    let id ← declare parent [name] (.declared .struct span.start parameters.length)
    declareEach id (Registration.ofParameters [] parameters)
    declareEach id (Registration.ofFields [] fields)
    registerStructs id inner
/-- Registers structures below an entry. -/
def registerStructs (parent : Nat) : List StructDecl → Guarded Arena Unit
  | [] => pure ()
  | struct :: rest => do
    registerStruct parent struct
    registerStructs parent rest
end

/-- **Registers a declaration below the entry of its module.** -/
def registerDecl (module : Nat) : Decl → Guarded Arena Unit
  | .struct d => registerStruct module d
  | .function f => do
    let id ← declare module f.name.path (.declared .function f.span.start f.parameters.length)
    declareEach id (Registration.ofParameters [] f.parameters)
  | .interface i => do
    let id ← declare module [i.name] (.declared .interface i.span.start i.parameters.length)
    declareEach id (Registration.ofParameters [] i.parameters)
    declareEach id (i.methods.map fun m => ⟨[m.name], .declared .interfaceMethod m.span.start 0⟩)
  | .synonym d => discard (declare module [d.name] (.declared .synonym d.span.start 0))
  | .enum d => discard (declare module [d.name] (.declared .enum d.span.start 0))

/-- **Opens a module** and what it stands in, and gives its number. -/
def openModule (path : Path) (file : String) : Guarded Arena Nat :=
  if path.isEmpty then pure Tree.root
  else do
    (List.range (path.length - 1)).forM fun n => do
      let outer ← demand (path.first? (n + 1))
      discard (declare Tree.root outer .namespaceOnly)
    declare Tree.root path (.file file)

/-- **Registers a file at a module** and gives the number of the module. -/
def register (path : Path) (file : File) : Guarded Arena Nat := do
  let module ← openModule path file.file
  file.declarations.forM (registerDecl module)
  return module

/-- Registers files at their modules, one after another. -/
def registerUnits : List (Path × File) → Guarded Arena (List (Nat × File))
  | [] => pure []
  | (path, file) :: rest => do
    let module ← register path file
    let placed ← registerUnits rest
    return (module, file) :: placed

/-- **Registers files at their modules and then what is built in.** -/
def registerAll (config : Config) (files : List (Path × File)) :
    Guarded Arena (List (Nat × File)) := do
  let placed ← registerUnits files
  declareEach Tree.root (Registration.ofConfig config)
  return placed

variable {known : List (Path × Nat)} {base id : Nat} {module owner : Path}

/-- Numbers that are known may be forgotten. -/
theorem Numbered.forget {t : Tree} {a : Arena} {entry : Path × Nat}
    (numbered : Numbered (entry :: known) t a) : Numbered known t a where
  links := numbered.links
  found := fun mem => numbered.found (List.mem_cons_of_mem _ mem)

/-- A declaration whose number is dropped on both sides. -/
theorem answers_declare_dropped (atBase : (module, base) ∈ known) (atOwner : (owner, id) ∈ known)
    {path below : Path} (same : module ++ path = owner ++ below) (further : Claim) :
    Answers (Numbered known) (discard (Tree.declare base path further))
      (discard (declare id below further)) fun _ t _ a => Numbered known t a :=
  (answers_declare atBase atOwner same further).drop.dropGuarded.relax
    fun _ _ _ _ ⟨_, _, numbered⟩ => numbered.forget

/-- **Claims below a node are answered by those below its number.** -/
theorem answers_declareEach (atBase : (module, base) ∈ known) {below : Path}
    (atOwner : (module ++ below, id) ∈ known) (claims : List Registration) :
    Answers (Numbered known) (Tree.declareAll base (claims.map (.below below)))
      (declareEach id claims) fun _ t _ a => Numbered known t a := by
  induction claims with
  | nil => exact .pure fun _ _ numbered => numbered
  | cons first rest ih =>
    have same : module ++ (below ++ first.path) = module ++ below ++ first.path :=
      (List.append_assoc ..).symm
    exact .bind (answers_declare_dropped atBase atOwner same first.claim) fun _ _ => ih

theorem declareAll_singleton (base : Nat) (r : Registration) :
    Tree.declareAll base [r] = discard (Tree.declare base r.path r.claim) :=
  bind_pure_unit

theorem ofParameters_below (owner : Path) (parameters : List TypeParameter) :
    (Registration.ofParameters [] parameters).map (.below owner) =
      Registration.ofParameters owner parameters :=
  List.map_map ..

theorem ofFields_below (owner : Path) (fields : List Field) :
    (Registration.ofFields [] fields).map (.below owner) = Registration.ofFields owner fields :=
  List.map_map ..

/-- **A declaration with what stands in it**: the claims of the latter are made below the number that
the former gets. -/
theorem answers_declare_within (atBase : (module, base) ∈ known) {below path : Path}
    (atOwner : (module ++ below, id) ∈ known) (further : Claim) {claims : List Registration}
    {inside : Nat → Guarded Arena Unit}
    (within : ∀ {known : List (Path × Nat)} {number : Nat}, (module, base) ∈ known →
      (module ++ (below ++ path), number) ∈ known →
      Answers (Numbered known) (Tree.declareAll base claims) (inside number)
        fun _ t _ a => Numbered known t a) :
    Answers (Numbered known) (Tree.declareAll base (⟨below ++ path, further⟩ :: claims))
      (declare id path further >>= inside) fun _ t _ a => Numbered known t a := by
  have same : module ++ (below ++ path) = module ++ below ++ path := (List.append_assoc ..).symm
  refine .bind (answers_declare atBase atOwner same further).drop fun _ number => ?_
  have later := within (List.mem_cons_of_mem _ atBase) (List.mem_cons_self (l := known)
    (a := (module ++ (below ++ path), number)))
  rw [same] at later
  refine (later.relax fun _ _ _ _ numbered => numbered.forget).weaken ?_
  rintro t a ⟨_, numbered⟩
  exact numbered

mutual
/-- **A structure registered at its path is answered by one registered by number.** -/
theorem answers_registerStruct {known : List (Path × Nat)} {id : Nat}
    (atBase : (module, base) ∈ known) {below : Path}
    (atOwner : (module ++ below, id) ∈ known) (d : StructDecl) :
    Answers (Numbered known) (Tree.declareAll base (Registration.ofStruct below d))
      (registerStruct id d) fun _ t _ a => Numbered known t a := by
  cases d with
  | mk isClosed name parameters bases fields inner span =>
    apply answers_declare_within atBase atOwner
    intro known number atBase atOwn
    rw [← ofParameters_below, ← ofFields_below, List.append_assoc]
    refine .forM_append (answers_declareEach atBase atOwn _) fun _ => ?_
    refine .forM_append (answers_declareEach atBase atOwn _) fun _ => ?_
    exact answers_registerStructs atBase atOwn inner
/-- Structures registered at their paths are answered by those registered by number. -/
theorem answers_registerStructs {known : List (Path × Nat)} {id : Nat}
    (atBase : (module, base) ∈ known) {below : Path}
    (atOwner : (module ++ below, id) ∈ known) (ds : List StructDecl) :
    Answers (Numbered known) (Tree.declareAll base (Registration.ofStructs below ds))
      (registerStructs id ds) fun _ t _ a => Numbered known t a := by
  cases ds with
  | nil => exact .pure fun _ _ numbered => numbered
  | cons first rest =>
    exact .forM_append (answers_registerStruct atBase atOwner first)
      fun _ => answers_registerStructs atBase atOwner rest
end

/-- **A declaration registered at its path is answered by one registered by number.** -/
theorem answers_registerDecl (atBase : (module, base) ∈ known) (d : Decl) :
    Answers (Numbered known) (Tree.declareAll base (Registration.ofDecl d))
      (registerDecl base d) fun _ t _ a => Numbered known t a := by
  have atOwner : (module ++ [], base) ∈ known := by rwa [List.append_nil]
  cases d with
  | struct d => exact answers_registerStruct atBase atOwner d
  | function f =>
    apply answers_declare_within atBase atOwner
    intro known number atBase atOwn
    rw [← ofParameters_below]
    exact answers_declareEach atBase atOwn _
  | interface i =>
    apply answers_declare_within atBase atOwner
    intro known number atBase atOwn
    have methods : (i.methods.map fun m => (⟨[i.name] ++ [m.name],
        .declared .interfaceMethod m.span.start 0⟩ : Registration)) =
        (i.methods.map fun m => ⟨[m.name], .declared .interfaceMethod m.span.start 0⟩).map
          (.below [i.name]) := by
      rw [List.map_map]
      rfl
    rw [← ofParameters_below, methods]
    exact .forM_append (answers_declareEach atBase atOwn _) fun _ =>
      answers_declareEach atBase atOwn _
  | synonym d | enum d =>
    rw [Registration.ofDecl, declareAll_singleton]
    exact answers_declare_dropped atBase atOwner (by rw [List.append_nil]) _

/-! ## Files -/

/-- The beginnings of a path are slices of it. -/
theorem first?_eq {path : Path} {count : Nat} (short : count ≤ path.length) :
    path.first? count = some (path.take count) :=
  if_pos short

/-- **Opening a module** answers the claims of the module, and gives the number that it has. -/
theorem answers_openModule (atRoot : ([], Tree.root) ∈ known) (path : Path) (file : String) :
    Answers (Numbered known) (Tree.declareAll Tree.root (Registration.ofModule path file))
      (openModule path file) fun _ t module a => Numbered ((path, module) :: known) t a := by
  unfold Registration.ofModule openModule
  by_cases empty : path.isEmpty
  · obtain rfl := List.isEmpty_iff.1 empty
    refine .pure fun t a numbered => ⟨numbered.links, fun mem => ?_⟩
    rcases List.mem_cons.1 mem with here | mem
    · cases here
      exact numbered.links.hasRoot
    · exact numbered.found mem
  · rw [if_neg empty, if_neg empty]
    rw [Path.between, List.map_map]
    refine .forM_append (.forM_map fun n inside => ?_) fun _ => ?_
    · have short : n + 1 ≤ path.length := by
        have := List.mem_range.1 inside
        omega
      exact .demand (first?_eq short) (answers_declare_dropped atRoot atRoot rfl _)
    · show Answers _ (Tree.declareAll Tree.root [⟨path, .file file⟩]) _ _
      rw [declareAll_singleton]
      apply (answers_declare atRoot atRoot rfl _).drop.relax
      rintro _ _ _ _ ⟨_, numbered⟩
      exact numbered

/-- **Registering a file at its path is answered by registering it by number.** -/
theorem answers_register (atRoot : ([], Tree.root) ∈ known) (path : Path) (file : File) :
    Answers (Numbered known) (Tree.register path file) (register path file)
      fun id t module a => id = module ∧ Numbered ((path, module) :: known) t a := by
  refine .bind (answers_openModule atRoot path file.file) fun _ module => ?_
  intro t a numbered
  have atModule : (path, module) ∈ (path, module) :: known := List.mem_cons_self
  have declares : Answers (Numbered ((path, module) :: known))
      (Tree.declareAll module file.claims >>= fun _ => pure module)
      (file.declarations.forM (registerDecl module) >>= fun _ => pure module)
      fun id t module a => id = module ∧ Numbered ((path, module) :: known) t a :=
    .bind (.forM_flatMap fun d _ => answers_registerDecl atModule d) fun _ _ =>
      .pure fun _ _ numbered => ⟨rfl, numbered⟩
  rw [get_bind, numbered.found atModule, Option.getD_some]
  exact declares numbered

/-- **A file that is registered at its path** and one that is registered by number belong together
when they are the same file, and the number is that of the module. -/
def Beside (t : Tree) (placed : Placed) (numbered : Nat × File) : Prop :=
  placed.file = numbered.2 ∧ t.find? placed.module = some numbered.1

/-- Files registered at their paths are answered by files registered by number. -/
theorem answers_registerUnits {known : List (Path × Nat)} (atRoot : ([], Tree.root) ∈ known)
    (files : List (Path × File)) :
    Answers (Numbered known) (Compilation.registerUnits files) (registerUnits files)
      fun placed t numbered a => Numbered known t a ∧ List.Forall₂ (Beside t) placed numbered := by
  induction files generalizing known with
  | nil => exact .pure fun _ _ numbered => ⟨numbered, .nil⟩
  | cons first rest ih =>
    obtain ⟨path, file⟩ := first
    refine .bind (answers_register atRoot path file) fun id module => ?_
    rintro t a ⟨rfl, numbered⟩
    have atModule : (path, id) ∈ (path, id) :: known := List.mem_cons_self
    have goesOn : Answers (Numbered ((path, id) :: known))
        (Compilation.registerUnits rest >>= fun placed => pure (⟨path, file⟩ :: placed))
        (registerUnits rest >>= fun placed => pure ((id, file) :: placed))
        fun placed t files a => Numbered known t a ∧ List.Forall₂ (Beside t) placed files :=
      .bind (ih (List.mem_cons_of_mem _ atRoot)) fun placed files =>
        .pure fun t a ⟨numbered, beside⟩ =>
          ⟨numbered.forget, .cons ⟨rfl, numbered.found atModule⟩ beside⟩
    rw [get_bind, Tree.pathOf_of_find? (numbered.found atModule)]
    exact goesOn numbered

/-- The paths of a tree with their numbers. -/
def numbers (t : Tree) : List (Path × Nat) :=
  t.paths.zipIdx

theorem mem_numbers_iff {t : Tree} (isMap : t.IsMap) {path : Path} {id : Nat} :
    (path, id) ∈ numbers t ↔ t.find? path = some id := by
  have length : t.paths.length = t.size := List.length_map ..
  rw [numbers, List.mem_zipIdx_iff_getElem?, isMap.find?_eq_some_iff, Tree.pathOf_eq, ← length]
  constructor
  · intro here
    exact ⟨(List.getElem?_eq_some_iff.1 here).1, by rw [here, Option.getD_some]⟩
  · rintro ⟨inside, rfl⟩
    rw [List.getElem?_eq_getElem inside, Option.getD_some]

/-- **Registering by number answers registering at paths**: no operation on the arena is without its
entry, the same fault is found, and otherwise the arena links the tree, in which each file has the
number of its module. -/
theorem answers_registerAll (config : Config) (files : List (Path × File)) :
    Answers (fun t a => t = .empty ∧ a = empty) (Compilation.registerAll config files)
      (registerAll config files)
      fun placed t numbered a => a.Links t ∧ List.Forall₂ (Beside t) placed numbered := by
  have start : Numbered [([], Tree.root)] .empty empty := by
    refine ⟨links_empty, fun mem => ?_⟩
    cases List.mem_singleton.1 mem
    rfl
  have units := answers_registerUnits (List.mem_singleton_self ([], Tree.root)) files
  have placing : Answers (Numbered [([], Tree.root)]) (Compilation.registerAll config files)
      (registerAll config files)
      fun placed t numbered a => a.Links t ∧ List.Forall₂ (Beside t) placed numbered := by
    refine .bind units fun placed numbered => ?_
    rintro t a ⟨⟨links, -⟩, beside⟩
    have atRoot : ([], Tree.root) ∈ numbers t := (mem_numbers_iff links.isMap).2 links.hasRoot
    have below : ([] ++ [], Tree.root) ∈ numbers t := atRoot
    have builtIn := answers_declareEach atRoot below (Registration.ofConfig config)
    have goesOn : Answers (Numbered (numbers t))
        (Tree.registerBuiltins config >>= fun _ => pure placed)
        (declareEach Tree.root (Registration.ofConfig config) >>= fun _ => pure numbered)
        fun placed t numbered a => a.Links t ∧ List.Forall₂ (Beside t) placed numbered := by
      rw [Tree.map_below_root] at builtIn
      refine .bind builtIn fun _ _ => .pure fun grown _ further => ⟨further.links, ?_⟩
      refine beside.imp fun _ _ ⟨same, found⟩ => ⟨same, further.found ?_⟩
      exact (mem_numbers_iff links.isMap).2 found
    exact goesOn ⟨links, (mem_numbers_iff links.isMap).1⟩
  exact placing.weaken fun _ _ ⟨empty, emptyToo⟩ => empty ▸ emptyToo ▸ start

end Arena

end FrontEnd
